import Mathlib.Data.Nat.Digits.Lemmas
import Mathlib.Tactic

set_option autoImplicit false

/-! # Regrouping digits through a bit buffer

Digits of `w` bits are shifted into a buffer and leave it as digits of `v` bits. The buffer is a
word: its high bits are lost, and only its low `bits` bits count. What has been fed and what has
come out spell the same number, but for these bits.
-/

namespace BitBuffer

/-- The number that digits spell, most significant first. -/
def value (base : Nat) (digits : List Nat) : Nat := Nat.ofDigits base digits.reverse

section
variable {base d : Nat} {ds es : List Nat}

@[simp] theorem value_nil (base : Nat) : value base [] = 0 := rfl

theorem value_concat (base : Nat) (ds : List Nat) (d : Nat) :
    value base (ds ++ [d]) = value base ds * base + d := by
  rw [value, value, List.reverse_concat, Nat.ofDigits_cons, Nat.add_comm,
    Nat.mul_comm]

/-- Digits of one length are given by their value. -/
theorem value_inj (hbase : 1 < base) (hlen : ds.length = es.length) (hds : ∀ d ∈ ds, d < base)
    (hes : ∀ d ∈ es, d < base) (h : value base ds = value base es) : ds = es := by
  have hrev : ds.reverse = es.reverse := by
    apply Nat.ofDigits_inj_of_len_eq hbase
    · rw [List.length_reverse, List.length_reverse, hlen]
    · exact fun d hd => hds d (List.mem_reverse.mp hd)
    · exact fun d hd => hes d (List.mem_reverse.mp hd)
    · exact h
  exact List.reverse_injective hrev

/-- The last `k` digits of `n`. -/
def digits (base : Nat) : Nat → Nat → List Nat
  | 0, _ => []
  | k + 1, n => digits base k (n / base) ++ [n % base]

@[simp] theorem length_digits (base k n : Nat) : (digits base k n).length = k := by
  induction k generalizing n with
  | zero => rfl
  | succ k ih => rw [digits, List.length_append, ih, List.length_singleton]

theorem lt_of_mem_digits (hbase : 0 < base) {k n : Nat} (h : d ∈ digits base k n) : d < base := by
  induction k generalizing n with
  | zero => exact absurd h List.not_mem_nil
  | succ k ih =>
      rw [digits, List.mem_append, List.mem_singleton] at h
      rcases h with h | rfl
      · exact ih h
      · exact Nat.mod_lt n hbase

theorem value_digits (base k n : Nat) : value base (digits base k n) = n % base ^ k := by
  induction k generalizing n with
  | zero => rw [Nat.pow_zero, Nat.mod_one, digits, value_nil]
  | succ k ih =>
      rw [digits, value_concat, ih, Nat.pow_succ, Nat.mul_comm (base ^ k), Nat.mod_mul]
      ring

theorem value_lt (hbase : 1 < base) (hds : ∀ d ∈ ds, d < base) :
    value base ds < base ^ ds.length := by
  rw [value, ← List.length_reverse]
  exact Nat.ofDigits_lt_base_pow_length hbase fun d hd => hds d (List.mem_reverse.mp hd)

end

/-- `fed` has gone in, `out` has come out, and `bits` bits of the buffer are still to come. -/
structure Holds (w v : Nat) (fed out : List Nat) (buffer bits : Nat) : Prop where
  value : value (2 ^ w) fed = value (2 ^ v) out * 2 ^ bits + buffer % 2 ^ bits
  length : w * fed.length = v * out.length + bits

namespace Holds

variable {w v buffer bits size x : Nat} {fed out : List Nat}

theorem start (w v : Nat) : Holds w v [] [] 0 0 := ⟨rfl, rfl⟩

/-- The word has room for the bits that count and the new ones. -/
theorem feed (h : Holds w v fed out buffer bits) (hx : x < 2 ^ w) (hroom : bits + w ≤ size) :
    Holds w v (fed ++ [x]) out ((buffer * 2 ^ w + x) % 2 ^ size) (bits + w) := by
  have hlow : (buffer * 2 ^ w + x) % 2 ^ size % 2 ^ (bits + w) =
      buffer % 2 ^ bits * 2 ^ w + x := by
    have hmod : (buffer * 2 ^ w + x) % 2 ^ w = x := by
      rw [Nat.mul_add_mod', Nat.mod_eq_of_lt hx]
    have hdiv : (buffer * 2 ^ w + x) / 2 ^ w = buffer := by
      rw [Nat.mul_comm, Nat.mul_add_div (Nat.two_pow_pos w), Nat.div_eq_of_lt hx, Nat.add_zero]
    rw [Nat.mod_mod_of_dvd _ (Nat.pow_dvd_pow 2 hroom), Nat.pow_add, Nat.mul_comm (2 ^ bits),
      Nat.mod_mul, hmod, hdiv]
    ring
  constructor
  · rw [value_concat, h.value, hlow, Nat.pow_add]
    ring
  · rw [List.length_append, List.length_singleton, Nat.mul_add, h.length]
    omega

/-- A digit leaves the buffer. -/
theorem emit (h : Holds w v fed out buffer (bits + v)) :
    Holds w v fed (out ++ [buffer / 2 ^ bits % 2 ^ v]) buffer bits := by
  constructor
  · rw [value_concat, h.value, Nat.pow_add, Nat.mod_mul]
    ring
  · rw [h.length, List.length_append, List.length_singleton]
    ring

/-- The bits that are left become a digit, with zeros behind them. -/
theorem pad (h : Holds w v fed out buffer bits) (hbits : bits ≤ v) :
    BitBuffer.value (2 ^ v) (out ++ [buffer * 2 ^ (v - bits) % 2 ^ v]) =
      BitBuffer.value (2 ^ w) fed * 2 ^ (v - bits) := by
  have hsplit : 2 ^ v = 2 ^ bits * 2 ^ (v - bits) := by
    rw [← Nat.pow_add, Nat.add_sub_cancel' hbits]
  have hlow : buffer * 2 ^ (v - bits) % 2 ^ v = buffer % 2 ^ bits * 2 ^ (v - bits) := by
    rw [hsplit, Nat.mul_mod_mul_right]
  rw [value_concat, hlow, h.value]
  calc BitBuffer.value (2 ^ v) out * 2 ^ v + buffer % 2 ^ bits * 2 ^ (v - bits)
      = BitBuffer.value (2 ^ v) out * (2 ^ bits * 2 ^ (v - bits)) +
          buffer % 2 ^ bits * 2 ^ (v - bits) := by rw [← hsplit]
    _ = (BitBuffer.value (2 ^ v) out * 2 ^ bits + buffer % 2 ^ bits) * 2 ^ (v - bits) := by ring

end Holds

end BitBuffer
