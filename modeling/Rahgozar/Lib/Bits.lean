import Mathlib.Algebra.Group.Nat.TypeTags
import Mathlib.Data.Nat.Bitwise
import Mathlib.Tactic

set_option autoImplicit false

/-! # Numbers as bits, and powers by squaring

The bits of a number come with the most significant first, so that a fold over them doubles what
it has and adds the next bit. In a monoid the same fold squares and multiplies.
-/

namespace Bits

/-- The low `len` bits of `n`. -/
def bits : ℕ → ℕ → List Bool
  | 0, _ => []
  | len + 1, n => n.testBit len :: bits len n

theorem bits_eq (len n : ℕ) : bits len n = (List.range len).reverse.map n.testBit := by
  induction len with
  | zero => rfl
  | succ len ih => rw [bits, ih, List.range_succ, List.reverse_concat, List.map_cons]

/-- The number that bits spell. -/
def number (bs : List Bool) : ℕ := bs.foldl (fun n b => 2 * n + b.toNat) 0

theorem foldl_bits (len n acc : ℕ) :
    (bits len n).foldl (fun n b => 2 * n + b.toNat) acc = acc * 2 ^ len + n % 2 ^ len := by
  induction len generalizing acc with
  | zero => simp [bits, Nat.mod_one]
  | succ len ih =>
      rw [bits, List.foldl_cons, ih, Nat.mod_pow_succ, ← Nat.toNat_testBit, Nat.pow_succ]
      ring

theorem number_bits {len n : ℕ} (h : n < 2 ^ len) : number (bits len n) = n := by
  rw [number, foldl_bits, Nat.zero_mul, Nat.zero_add, Nat.mod_eq_of_lt h]

section

variable {M : Type*} [Monoid M]

def power (a : M) (bs : List Bool) : M := bs.foldl (fun r b => if b then r * r * a else r * r) 1

theorem foldl_power (a : M) (bs : List Bool) (n : ℕ) :
    bs.foldl (fun r b => if b then r * r * a else r * r) (a ^ n) =
      a ^ bs.foldl (fun n b => 2 * n + b.toNat) n := by
  induction bs generalizing n with
  | nil => rfl
  | cons b bs ih =>
      have hstep : (if b then a ^ n * a ^ n * a else a ^ n * a ^ n) = a ^ (2 * n + b.toNat) := by
        cases b with
        | false => simp [two_mul, pow_add]
        | true => simp [two_mul, pow_add]
      rw [List.foldl_cons, hstep, ih, List.foldl_cons]

theorem power_eq (a : M) (bs : List Bool) : power a bs = a ^ number bs := by
  rw [power, ← pow_zero a, foldl_power, number]

theorem power_bits (a : M) {len n : ℕ} (h : n < 2 ^ len) : power a (bits len n) = a ^ n := by
  rw [power_eq, number_bits h]

end

end Bits
