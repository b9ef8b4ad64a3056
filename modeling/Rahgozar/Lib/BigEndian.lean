import Mathlib.Tactic

set_option autoImplicit false

/-! # Big-endian integers

Unsigned integers of a fixed number of bytes, most significant byte first. `put k n` keeps the low
`k` bytes of `n`, as a cast to the narrower type does.
-/

namespace BigEndian

/-- The low `k` bytes of `n`. -/
def put : Nat → Nat → List UInt8
  | 0, _ => []
  | k + 1, n => put k (n / 256) ++ [UInt8.ofNat n]

def get (bytes : List UInt8) : Nat := bytes.foldl (fun acc b => acc * 256 + b.toNat) 0

@[simp] theorem length_put (k n : Nat) : (put k n).length = k := by
  induction k generalizing n with
  | zero => rfl
  | succ k ih => rw [put, List.length_append, ih, List.length_singleton]

theorem get_concat (bytes : List UInt8) (b : UInt8) :
    get (bytes ++ [b]) = get bytes * 256 + b.toNat := by
  unfold get
  rw [List.foldl_append]
  rfl

theorem get_put (k n : Nat) : get (put k n) = n % 256 ^ k := by
  induction k generalizing n with
  | zero => rw [Nat.pow_zero, Nat.mod_one]; rfl
  | succ k ih =>
      have hbyte : (UInt8.ofNat n).toNat = n % 256 := UInt8.toNat_ofNat
      rw [put, get_concat, ih, hbyte, Nat.pow_succ, Nat.mul_comm (256 ^ k), Nat.mod_mul]
      omega

theorem get_put_of_lt {k n : Nat} (h : n < 256 ^ k) : get (put k n) = n := by
  rw [get_put, Nat.mod_eq_of_lt h]

theorem get_lt (bytes : List UInt8) : get bytes < 256 ^ bytes.length := by
  induction bytes using List.reverseRecOn with
  | nil => exact Nat.one_pos
  | append_singleton bytes b ih =>
      have hb : b.toNat < 256 := b.toNat_lt
      rw [get_concat, List.length_append, List.length_singleton, Nat.pow_succ]
      omega

/-- An integer is written in one way. -/
theorem put_get (bytes : List UInt8) : put bytes.length (get bytes) = bytes := by
  induction bytes using List.reverseRecOn with
  | nil => rfl
  | append_singleton bytes b ih =>
      have hb : b.toNat < 256 := b.toNat_lt
      have hhigh : (get bytes * 256 + b.toNat) / 256 = get bytes := by omega
      have hlow : UInt8.ofNat (get bytes * 256 + b.toNat) = b := by
        have hbyte : (UInt8.ofNat (get bytes * 256 + b.toNat)).toNat =
            (get bytes * 256 + b.toNat) % 256 := UInt8.toNat_ofNat
        apply UInt8.toNat_inj.mp
        rw [hbyte]
        omega
      rw [List.length_append, List.length_singleton, get_concat, put, hhigh, ih, hlow]

/-- The bytes, the least significant first. -/
theorem reverse_put (k n : Nat) :
    (put k n).reverse = (List.range k).map fun i => UInt8.ofNat (n / 256 ^ i) := by
  induction k generalizing n with
  | zero => rfl
  | succ k ih =>
      rw [put, List.reverse_concat, ih, List.range_succ_eq_map, List.map_cons, List.map_map]
      congr 1
      · rw [Nat.pow_zero, Nat.div_one]
      · apply List.map_congr_left
        intro i _
        rw [Function.comp_apply, Nat.pow_succ', Nat.div_div_eq_div_mul]

/-- The bits of a number, byte by byte. -/
theorem testBit_get_reverse (bytes : List UInt8) (i : Nat) :
    (get bytes.reverse).testBit i = (bytes.getD (i / 8) 0).toNat.testBit (i % 8) := by
  induction bytes generalizing i with
  | nil => simp [get]
  | cons b bytes ih =>
      rw [List.reverse_cons, get_concat, show 256 = 2 ^ 8 from rfl, Nat.mul_comm,
        Nat.testBit_two_pow_mul_add _ b.toNat_lt]
      by_cases hi : i < 8
      · rw [if_pos hi, Nat.div_eq_of_lt hi, Nat.mod_eq_of_lt hi, List.getD_cons_zero]
      · have hdiv : i / 8 = (i - 8) / 8 + 1 := by omega
        have hmod : i % 8 = (i - 8) % 8 := by omega
        rw [if_neg hi, ih, hdiv, hmod, List.getD_cons_succ]

end BigEndian
