import Mathlib.Tactic

set_option autoImplicit false

/-! # Decimal digits without leading zeros

`Nat.toDigits 10` and `Nat.ofDigitChars 10` go from a number to its digits and back. From digits to
the number and back, leading zeros are lost, and nothing else is.
-/

namespace Decimal

/-- No zero stands in front of other digits. -/
def Plain (digits : List Char) : Prop := digits = ['0'] ∨ digits.head? ≠ some '0'

instance (digits : List Char) : Decidable (Plain digits) :=
  inferInstanceAs (Decidable (_ ∨ _))

theorem isDigit_bounds {c : Char} (h : c.isDigit = true) : 48 ≤ c.toNat ∧ c.toNat ≤ 57 :=
  Char.isDigit_iff_toNat.mp h

theorem digitChar_sub {c : Char} (h : c.isDigit = true) : (c.toNat - '0'.toNat).digitChar = c := by
  have hbounds := isDigit_bounds h
  have hzero : '0'.toNat = 48 := rfl
  apply Char.toNat_inj.mp
  rw [Nat.toNat_digitChar_of_lt_ten (by omega)]
  omega

/-- Digits behind a number that is not zero. -/
theorem toDigits_append {digits : List Char} (hdigits : ∀ c ∈ digits, c.isDigit = true) {n : Nat}
    (hn : 0 < n) :
    Nat.toDigits 10 n ++ digits = Nat.toDigits 10 (Nat.ofDigitChars 10 digits n) := by
  induction digits generalizing n with
  | nil => rw [List.append_nil, Nat.ofDigitChars_nil]
  | cons c digits ih =>
      have hc : c.isDigit = true := hdigits c List.mem_cons_self
      have hlt : c.toNat - '0'.toNat < 10 := by
        have hbounds := isDigit_bounds hc
        have hzero : '0'.toNat = 48 := rfl
        omega
      have hone : Nat.toDigits 10 n ++ [c] = Nat.toDigits 10 (10 * n + (c.toNat - '0'.toNat)) := by
        rw [← Nat.toDigits_append_toDigits (by decide) hn hlt, Nat.toDigits_of_lt_base hlt,
          digitChar_sub hc]
      calc Nat.toDigits 10 n ++ c :: digits
          = Nat.toDigits 10 n ++ [c] ++ digits := by rw [List.append_assoc, List.singleton_append]
        _ = Nat.toDigits 10 (10 * n + (c.toNat - '0'.toNat)) ++ digits := by rw [hone]
        _ = Nat.toDigits 10 (Nat.ofDigitChars 10 digits (10 * n + (c.toNat - '0'.toNat))) :=
            ih (fun d hd => hdigits d (List.mem_cons_of_mem _ hd)) (by omega)
        _ = Nat.toDigits 10 (Nat.ofDigitChars 10 (c :: digits) n) := by rw [Nat.ofDigitChars_cons]

theorem toDigits_ofDigitChars {digits : List Char} (hdigits : ∀ c ∈ digits, c.isDigit = true)
    (hne : digits ≠ []) (hplain : Plain digits) :
    Nat.toDigits 10 (Nat.ofDigitChars 10 digits 0) = digits := by
  rcases hplain with rfl | hhead
  · rfl
  · cases digits with
    | nil => exact absurd rfl hne
    | cons c digits =>
        have hc : c.isDigit = true := hdigits c List.mem_cons_self
        have hbounds := isDigit_bounds hc
        have hzero : '0'.toNat = 48 := rfl
        have hpos : 0 < c.toNat - '0'.toNat := by
          have hne : c.toNat ≠ 48 := by
            intro heq
            apply hhead
            rw [List.head?_cons, show c = '0' from Char.toNat_inj.mp heq]
          omega
        have hlt : c.toNat - '0'.toNat < 10 := by omega
        have happ := toDigits_append (fun d hd => hdigits d (List.mem_cons_of_mem c hd)) hpos
        rw [Nat.toDigits_of_lt_base hlt, digitChar_sub hc] at happ
        rw [Nat.ofDigitChars_cons, Nat.mul_zero, Nat.zero_add, ← happ, List.singleton_append]

theorem head?_toDigits {n : Nat} (hn : 0 < n) : (Nat.toDigits 10 n).head? ≠ some '0' := by
  induction n using Nat.strongRecOn with
  | ind n ih =>
      by_cases hlt : n < 10
      · rw [Nat.toDigits_of_lt_base hlt, List.head?_cons]
        intro h
        exact absurd (Nat.digitChar_eq_zero.mp (Option.some.inj h)) (Nat.pos_iff_ne_zero.mp hn)
      · have hle : 10 ≤ n := Nat.not_lt.mp hlt
        rw [Nat.toDigits_of_base_le (by decide) hle, List.head?_append_of_ne_nil _
          Nat.toDigits_ne_nil]
        exact ih (n / 10) (Nat.div_lt_self hn (by decide)) (Nat.div_pos hle (by decide))

theorem plain_toDigits (n : Nat) : Plain (Nat.toDigits 10 n) := by
  cases n with
  | zero => exact Or.inl rfl
  | succ n => exact Or.inr (head?_toDigits (Nat.succ_pos n))

/-- Digits are those of their number when no zero stands in front. -/
theorem toDigits_ofDigitChars_iff {digits : List Char} (hdigits : ∀ c ∈ digits, c.isDigit = true)
    (hne : digits ≠ []) :
    digits = Nat.toDigits 10 (Nat.ofDigitChars 10 digits 0) ↔ Plain digits := by
  constructor
  · intro h
    rw [h]
    exact plain_toDigits _
  · intro h
    exact (toDigits_ofDigitChars hdigits hne h).symm

end Decimal
