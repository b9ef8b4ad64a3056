import Rahgozar.Lib.BigEndian

set_option autoImplicit false

/-! # Reading from a cursor

A cursor is what is left of a byte string. A read takes bytes off its front, and fails if it would
go past the end. Each read has two rules: what it gives on bytes that were put there, and what the
cursor was when it succeeded.
-/

namespace Cursor

variable {α : Type*}

/-- The first `n` symbols, and what is behind them. -/
def split (n : Nat) (xs : List α) : Option (List α × List α) :=
  if n ≤ xs.length then some (xs.take n, xs.drop n) else none

/-- One symbol. -/
def next : List α → Option (α × List α)
  | [] => none
  | x :: xs => some (x, xs)

/-- A big-endian integer of `k` bytes. -/
def getUint (k : Nat) (bytes : List UInt8) : Option (Nat × List UInt8) :=
  (split k bytes).map fun p => (BigEndian.get p.1, p.2)

section
variable {n : Nat} {x : α} {xs ys zs : List α}

theorem split_of_le (h : n ≤ xs.length) : split n xs = some (xs.take n, xs.drop n) := if_pos h

@[simp] theorem split_append (xs ys : List α) : split xs.length (xs ++ ys) = some (xs, ys) := by
  rw [split_of_le (by simp), List.take_left, List.drop_left]

theorem split_eq_some (h : split n xs = some (ys, zs)) : ys.length = n ∧ xs = ys ++ zs := by
  by_cases hle : n ≤ xs.length
  · rw [split_of_le hle] at h
    cases h
    exact ⟨List.length_take_of_le hle, (List.take_append_drop n xs).symm⟩
  · rw [split, if_neg hle] at h
    cases h

@[simp] theorem next_cons (x : α) (xs : List α) : next (x :: xs) = some (x, xs) := rfl

theorem next_eq_some (h : next xs = some (x, ys)) : xs = x :: ys := by
  cases xs with
  | nil => cases h
  | cons a as =>
      cases h
      rfl

end

section
variable {k n : Nat} {bytes rest : List UInt8}

theorem getUint_of_le (h : k ≤ bytes.length) :
    getUint k bytes = some (BigEndian.get (bytes.take k), bytes.drop k) := by
  rw [getUint, split_of_le h]
  rfl

theorem getUint_put (h : n < 256 ^ k) (rest : List UInt8) :
    getUint k (BigEndian.put k n ++ rest) = some (n, rest) := by
  have hlen : (BigEndian.put k n).length = k := BigEndian.length_put k n
  have hsplit : split k (BigEndian.put k n ++ rest) = some (BigEndian.put k n, rest) := by
    have happ := split_append (BigEndian.put k n) rest
    rwa [hlen] at happ
  rw [getUint, hsplit, Option.map_some, BigEndian.get_put_of_lt h]

theorem getUint_eq_some (h : getUint k bytes = some (n, rest)) :
    n < 256 ^ k ∧ bytes = BigEndian.put k n ++ rest := by
  obtain ⟨⟨ys, zs⟩, hsplit, heq⟩ := Option.map_eq_some_iff.mp h
  cases heq
  obtain ⟨hlen, happ⟩ := split_eq_some hsplit
  subst hlen
  exact ⟨BigEndian.get_lt ys, by rw [BigEndian.put_get, happ]⟩

end

end Cursor
