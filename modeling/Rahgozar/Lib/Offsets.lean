import Mathlib.Tactic

set_option autoImplicit false

/-! # Reading at an offset

A parser that keeps an offset into its input indexes and slices the input at that offset. An index
or a slice that is not inside the input has no value here; so a parser that is written with these
reads has a value exactly if it never reads past the end. The file has the rules by which a read
behind a known front is a read of the rest.
-/

namespace Offset

variable {α : Type*}

/-- The symbols from `start` on, before `stop`. -/
def slice (xs : List α) (start stop : Nat) : Option (List α) :=
  if start ≤ stop ∧ stop ≤ xs.length then some ((xs.take stop).drop start) else none

section

variable {xs : List α} {i j : Nat}

theorem slice_of_le (h : i ≤ j) (hj : j ≤ xs.length) : slice xs i j = some ((xs.take j).drop i) :=
  if_pos ⟨h, hj⟩

/-- A slice behind the front. -/
theorem slice_append_right (front xs : List α) (i j : Nat) :
    slice (front ++ xs) (front.length + i) (front.length + j) = slice xs i j := by
  have htake : (front ++ xs).take (front.length + j) = front ++ xs.take j := by
    rw [List.take_append, List.take_of_length_le (Nat.le_add_right _ _), Nat.add_sub_cancel_left]
  have hdrop : (front ++ xs.take j).drop (front.length + i) = (xs.take j).drop i := by
    rw [← List.drop_drop, List.drop_left]
  unfold slice
  rw [htake, hdrop]
  simp only [List.length_append, Nat.add_le_add_iff_left]

/-- A slice from the first symbol on. -/
theorem slice_zero (h : j ≤ xs.length) : slice xs 0 j = some (xs.take j) := by
  rw [slice_of_le (Nat.zero_le j) h, List.drop_zero]

theorem slice_left (xs rest : List α) : slice (xs ++ rest) 0 xs.length = some xs := by
  rw [slice_zero (by simp), List.take_left]

/-- An index behind the front. -/
theorem getElem?_append_add (front xs : List α) (i : Nat) :
    (front ++ xs)[front.length + i]? = xs[i]? := by
  rw [List.getElem?_append_right (Nat.le_add_right _ _), Nat.add_sub_cancel_left]

/-- An index inside the input has a value. -/
theorem exists_getElem? (h : i < xs.length) : ∃ x, xs[i]? = some x :=
  ⟨xs[i], List.getElem?_eq_getElem h⟩

end

end Offset
