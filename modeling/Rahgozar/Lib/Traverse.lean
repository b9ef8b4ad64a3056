import Mathlib.Tactic

set_option autoImplicit false

/-! # Loops that stop at the first failure

`mapM` over options goes through a list and gives the results, one for each element, or nothing if
one of them fails.
-/

namespace Traverse

variable {α β : Type} {f : α → Option β} {l : List α} {r : List β}

theorem mapM_eq_some : l.mapM f = some r ↔ List.Forall₂ (fun x y => f x = some y) l r := by
  induction l generalizing r with
  | nil => simp [eq_comm]
  | cons x xs ih =>
      rw [List.mapM_cons, List.forall₂_cons_left_iff]
      simp only [Option.bind_eq_bind, Option.bind_eq_some_iff, Option.pure_def, Option.some.injEq]
      constructor
      · rintro ⟨y, hy, ys, hys, rfl⟩
        exact ⟨y, ys, hy, ih.mp hys, rfl⟩
      · rintro ⟨y, ys, hy, hys, rfl⟩
        exact ⟨y, hy, ys, ih.mpr hys, rfl⟩

theorem mapM_eq_some_map {g : α → β} (h : ∀ x ∈ l, f x = some (g x)) :
    l.mapM f = some (l.map g) := by
  rw [mapM_eq_some, List.forall₂_map_right_iff]
  exact List.forall₂_same.mpr h

/-- Every element has a result. -/
theorem exists_of_mapM (h : l.mapM f = some r) {x : α} (hx : x ∈ l) : ∃ y ∈ r, f x = some y := by
  have hall := mapM_eq_some.mp h
  clear h
  induction hall with
  | nil => exact absurd hx List.not_mem_nil
  | @cons z y zs ys hfirst _ ih =>
      rcases List.mem_cons.mp hx with rfl | hx
      · exact ⟨y, List.mem_cons_self, hfirst⟩
      · obtain ⟨y', hy', hf⟩ := ih hx
        exact ⟨y', List.mem_cons_of_mem y hy', hf⟩

/-- Every result has an element. -/
theorem exists_of_mem_mapM (h : l.mapM f = some r) {y : β} (hy : y ∈ r) :
    ∃ x ∈ l, f x = some y := by
  have hall := mapM_eq_some.mp h
  clear h
  induction hall with
  | nil => exact absurd hy List.not_mem_nil
  | @cons x z xs zs hfirst _ ih =>
      rcases List.mem_cons.mp hy with rfl | hy
      · exact ⟨x, List.mem_cons_self, hfirst⟩
      · obtain ⟨x', hx', hf⟩ := ih hy
        exact ⟨x', List.mem_cons_of_mem x hx', hf⟩

theorem mapM_eq_none {x : α} (hx : x ∈ l) (h : f x = none) : l.mapM f = none := by
  cases hr : l.mapM f with
  | none => rfl
  | some r =>
      obtain ⟨y, -, hy⟩ := exists_of_mapM hr hx
      rw [h] at hy
      cases hy

/-- Elements that all have a result lose none. -/
theorem filterMap_of_mapM (h : l.mapM f = some r) : l.filterMap f = r := by
  have hall := mapM_eq_some.mp h
  clear h
  induction hall with
  | nil => rfl
  | cons hfirst _ ih => rw [List.filterMap_cons_some hfirst, ih]

end Traverse
