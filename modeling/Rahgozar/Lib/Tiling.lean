import Mathlib.Tactic

set_option autoImplicit false

/-! # Consecutive ranges

A range is given by its first and its last place. Ranges tile an interval if each begins where the
one before it ends: the slices of a list along them, put together, are then the list again.
-/

namespace Tiling

variable {α : Type*}

/-- The number of places in a range. -/
def width (r : Nat × Nat) : Nat := r.2 + 1 - r.1

/-- The ranges begin at `start`, follow on each other, and end before `stop`. -/
def Tiles : (start : Nat) → List (Nat × Nat) → (stop : Nat) → Prop
  | start, [], stop => start = stop
  | start, r :: ranges, stop => r.1 = start ∧ r.1 ≤ r.2 ∧ Tiles (r.2 + 1) ranges stop

/-- The part of a list in a range. -/
def slice (r : Nat × Nat) (l : List α) : List α := (l.drop r.1).take (width r)

variable {start stop : Nat} {ranges : List (Nat × Nat)} {r : Nat × Nat}

theorem tiles_cons : Tiles start (r :: ranges) stop ↔
    r.1 = start ∧ r.1 ≤ r.2 ∧ Tiles (r.2 + 1) ranges stop := Iff.rfl

theorem Tiles.le (h : Tiles start ranges stop) : start ≤ stop := by
  induction ranges generalizing start with
  | nil => exact le_of_eq h
  | cons r ranges ih =>
      obtain ⟨hstart, hle, hrest⟩ := tiles_cons.mp h
      have := ih hrest
      omega

theorem Tiles.lt_of_mem (h : Tiles start ranges stop) (hr : r ∈ ranges) : r.2 < stop := by
  induction ranges generalizing start with
  | nil => cases hr
  | cons r' ranges ih =>
      obtain ⟨-, -, hrest⟩ := tiles_cons.mp h
      rcases List.mem_cons.mp hr with rfl | hr
      · exact hrest.le
      · exact ih hrest hr

theorem Tiles.sum_width (h : Tiles start ranges stop) :
    start + (ranges.map width).sum = stop := by
  induction ranges generalizing start with
  | nil => exact h
  | cons r ranges ih =>
      obtain ⟨hstart, hle, hrest⟩ := tiles_cons.mp h
      rw [List.map_cons, List.sum_cons, ← ih hrest, width]
      omega

/-! ## Pieces of a list -/

variable {l : List α}

theorem length_slice (hlt : r.2 < l.length) : (slice r l).length = width r := by
  unfold slice width
  rw [List.length_take, List.length_drop]
  omega

/-- A list is put together from its slices. -/
theorem Tiles.flatMap_slice (h : Tiles start ranges stop) (l : List α) :
    (ranges.flatMap fun r => slice r l) = (l.drop start).take (stop - start) := by
  induction ranges generalizing start with
  | nil =>
      obtain rfl : start = stop := h
      rw [Nat.sub_self, List.take_zero]
      rfl
  | cons r ranges ih =>
      obtain ⟨rfl, hle, hrest⟩ := tiles_cons.mp h
      have hstop := hrest.le
      have hsum : stop - r.1 = width r + (stop - (r.2 + 1)) := by
        unfold width
        omega
      have hdrop : l.drop (r.2 + 1) = (l.drop r.1).drop (width r) := by
        rw [List.drop_drop]
        congr 1
        unfold width
        omega
      rw [List.flatMap_cons, ih hrest, hsum, hdrop, List.take_add]
      rfl

theorem Tiles.length_flatMap {pieces : List ((Nat × Nat) × List α)}
    (h : Tiles start (pieces.map Prod.fst) stop) (hlengths : ∀ p ∈ pieces, p.2.length = width p.1) :
    start + (pieces.flatMap Prod.snd).length = stop := by
  have hsum := h.sum_width
  rw [List.map_map] at hsum
  rw [List.length_flatMap, List.map_congr_left hlengths]
  exact hsum

/-- Pieces of the right lengths make a list exactly if each is its slice. -/
theorem Tiles.flatMap_eq_iff {pieces : List ((Nat × Nat) × List α)}
    (h : Tiles start (pieces.map Prod.fst) stop)
    (hlengths : ∀ p ∈ pieces, p.2.length = width p.1) (hstop : stop ≤ l.length) :
    pieces.flatMap Prod.snd = (l.drop start).take (stop - start) ↔
      ∀ p ∈ pieces, p.2 = slice p.1 l := by
  rw [← h.flatMap_slice l, List.flatMap_map]
  induction pieces generalizing start with
  | nil => simp
  | cons p pieces ih =>
      obtain ⟨-, -, hrest⟩ := tiles_cons.mp h
      obtain ⟨hlength, hlengths⟩ := List.forall_mem_cons.mp hlengths
      have hle := hrest.le
      have hsame : p.2.length = (slice p.1 l).length := by
        rw [hlength, length_slice (by omega)]
      rw [List.flatMap_cons, List.flatMap_cons, List.forall_mem_cons, ← ih hrest hlengths]
      constructor
      · exact fun heq => List.append_inj heq hsame
      · rintro ⟨hhead, htail⟩
        rw [hhead, htail]

end Tiling
