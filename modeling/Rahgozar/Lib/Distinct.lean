import Mathlib.Tactic

set_option autoImplicit false

/-! # The first of each key

`firstOfEach key l` goes through `l` with the set of the keys it has seen, and keeps an element
whose key is new. It goes through a filter that looks at the key only, and through a renaming of
the elements.
-/

namespace Distinct

variable {α β κ : Type*} [DecidableEq κ]

def firstOfEach (key : α → κ) (l : List α) : List α := l.eraseDupsBy fun x y => key x = key y

@[simp] theorem firstOfEach_nil (key : α → κ) : firstOfEach key [] = [] := rfl

theorem firstOfEach_cons (key : α → κ) (x : α) (xs : List α) :
    firstOfEach key (x :: xs) = x :: firstOfEach key (xs.filter fun y => key y ≠ key x) := by
  simp [firstOfEach, List.eraseDupsBy_cons]

/-- **Induction rule.** The recursion goes on with the tail from which the key is taken out. -/
theorem induction_on_keys (key : α → κ) {motive : List α → Prop} (nil : motive [])
    (cons : ∀ x xs, motive (xs.filter fun y => key y ≠ key x) → motive (x :: xs)) (l : List α) :
    motive l := by
  induction h : l.length using Nat.strong_induction_on generalizing l with
  | _ n ih =>
      cases l with
      | nil => exact nil
      | cons x xs =>
          have hlt : (xs.filter fun y => key y ≠ key x).length < n := by
            rw [← h]
            exact Nat.lt_succ_of_le (List.length_filter_le _ _)
          exact cons x xs (ih _ hlt _ rfl)

/-- A filter by the key may be applied first. -/
theorem filter_firstOfEach {key : α → κ} {p : α → Bool} (hp : ∀ x y, key x = key y → p x = p y)
    (l : List α) : (firstOfEach key l).filter p = firstOfEach key (l.filter p) := by
  induction l using induction_on_keys key with
  | nil => rfl
  | cons x xs ih =>
      rw [firstOfEach_cons]
      by_cases hx : p x = true
      · rw [List.filter_cons_of_pos hx, List.filter_cons_of_pos hx, firstOfEach_cons, ih,
          List.filter_comm]
      · have hx' : p x = false := Bool.eq_false_of_not_eq_true hx
        rw [List.filter_cons_of_neg hx, List.filter_cons_of_neg hx, ih, List.filter_filter]
        congr 1
        apply List.filter_congr
        intro y hy
        by_cases hkey : key y = key x
        · simp [hp y x hkey, hx']
        · simp [hkey]

theorem mem_of_mem_firstOfEach {key : α → κ} {l : List α} {x : α} (h : x ∈ firstOfEach key l) :
    x ∈ l := by
  induction l using induction_on_keys key with
  | nil => cases h
  | cons y ys ih =>
      rw [firstOfEach_cons, List.mem_cons] at h
      rcases h with rfl | h
      · exact List.mem_cons_self
      · exact List.mem_cons_of_mem _ (List.mem_of_mem_filter (ih h))

/-- Where an element is its own key, none is lost. -/
theorem mem_firstOfEach_id [DecidableEq α] {l : List α} {x : α} :
    x ∈ firstOfEach id l ↔ x ∈ l :=
  @List.mem_eraseDups α instBEqOfDecidableEq _ x l

/-- Behind the first of each key of `l` comes what `m` has new. -/
theorem firstOfEach_append (key : α → κ) (l m : List α) :
    firstOfEach key (l ++ m) =
      firstOfEach key l ++ (firstOfEach key m).filter fun y => key y ∉ l.map key := by
  induction l using induction_on_keys key generalizing m with
  | nil => simp
  | cons x xs ih =>
      have hm : firstOfEach key (m.filter fun y => key y ≠ key x) =
          (firstOfEach key m).filter fun y => key y ≠ key x :=
        (filter_firstOfEach (fun y z hyz => by rw [hyz]) m).symm
      rw [List.cons_append, firstOfEach_cons, firstOfEach_cons, List.filter_append, ih, hm,
        List.filter_filter, List.cons_append]
      congr 2
      apply List.filter_congr
      intro y _
      by_cases hkey : key y = key x
      · simp [hkey]
      · have hmem : key y ∈ (xs.filter fun z => key z ≠ key x).map key ↔ key y ∈ xs.map key := by
          simp only [List.mem_map, List.mem_filter, decide_eq_true_eq]
          exact exists_congr fun z => and_congr_left fun hz =>
            and_iff_left fun hzx => hkey (hz.symm.trans hzx)
        simp only [hmem, List.map_cons, List.mem_cons, hkey, false_or, ne_eq,
          not_false_eq_true, decide_true, Bool.and_true]

/-- A finer key may go first. -/
theorem firstOfEach_firstOfEach {ι : Type*} [DecidableEq ι] {key : α → κ} {fine : α → ι}
    (hfine : ∀ x y, fine x = fine y → key x = key y) (l : List α) :
    firstOfEach key (firstOfEach fine l) = firstOfEach key l := by
  induction l using induction_on_keys key with
  | nil => rfl
  | cons x xs ih =>
      rw [firstOfEach_cons, firstOfEach_cons, firstOfEach_cons,
        filter_firstOfEach (fun y z hyz => by rw [hfine y z hyz]), List.filter_filter, ← ih]
      congr 3
      apply List.filter_congr
      intro y _
      by_cases hkey : key y = key x
      · simp [hkey]
      · have hne : fine y ≠ fine x := fun heq => hkey (hfine y x heq)
        simp [hkey, hne]

theorem firstOfEach_map {key : β → κ} (f : α → β) (l : List α) :
    firstOfEach key (l.map f) = (firstOfEach (fun x => key (f x)) l).map f := by
  induction l using induction_on_keys fun x => key (f x) with
  | nil => rfl
  | cons x xs ih =>
      rw [List.map_cons, firstOfEach_cons, firstOfEach_cons, List.map_cons, List.filter_map, ← ih]
      rfl

end Distinct
