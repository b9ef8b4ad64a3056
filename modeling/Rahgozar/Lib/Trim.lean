import Mathlib.Data.List.DropRight

set_option autoImplicit false

/-! # Trimming both ends of a list

`trim p l` is `l` without the elements at its two ends that satisfy `p`. Two languages that differ
in what they take for white space are compared through a predicate that covers both: trimming by
the weaker predicate first changes nothing.
-/

namespace Trim

variable {α : Type*} {p q : α → Bool}

def trim (p : α → Bool) (l : List α) : List α := (l.dropWhile p).rdropWhile p

theorem trim_eq_nil_iff {l : List α} : trim p l = [] ↔ ∀ c ∈ l, p c = true := by
  rw [trim, List.rdropWhile_eq_nil_iff]
  constructor
  · intro h
    have hall : l.dropWhile p = [] := by
      by_contra hne
      have hhead := List.head_dropWhile_not p hne
      have hmem := h _ (List.head_mem hne)
      rw [hmem] at hhead
      cases hhead
    exact List.dropWhile_eq_nil_iff.mp hall
  · intro h c hc
    exact h c ((List.dropWhile_suffix p).mem hc)

theorem dropWhile_dropWhile (h : ∀ c, q c = true → p c = true) (l : List α) :
    (l.dropWhile q).dropWhile p = l.dropWhile p := by
  induction l with
  | nil => rfl
  | cons c l ih =>
      by_cases hq : q c = true
      · rw [List.dropWhile_cons_of_pos hq, List.dropWhile_cons_of_pos (h c hq), ih]
      · rw [List.dropWhile_cons_of_neg hq]

/-- What is cut off at the end does not matter to a trim that would cut it off as well. -/
theorem rdropWhile_append_of_all {l w : List α} (hw : ∀ c ∈ w, p c = true) :
    (l ++ w).rdropWhile p = l.rdropWhile p := by
  rw [List.rdropWhile, List.reverse_append, List.dropWhile_append_of_pos, List.rdropWhile]
  intro c hc
  exact hw c (List.mem_reverse.mp hc)

theorem trim_append_of_all {l w : List α} (hw : ∀ c ∈ w, p c = true) :
    trim p (l ++ w) = trim p l := by
  rw [trim, List.dropWhile_append]
  by_cases hl : l.dropWhile p = []
  · have hnil : (w.dropWhile p) = [] := List.dropWhile_eq_nil_iff.mpr hw
    simp [trim, hl, hnil]
  · have hne : (l.dropWhile p).isEmpty = false := by simpa using hl
    simp only [hne, Bool.false_eq_true, if_false]
    exact rdropWhile_append_of_all hw

/-- Trimming by a weaker predicate first changes nothing. -/
theorem trim_trim (h : ∀ c, q c = true → p c = true) (l : List α) :
    trim p (trim q l) = trim p l := by
  have hcut : trim q l ++ (l.dropWhile q).rtakeWhile q = l.dropWhile q :=
    List.rdropWhile_append_rtakeWhile
  have hend : trim p (trim q l) = trim p (l.dropWhile q) := by
    rw [← hcut, trim_append_of_all]
    intro c hc
    exact h c (List.mem_rtakeWhile_imp hc)
  rw [hend, trim, dropWhile_dropWhile h, ← trim]

theorem trim_append_left_of_all {v l : List α} (hv : ∀ c ∈ v, p c = true) :
    trim p (v ++ l) = trim p l := by
  rw [trim, List.dropWhile_append_of_pos hv, ← trim]

theorem trim_idem (l : List α) : trim p (trim p l) = trim p l := trim_trim (fun _ h => h) l

/-- What is cut off at the two ends. -/
theorem exists_append_trim_append (p : α → Bool) (l : List α) :
    ∃ v w, (∀ c ∈ v, p c = true) ∧ (∀ c ∈ w, p c = true) ∧ v ++ trim p l ++ w = l := by
  refine ⟨l.takeWhile p, (l.dropWhile p).rtakeWhile p, ?_, ?_, ?_⟩
  · intro c hc
    exact List.mem_takeWhile_imp hc
  · intro c hc
    exact List.mem_rtakeWhile_imp hc
  · rw [trim, List.append_assoc, List.rdropWhile_append_rtakeWhile, List.takeWhile_append_dropWhile]

theorem mem_of_mem_trim {l : List α} {c : α} (h : c ∈ trim p l) : c ∈ l :=
  (List.dropWhile_suffix p).mem ((List.rdropWhile_prefix p _).mem h)

theorem dropWhile_append_of_head {v s : List α} (hs : ∀ c ∈ s.head?, p c = false) :
    (v ++ s).dropWhile p = v.dropWhile p ++ s := by
  have hkeep : s.dropWhile p = s := by
    cases s with
    | nil => rfl
    | cons c s => exact List.dropWhile_cons_of_neg (by simpa using hs c rfl)
  rw [List.dropWhile_append]
  by_cases hv : (v.dropWhile p).isEmpty = true
  · rw [if_pos hv, hkeep, List.isEmpty_iff.mp hv, List.nil_append]
  · rw [if_neg hv]

theorem rdropWhile_append_of_last {s w : List α} (hs : ∀ c ∈ s.getLast?, p c = false) :
    (s ++ w).rdropWhile p = s ++ w.rdropWhile p := by
  rw [List.rdropWhile, List.reverse_append, dropWhile_append_of_head, List.reverse_append,
    List.reverse_reverse, List.rdropWhile]
  intro c hc
  rw [List.head?_reverse] at hc
  exact hs c hc

/-- Around a core whose ends stay, the two ends are trimmed by themselves. -/
theorem trim_append_append {v s w : List α} (hne : s ≠ []) (hhead : ∀ c ∈ s.head?, p c = false)
    (hlast : ∀ c ∈ s.getLast?, p c = false) :
    trim p (v ++ s ++ w) = v.dropWhile p ++ s ++ w.rdropWhile p := by
  have hhead' : ∀ c ∈ (s ++ w).head?, p c = false := by
    rw [List.head?_append_of_ne_nil _ hne]
    exact hhead
  have hlast' : ∀ c ∈ (v.dropWhile p ++ s).getLast?, p c = false := by
    rw [List.getLast?_append_of_ne_nil _ hne]
    exact hlast
  rw [trim, List.append_assoc, dropWhile_append_of_head hhead', ← List.append_assoc,
    rdropWhile_append_of_last hlast']

theorem head?_trim (l : List α) : ∀ c ∈ (trim p l).head?, p c = false := by
  intro c hc
  have hne : trim p l ≠ [] := by
    intro hnil
    rw [hnil] at hc
    cases hc
  have hbegin : trim p l <+: l.dropWhile p := List.rdropWhile_prefix p _
  have hhead := hbegin.head hne
  rw [List.head?_eq_some_head hne, hhead] at hc
  rw [← Option.some.inj hc]
  exact List.head_dropWhile_not p _

theorem getLast?_trim (l : List α) : ∀ c ∈ (trim p l).getLast?, p c = false := by
  intro c hc
  have hne : trim p l ≠ [] := by
    intro hnil
    rw [hnil] at hc
    cases hc
  have hlast := List.rdropWhile_last_not p (l.dropWhile p) hne
  rw [List.getLast?_eq_some_getLast hne] at hc
  rw [← Option.some.inj hc]
  exact (Bool.not_eq_true _).mp hlast

theorem trim_eq_self {l : List α} (h : ∀ c ∈ l, p c = false) : trim p l = l := by
  by_cases hnil : l = []
  · rw [hnil]
    rfl
  · have hends := trim_append_append (v := []) (w := []) hnil
      (fun c hc => h c (List.mem_of_mem_head? hc)) (fun c hc => h c (List.mem_of_mem_getLast? hc))
    simpa using hends

/-- A trim by `q` first does not matter where nothing that `p` leaves is cut off by `q`. -/
theorem trim_trim_of_mem {l : List α} (h : ∀ c ∈ trim p l, q c = false) :
    trim p (trim q l) = trim p l := by
  by_cases hnil : trim p l = []
  · rw [hnil, trim_eq_nil_iff]
    intro c hc
    exact trim_eq_nil_iff.mp hnil c (mem_of_mem_trim hc)
  · obtain ⟨v, w, hv, hw, hl⟩ := exists_append_trim_append p l
    have hq : trim q l = v.dropWhile q ++ trim p l ++ w.rdropWhile q := by
      conv_lhs => rw [← hl]
      apply trim_append_append hnil
      · intro c hc
        exact h c (List.mem_of_mem_head? hc)
      · intro c hc
        exact h c (List.mem_of_mem_getLast? hc)
    rw [hq, trim_append_of_all, trim_append_left_of_all, trim_idem]
    · intro c hc
      exact hv c ((List.dropWhile_suffix q).mem hc)
    · intro c hc
      exact hw c ((List.rdropWhile_prefix q _).mem hc)

/-- What a text is cut at is no white space, so it may be trimmed before as well. -/
theorem trim_takeWhile_trim (h : ∀ c, p c = true → q c = true) (l : List α) :
    trim p ((trim p l).takeWhile q) = trim p (l.takeWhile q) := by
  obtain ⟨v, w, hv, hw, hl⟩ := exists_append_trim_append p l
  have hv' : ∀ c ∈ v, q c = true := fun c hc => h c (hv c hc)
  conv_rhs => rw [← hl, List.append_assoc, List.takeWhile_append_of_pos hv']
  rw [trim_append_left_of_all hv, List.takeWhile_append]
  by_cases hall : ((trim p l).takeWhile q).length = (trim p l).length
  · have hs : (trim p l).takeWhile q = trim p l :=
      (List.takeWhile_prefix q).eq_of_length hall
    rw [if_pos hall, hs, trim_append_of_all]
    intro c hc
    exact hw c ((List.takeWhile_prefix q).mem hc)
  · rw [if_neg hall]

end Trim
