import Mathlib.Tactic
import Mathlib.Data.List.Sort

set_option autoImplicit false

/-! # Maps that are kept in the order of their keys

A map over a linear order is the list of its entries in the order of the keys, each key once; a key
that is put again keeps its place and gets the new value. A map that is made from a list loses the
entries whose keys come again, and is the sorted list where no key does.
-/

namespace SortedMap

variable {κ ν : Type*} [LinearOrder κ] {k : κ} {v : ν} {m l : List (κ × ν)}

/-- The entries are in the order of their keys, and each key is there once. -/
def Sorted (m : List (κ × ν)) : Prop := m.Pairwise fun e e' => e.1 < e'.1

def insert (k : κ) (v : ν) : List (κ × ν) → List (κ × ν)
  | [] => [(k, v)]
  | (j, w) :: m =>
      if k < j then (k, v) :: (j, w) :: m
      else if k = j then (k, v) :: m
      else (j, w) :: insert k v m

/-- The entries are put one after the other. -/
def ofList (l : List (κ × ν)) : List (κ × ν) := l.foldl (fun m e => insert e.1 e.2 m) []

theorem mem_of_mem_insert {e : κ × ν} (h : e ∈ insert k v m) : e = (k, v) ∨ e ∈ m := by
  induction m with
  | nil => simpa [insert] using h
  | cons a m ih =>
    obtain ⟨j, w⟩ := a
    rw [insert] at h
    split_ifs at h
    · simpa using h
    · rcases List.mem_cons.mp h with h | h
      · exact Or.inl h
      · exact Or.inr (List.mem_cons_of_mem _ h)
    · rcases List.mem_cons.mp h with h | h
      · exact Or.inr (h ▸ List.mem_cons_self)
      · exact (ih h).imp_right (List.mem_cons_of_mem _)

theorem sorted_insert (h : Sorted m) : Sorted (insert k v m) := by
  induction m with
  | nil => exact List.pairwise_singleton _ _
  | cons a m ih =>
    obtain ⟨j, w⟩ := a
    obtain ⟨hj, hm⟩ := List.pairwise_cons.mp h
    rw [insert]
    split_ifs with hlt heq
    · refine List.pairwise_cons.mpr ⟨fun e he => ?_, h⟩
      rcases List.mem_cons.mp he with rfl | he
      · exact hlt
      · exact hlt.trans (hj e he)
    · exact List.pairwise_cons.mpr ⟨fun e he => heq ▸ hj e he, hm⟩
    · refine List.pairwise_cons.mpr ⟨fun e he => ?_, ih hm⟩
      rcases mem_of_mem_insert he with rfl | he
      · exact lt_of_le_of_ne (not_lt.mp hlt) (Ne.symm heq)
      · exact hj e he

/-- A new key adds an entry. -/
theorem insert_perm (h : k ∉ m.map Prod.fst) : (insert k v m).Perm ((k, v) :: m) := by
  induction m with
  | nil => exact List.Perm.refl _
  | cons a m ih =>
    obtain ⟨j, w⟩ := a
    rw [List.map_cons, List.mem_cons, not_or] at h
    rw [insert]
    split_ifs with hlt heq
    · exact List.Perm.refl _
    · exact absurd heq h.1
    · exact ((ih h.2).cons (j, w)).trans (List.Perm.swap _ _ _)

theorem lookup_insert (j : κ) : (insert k v m).lookup j = if j = k then some v else m.lookup j := by
  induction m with
  | nil => grind [insert]
  | cons a m ih =>
    obtain ⟨i, w⟩ := a
    rw [insert]
    split_ifs with hlt heq hj hj hj
    all_goals grind

/-! ## Maps made from a list -/

theorem ofList_append_singleton (e : κ × ν) : ofList (l ++ [e]) = insert e.1 e.2 (ofList l) := by
  simp [ofList, List.foldl_append]

theorem sorted_ofList (l : List (κ × ν)) : Sorted (ofList l) := by
  induction l using List.reverseRecOn with
  | nil => exact List.Pairwise.nil
  | append_singleton l e ih =>
    rw [ofList_append_singleton]
    exact sorted_insert ih

theorem subset_ofList (l : List (κ × ν)) : ofList l ⊆ l := by
  induction l using List.reverseRecOn with
  | nil => exact List.Subset.refl _
  | append_singleton l e ih =>
    rw [ofList_append_singleton]
    intro a ha
    rcases mem_of_mem_insert ha with rfl | ha
    · exact List.mem_append_right l List.mem_cons_self
    · exact List.mem_append_left [e] (ih ha)

theorem nodup_of_sorted (h : Sorted m) : m.Nodup := by
  refine h.imp fun {e e'} hlt heq => ?_
  rw [heq] at hlt
  exact lt_irrefl _ hlt

/-- A map has no more than the list it was made from. -/
theorem subperm_ofList (l : List (κ × ν)) : (ofList l).Subperm l :=
  (nodup_of_sorted (sorted_ofList l)).subperm (subset_ofList l)

/-- A list whose keys are distinct is kept whole. -/
theorem ofList_perm (h : (l.map Prod.fst).Nodup) : (ofList l).Perm l := by
  induction l using List.reverseRecOn with
  | nil => exact List.Perm.refl _
  | append_singleton l e ih =>
    rw [List.map_append, List.nodup_append] at h
    have hperm := ih h.1
    have hnew : e.1 ∉ (ofList l).map Prod.fst := by
      rw [(hperm.map Prod.fst).mem_iff]
      intro hmem
      exact h.2.2 _ hmem e.1 (by simp) rfl
    rw [ofList_append_singleton]
    exact (insert_perm hnew).trans ((hperm.cons e).trans (List.perm_append_singleton e l).symm)

/-- What a map made of distinct keys is asked for is found in the list. -/
theorem lookup_ofList (h : (l.map Prod.fst).Nodup) (j : κ) : (ofList l).lookup j = l.lookup j := by
  induction l using List.reverseRecOn with
  | nil => rfl
  | append_singleton l e ih =>
    rw [List.map_append, List.nodup_append] at h
    rw [ofList_append_singleton, lookup_insert, List.lookup_append, ih h.1]
    by_cases hj : j = e.1
    · have hnone : l.lookup j = none := by
        rw [List.lookup_eq_none_iff]
        intro e' he'
        have hne : e'.1 ≠ e.1 := h.2.2 e'.1 (List.mem_map_of_mem he') e.1 (by simp)
        exact bne_iff_ne.mpr fun heq => hne (heq.symm.trans hj)
      obtain ⟨i, w⟩ := e
      rw [if_pos hj, hnone]
      simp [hj]
    · obtain ⟨i, w⟩ := e
      rw [if_neg hj]
      cases l.lookup j with
      | some w' => rfl
      | none => simp [List.lookup_cons, beq_eq_false_iff_ne.mpr hj]

theorem sorted_keys (h : Sorted m) : (m.map Prod.fst).Nodup :=
  List.pairwise_map.mpr (h.imp fun hlt => hlt.ne)

/-- A map that is made from a list is the list in the order of its keys. -/
theorem ofList_eq_mergeSort (h : (l.map Prod.fst).Nodup) :
    ofList l = l.mergeSort fun e e' => decide (e.1 ≤ e'.1) := by
  have htrans : ∀ a b c : κ × ν, decide (a.1 ≤ b.1) = true → decide (b.1 ≤ c.1) = true →
      decide (a.1 ≤ c.1) = true := by
    intro a b c hab hbc
    simp only [decide_eq_true_eq] at hab hbc ⊢
    exact hab.trans hbc
  have htotal : ∀ a b : κ × ν, (decide (a.1 ≤ b.1) || decide (b.1 ≤ a.1)) = true := by
    intro a b
    simp only [Bool.or_eq_true, decide_eq_true_eq]
    exact le_total _ _
  have hperm : (ofList l).Perm (l.mergeSort fun e e' => decide (e.1 ≤ e'.1)) :=
    (ofList_perm h).trans (List.mergeSort_perm _ _).symm
  refine hperm.eq_of_pairwise ?_ ((sorted_ofList l).imp fun hlt => decide_eq_true hlt.le)
    (List.pairwise_mergeSort htrans htotal l)
  intro a b ha hb hab hba
  simp only [decide_eq_true_eq] at hab hba
  have hkey : a.1 = b.1 := le_antisymm hab hba
  have hb' : b ∈ ofList l := hperm.mem_iff.mpr hb
  exact List.inj_on_of_nodup_map (sorted_keys (sorted_ofList l)) ha hb' hkey

end SortedMap
