import Mathlib.Data.List.AList
import Mathlib.Data.Finset.Card
import Mathlib.Tactic

set_option autoImplicit false

/-! # Finite maps

Two maps with the operations imperative code uses on them. A hash map is Mathlib's `AList`;
the file adds the total weight of its values, which a cache keeps beside the map as a counter.
An ordered map with natural-number keys is a strictly sorted association list, whose first
entry is the one with the least key.
-/

/-! ## Total weight of a hash map -/

namespace AList

variable {κ ν : Type*} [DecidableEq κ] {f : ν → Nat} {k : κ} {v : ν}

/-- The sum of `f` over the values of the map. -/
def weight (f : ν → Nat) (m : AList fun _ : κ => ν) : Nat := (m.entries.map fun e => f e.2).sum

theorem weight_insert (m : AList fun _ : κ => ν) :
    weight f (m.insert k v) = f v + weight f (m.erase k) := rfl

theorem erase_of_notMem {m : AList fun _ : κ => ν} (h : k ∉ m) : m.erase k = m :=
  AList.ext (List.kerase_of_notMem_keys h)

theorem weight_erase {m : AList fun _ : κ => ν} (h : m.lookup k = some v) :
    weight f m = f v + weight f (m.erase k) := by
  obtain ⟨entries, hnodup⟩ := m
  replace h : List.dlookup k entries = some v := h
  change (entries.map _).sum = f v + ((List.kerase k entries).map _).sum
  clear hnodup
  induction entries with
  | nil => cases h
  | cons e l ih =>
      obtain ⟨j, w⟩ := e
      by_cases hj : k = j
      · subst hj
        rw [List.dlookup_cons_eq] at h
        cases h
        simp [List.kerase]
      · rw [List.dlookup_cons_ne _ _ hj] at h
        have hk : List.kerase k (⟨j, w⟩ :: l) = ⟨j, w⟩ :: List.kerase k l := by
          simp [List.kerase, hj]
        rw [hk, List.map_cons, List.sum_cons, List.map_cons, List.sum_cons, ih h]
        omega

theorem lookup_erase_eq_some {m : AList fun _ : κ => ν} {j : κ} :
    (m.erase j).lookup k = some v ↔ k ≠ j ∧ m.lookup k = some v := by
  by_cases hk : k = j
  · subst hk
    simp
  · simp [hk, lookup_erase_ne hk]

theorem length_insert_of_notMem {m : AList fun _ : κ => ν} (h : k ∉ m) :
    (m.insert k v).entries.length = m.entries.length + 1 := by
  rw [entries_insert_of_notMem h, List.length_cons]

theorem length_erase_le (m : AList fun _ : κ => ν) :
    (m.erase k).entries.length ≤ m.entries.length :=
  (List.kerase_sublist k m.entries).length_le

/-- `HashMap::retain`: the entries whose value passes `p`. -/
def retain (p : ν → Bool) (m : AList fun _ : κ => ν) : AList fun _ : κ => ν :=
  ⟨m.entries.filter fun e => p e.2, m.nodupKeys.sublist List.filter_sublist⟩

omit [DecidableEq κ] in
/-- Entries without weight may be dropped. -/
theorem weight_retain {p : ν → Bool} (h : ∀ v, p v = false → f v = 0)
    (m : AList fun _ : κ => ν) : weight f (m.retain p) = weight f m := by
  obtain ⟨l, hl⟩ := m
  show ((l.filter fun e => p e.2).map fun e => f e.2).sum = (l.map fun e => f e.2).sum
  clear hl
  induction l with
  | nil => rfl
  | cons e l ih =>
      rw [List.filter_cons, List.map_cons, List.sum_cons]
      by_cases hp : p e.2 = true
      · rw [if_pos hp, List.map_cons, List.sum_cons, ih]
      · rw [if_neg hp, ih, h _ (Bool.eq_false_of_not_eq_true hp), Nat.zero_add]

/-- `values_mut` with an assignment: every value is replaced by its image. -/
def mapVals (g : ν → ν) (m : AList fun _ : κ => ν) : AList fun _ : κ => ν :=
  ⟨m.entries.map fun e => ⟨e.1, g e.2⟩, by
    have hkeys : (m.entries.map fun e => (⟨e.1, g e.2⟩ : Sigma fun _ : κ => ν)).keys =
        m.entries.keys := by
      simp [List.keys, List.map_map, Function.comp_def]
    exact (congrArg List.Nodup hkeys).mpr m.nodupKeys⟩

omit [DecidableEq κ] in
theorem weight_mapVals {g : ν → ν} (m : AList fun _ : κ => ν) :
    weight f (m.mapVals g) = weight (fun v => f (g v)) m := by
  simp [weight, mapVals, List.map_map, Function.comp_def]

theorem lookup_mapVals {g : ν → ν} (m : AList fun _ : κ => ν) :
    (m.mapVals g).lookup k = (m.lookup k).map g := by
  obtain ⟨l, hl⟩ := m
  show List.dlookup k (l.map fun e => (⟨e.1, g e.2⟩ : Sigma fun _ : κ => ν)) =
    (List.dlookup k l).map g
  clear hl
  induction l with
  | nil => rfl
  | cons e l ih =>
      obtain ⟨j, w⟩ := e
      by_cases hj : k = j
      · subst hj
        rw [List.map_cons, List.dlookup_cons_eq, List.dlookup_cons_eq, Option.map_some]
      · rw [List.map_cons, List.dlookup_cons_ne _ _ hj, List.dlookup_cons_ne _ _ hj, ih]

omit [DecidableEq κ] in
theorem weight_sub_add {g : ν → Nat} (h : ∀ v, g v ≤ f v) (m : AList fun _ : κ => ν) :
    weight (fun v => f v - g v) m + weight g m = weight f m := by
  have hsum := List.sum_map_add (f := fun e : Sigma fun _ : κ => ν => f e.2 - g e.2)
    (g := fun e => g e.2) (l := m.entries)
  rw [weight, weight, weight, ← hsum]
  simp [Nat.sub_add_cancel (h _)]

theorem erase_insert_self (m : AList fun _ : κ => ν) : (m.insert k v).erase k = m.erase k := by
  apply AList.ext
  show List.kerase k (⟨k, v⟩ :: List.kerase k m.entries) = List.kerase k m.entries
  simp [List.kerase]

theorem lookup_retain_eq_some {p : ν → Bool} {m : AList fun _ : κ => ν} :
    (m.retain p).lookup k = some v ↔ m.lookup k = some v ∧ p v = true := by
  have hmem := List.mem_dlookup_iff (m.retain p).nodupKeys (a := k) (b := v)
  have hmem' := List.mem_dlookup_iff m.nodupKeys (a := k) (b := v)
  rw [Option.mem_def] at hmem hmem'
  change List.dlookup k (m.retain p).entries = some v ↔ List.dlookup k m.entries = some v ∧ _
  rw [hmem, hmem']
  exact List.mem_filter

end AList

/-! ## Ordered maps -/

/-- An ordered map from natural numbers. -/
@[ext] structure BTreeMap (ν : Type*) where
  toList : List (Nat × ν)
  sorted : toList.Pairwise fun a b => a.1 < b.1

namespace BTreeMap

variable {ν : Type*}

def empty : BTreeMap ν := ⟨[], List.Pairwise.nil⟩

/-- The value at the key `k` of an association list. -/
def getList (k : Nat) : List (Nat × ν) → Option ν
  | [] => none
  | (j, w) :: l => if j = k then some w else getList k l

def get (m : BTreeMap ν) (k : Nat) : Option ν := getList k m.toList

def insertList (k : Nat) (v : ν) : List (Nat × ν) → List (Nat × ν)
  | [] => [(k, v)]
  | (j, w) :: l =>
      if k < j then (k, v) :: (j, w) :: l
      else if k = j then (k, v) :: l
      else (j, w) :: insertList k v l

theorem mem_insertList {k : Nat} {v : ν} {l : List (Nat × ν)} {e : Nat × ν}
    (h : e ∈ insertList k v l) : e = (k, v) ∨ e ∈ l := by
  induction l with
  | nil => simpa [insertList] using h
  | cons a l ih =>
      obtain ⟨j, w⟩ := a
      simp only [insertList] at h
      split_ifs at h
      · simpa using h
      · rcases List.mem_cons.mp h with h | h
        · exact .inl h
        · exact .inr (List.mem_cons_of_mem _ h)
      · rcases List.mem_cons.mp h with h | h
        · exact .inr (h ▸ List.mem_cons_self)
        · exact (ih h).imp_right (List.mem_cons_of_mem _)

theorem insertList_sorted (k : Nat) (v : ν) {l : List (Nat × ν)}
    (h : l.Pairwise fun a b => a.1 < b.1) :
    (insertList k v l).Pairwise fun a b => a.1 < b.1 := by
  induction l with
  | nil => exact List.pairwise_singleton _ _
  | cons a l ih =>
      obtain ⟨j, w⟩ := a
      obtain ⟨hj, hl⟩ := List.pairwise_cons.mp h
      simp only [insertList]
      split_ifs with hlt heq
      · refine List.pairwise_cons.mpr ⟨fun e he => ?_, h⟩
        rcases List.mem_cons.mp he with rfl | he
        · exact hlt
        · exact hlt.trans (hj e he)
      · exact List.pairwise_cons.mpr ⟨fun e he => heq ▸ hj e he, hl⟩
      · refine List.pairwise_cons.mpr ⟨fun e he => ?_, ih hl⟩
        rcases mem_insertList he with rfl | he
        · exact lt_of_le_of_ne (Nat.le_of_not_lt hlt) (Ne.symm heq)
        · exact hj e he

def insert (m : BTreeMap ν) (k : Nat) (v : ν) : BTreeMap ν :=
  ⟨insertList k v m.toList, insertList_sorted k v m.sorted⟩

/-- The entry with the least key. -/
def firstEntry (m : BTreeMap ν) : Option (Nat × ν) := m.toList.head?

/-- The map without its first entry. -/
def popFirst (m : BTreeMap ν) : BTreeMap ν := ⟨m.toList.tail, m.sorted.tail⟩

def len (m : BTreeMap ν) : Nat := m.toList.length

def values (m : BTreeMap ν) : List ν := m.toList.map Prod.snd

@[simp] theorem get_empty (k : Nat) : (empty : BTreeMap ν).get k = none := rfl

theorem getList_insertList (j k : Nat) (v : ν) (l : List (Nat × ν)) :
    getList j (insertList k v l) = if j = k then some v else getList j l := by
  induction l with
  | nil => simp [insertList, getList, eq_comm]
  | cons a l ih =>
      obtain ⟨i, w⟩ := a
      simp only [insertList]
      split_ifs with hlt heq hjk
      all_goals simp only [getList]
      all_goals grind

@[simp] theorem get_insert (m : BTreeMap ν) (j k : Nat) (v : ν) :
    (m.insert k v).get j = if j = k then some v else m.get j :=
  getList_insertList j k v m.toList

theorem getList_eq_some {k : Nat} {v : ν} {l : List (Nat × ν)} (h : getList k l = some v) :
    (k, v) ∈ l := by
  induction l with
  | nil => cases h
  | cons a l ih =>
      obtain ⟨j, w⟩ := a
      simp only [getList] at h
      split_ifs at h with hj
      · cases h
        exact hj ▸ List.mem_cons_self
      · exact List.mem_cons_of_mem _ (ih h)

theorem getList_eq_none {k : Nat} {l : List (Nat × ν)} (h : ∀ e ∈ l, k < e.1) :
    getList k l = none := by
  cases hk : getList k l with
  | none => rfl
  | some v => exact absurd (h _ (getList_eq_some hk)) (lt_irrefl k)

theorem get_of_firstEntry_eq_none {m : BTreeMap ν} (h : m.firstEntry = none) (k : Nat) :
    m.get k = none := by
  obtain ⟨l, hl⟩ := m
  cases l with
  | nil => rfl
  | cons a l => cases h

theorem get_popFirst {m : BTreeMap ν} {k : Nat} {v : ν} (h : m.firstEntry = some (k, v))
    (j : Nat) : m.popFirst.get j = if j = k then none else m.get j := by
  obtain ⟨l, hl⟩ := m
  cases l with
  | nil => cases h
  | cons a l =>
      cases h
      have hlt := (List.pairwise_cons.mp hl).1
      change getList j l = if j = k then none else getList j ((k, v) :: l)
      split_ifs with hj
      · subst hj
        exact getList_eq_none hlt
      · simp only [getList, if_neg (Ne.symm hj)]

theorem get_firstEntry {m : BTreeMap ν} {k : Nat} {v : ν} (h : m.firstEntry = some (k, v)) :
    m.get k = some v := by
  obtain ⟨l, hl⟩ := m
  cases l with
  | nil => cases h
  | cons a l =>
      cases h
      exact if_pos rfl

theorem get_of_lt_firstEntry {m : BTreeMap ν} {k : Nat} {v : ν} (h : m.firstEntry = some (k, v))
    {j : Nat} (hj : j < k) : m.get j = none := by
  obtain ⟨l, hl⟩ := m
  cases l with
  | nil => cases h
  | cons a l =>
      cases h
      have hlt := (List.pairwise_cons.mp hl).1
      refine getList_eq_none fun e he => ?_
      rcases List.mem_cons.mp he with rfl | he
      · exact hj
      · exact hj.trans (hlt e he)

theorem get_of_mem {m : BTreeMap ν} {k : Nat} {v : ν} (h : (k, v) ∈ m.toList) :
    m.get k = some v := by
  obtain ⟨l, hl⟩ := m
  show getList k l = some v
  replace h : (k, v) ∈ l := h
  induction l with
  | nil => cases h
  | cons a l ih =>
      obtain ⟨j, w⟩ := a
      obtain ⟨hlt, hl'⟩ := List.pairwise_cons.mp hl
      rcases List.mem_cons.mp h with hkv | hmem
      · cases hkv
        exact if_pos rfl
      · have hjk : j ≠ k := (hlt _ hmem).ne
        rw [getList, if_neg hjk]
        exact ih hl' hmem

/-- The number of entries is the number of keys. -/
theorem len_eq_card {m : BTreeMap ν} {keys : Finset Nat} (h : ∀ j, (m.get j).isSome ↔ j ∈ keys) :
    m.len = keys.card := by
  have hnodup : (m.toList.map Prod.fst).Nodup :=
    (List.pairwise_map.mpr m.sorted).imp fun hlt => hlt.ne
  have hkeys : (m.toList.map Prod.fst).toFinset = keys := by
    ext j
    rw [List.mem_toFinset, List.mem_map, ← h j]
    constructor
    · rintro ⟨⟨k, v⟩, hmem, rfl⟩
      rw [get_of_mem hmem]
      rfl
    · intro hj
      obtain ⟨v, hv⟩ := Option.isSome_iff_exists.mp hj
      exact ⟨(j, v), getList_eq_some hv, rfl⟩
  calc m.len
    _ = (m.toList.map Prod.fst).length := (List.length_map ..).symm
    _ = (m.toList.map Prod.fst).toFinset.card := (List.toFinset_card_of_nodup hnodup).symm
    _ = keys.card := by rw [hkeys]

/-- The total size of the values, each of at most `n`. -/
theorem sum_values_le {m : BTreeMap ν} {size : ν → Nat} {n : Nat}
    (h : ∀ j v, m.get j = some v → size v ≤ n) : (m.values.map size).sum ≤ m.len * n := by
  have hle : ∀ x ∈ m.values.map size, x ≤ n := by
    intro x hx
    obtain ⟨v, hv, rfl⟩ := List.mem_map.mp hx
    obtain ⟨⟨k, w⟩, hmem, rfl⟩ := List.mem_map.mp hv
    exact h k w (get_of_mem hmem)
  have hlen : (m.values.map size).length = m.len := by
    rw [List.length_map]
    exact List.length_map ..
  calc (m.values.map size).sum
    _ ≤ (m.values.map size).length • n := List.sum_le_card_nsmul _ _ hle
    _ = m.len * n := by rw [hlen, smul_eq_mul]

end BTreeMap
