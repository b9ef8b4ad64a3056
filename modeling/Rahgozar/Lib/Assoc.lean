import Mathlib.Tactic

set_option autoImplicit false

/-! # Association lists

An object that is written out key by key is a list of keys with optional values, of which those are
`present` that have one; `splice` adds the entries of another object whose keys are still free.
Each operation comes with what `lookup` finds afterwards.
-/

namespace Assoc

variable {κ ν : Type*} [DecidableEq κ] {k : κ}

/-- The entries that have a value. -/
def present (l : List (κ × Option ν)) : List (κ × ν) := l.filterMap fun e => e.2.map (e.1, ·)

/-- The entries of `extra` whose keys `l` does not have come after those of `l`. -/
def splice (l extra : List (κ × ν)) : List (κ × ν) :=
  l ++ extra.filter fun e => (l.lookup e.1).isNone

theorem lookup_filter_key (p : κ → Bool) (l : List (κ × ν)) :
    (l.filter fun e => p e.1).lookup k = if p k then l.lookup k else none := by
  induction l with
  | nil => simp
  | cons e l ih =>
      obtain ⟨j, v⟩ := e
      by_cases hkey : k = j
      · subst hkey
        by_cases hp : p k = true
        · simp [hp]
        · simp [hp, ih]
      · have hbeq : (k == j) = false := beq_eq_false_iff_ne.mpr hkey
        by_cases hp : p j = true
        · simp [hp, List.lookup_cons, hbeq, ih]
        · simp [hp, List.lookup_cons, hbeq, ih]

theorem lookup_present {l : List (κ × Option ν)} (hl : (l.map Prod.fst).Nodup) :
    (present l).lookup k = (l.lookup k).join := by
  induction l with
  | nil => rfl
  | cons e l ih =>
      obtain ⟨j, v⟩ := e
      rw [List.map_cons, List.nodup_cons] at hl
      have hrest := ih hl.2
      cases v with
      | none =>
          have hskip : present ((j, none) :: l) = present l := rfl
          rw [hskip, hrest, List.lookup_cons]
          by_cases hkey : k = j
          · subst hkey
            have hnone : l.lookup k = none := by
              rw [List.lookup_eq_none_iff]
              intro e he
              rw [bne_iff_ne]
              rintro rfl
              exact hl.1 (List.mem_map.mpr ⟨e, he, rfl⟩)
            rw [hnone, beq_self_eq_true]
            rfl
          · rw [beq_eq_false_iff_ne.mpr hkey]
      | some v =>
          have hput : present ((j, some v) :: l) = (j, v) :: present l := rfl
          rw [hput, List.lookup_cons, List.lookup_cons, hrest]
          by_cases hkey : k = j
          · rw [hkey, beq_self_eq_true]
            rfl
          · rw [beq_eq_false_iff_ne.mpr hkey]

omit [DecidableEq κ] in
theorem filter_present (p : κ → Bool) (l : List (κ × Option ν)) :
    (present l).filter (fun e => p e.1) = present (l.filter fun e => p e.1) := by
  induction l with
  | nil => rfl
  | cons e l ih =>
      obtain ⟨j, v⟩ := e
      unfold present at ih ⊢
      cases v with
      | none => by_cases hp : p j = true <;> simp [hp, ih]
      | some v => by_cases hp : p j = true <;> simp [hp, ih]

theorem lookup_splice (l extra : List (κ × ν)) :
    (splice l extra).lookup k = (l.lookup k).or (extra.lookup k) := by
  rw [splice, List.lookup_append, lookup_filter_key fun j => (l.lookup j).isNone]
  cases l.lookup k <;> simp

/-- An entry that is free stays an entry. -/
theorem splice_of_free {l extra : List (κ × ν)} (h : ∀ e ∈ extra, l.lookup e.1 = none) :
    splice l extra = l ++ extra := by
  rw [splice, List.filter_eq_self.mpr]
  intro e he
  rw [h e he]
  rfl

end Assoc
