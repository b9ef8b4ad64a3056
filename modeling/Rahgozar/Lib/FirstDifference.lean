import Mathlib.Tactic

set_option autoImplicit false

/-! # Sequences compared at their first difference

Two values are the same for a comparison, or one of them is above the other. Of two sequences one
is ahead from a place on if it has the value above at the first place where they are not the same.
A comparison need not be transitive; being ahead is then not transitive either, and whether it is
for three sequences is decided at the first place where they are not all the same.
-/

structure Comparison (α : Type*) where
  same : α → α → Prop
  above : α → α → Prop
  equivalence : Equivalence same
  not_same : ∀ {x y}, above x y → ¬ same x y
  asymm : ∀ {x y}, above x y → ¬ above y x
  total : ∀ {x y}, ¬ same x y → above x y ∨ above y x

namespace Comparison

variable {α : Type*} (c : Comparison α)

/-- `f` is ahead of `g` from the place `i` on. -/
def Ahead (i : Nat) (f g : Nat → α) : Prop :=
  ∃ k, i ≤ k ∧ (∀ j, i ≤ j → j < k → c.same (f j) (g j)) ∧ c.above (f k) (g k)

variable {c} {f g h : Nat → α} {i : Nat}

theorem ahead_iff : c.Ahead i f g ↔
    c.above (f i) (g i) ∨ c.same (f i) (g i) ∧ c.Ahead (i + 1) f g := by
  constructor
  · rintro ⟨k, hik, hsame, habove⟩
    rcases Nat.eq_or_lt_of_le hik with rfl | hlt
    · exact Or.inl habove
    · exact Or.inr ⟨hsame i le_rfl hlt, k, hlt, fun j hj => hsame j (by omega), habove⟩
  · rintro (habove | ⟨hsame, k, hik, hrest, habove⟩)
    · exact ⟨i, le_rfl, fun j hij hj => absurd hj (by omega), habove⟩
    · refine ⟨k, by omega, fun j hij hj => ?_, habove⟩
      rcases Nat.eq_or_lt_of_le hij with rfl | hlt
      · exact hsame
      · exact hrest j hlt hj

theorem ahead_of_not_same (hi : ¬ c.same (f i) (g i)) :
    c.Ahead i f g ↔ c.above (f i) (g i) := by
  rw [ahead_iff]
  simp [hi]

theorem ahead_of_same (hi : c.same (f i) (g i)) : c.Ahead i f g ↔ c.Ahead (i + 1) f g := by
  rw [ahead_iff]
  have hnot : ¬ c.above (f i) (g i) := fun habove => c.not_same habove hi
  simp [hi, hnot]

/-- Places where the sequences are the same may be left out. -/
theorem ahead_zero (hsame : ∀ j < i, c.same (f j) (g j)) : c.Ahead 0 f g ↔ c.Ahead i f g := by
  induction i with
  | zero => rfl
  | succ i ih =>
    rw [ih fun j hj => hsame j (by omega), ahead_of_same (hsame i (by omega))]

theorem not_ahead_self (f : Nat → α) : ¬ c.Ahead i f f := by
  rintro ⟨k, -, -, habove⟩
  exact c.not_same habove (c.equivalence.refl _)

/-- A sequence that is ahead is not behind. -/
theorem ahead_asymm (hfg : c.Ahead i f g) : ¬ c.Ahead i g f := by
  obtain ⟨k, hik, hsame, habove⟩ := hfg
  rintro ⟨k', hik', hsame', habove'⟩
  rcases Nat.lt_trichotomy k k' with hlt | rfl | hlt
  · exact c.not_same habove (c.equivalence.symm (hsame' k hik hlt))
  · exact c.asymm habove habove'
  · exact c.not_same habove' (c.equivalence.symm (hsame k' hik' hlt))

/-- A sequence that is ahead does not have the value below at the first place. -/
theorem not_above_of_ahead (hfg : c.Ahead i f g) : ¬ c.above (g i) (f i) := by
  intro habove
  rcases ahead_iff.mp hfg with habove' | ⟨hsame, -⟩
  · exact c.asymm habove habove'
  · exact c.not_same habove (c.equivalence.symm hsame)

/-- Whether being ahead is handed on is decided at the first place where the three are not the
same. -/
theorem ahead_trans_iff : (c.Ahead 0 f g → c.Ahead 0 g h → c.Ahead 0 f h) ↔
    ∀ i, (∀ j < i, c.same (f j) (g j) ∧ c.same (g j) (h j)) →
      ¬ (c.same (f i) (g i) ∧ c.same (g i) (h i)) →
      c.Ahead i f g → c.Ahead i g h → c.Ahead i f h := by
  constructor
  · intro htrans i hbefore _ hfg hgh
    have hfh : ∀ j < i, c.same (f j) (h j) :=
      fun j hj => c.equivalence.trans (hbefore j hj).1 (hbefore j hj).2
    rw [← ahead_zero hfh]
    exact htrans ((ahead_zero fun j hj => (hbefore j hj).1).mpr hfg)
      ((ahead_zero fun j hj => (hbefore j hj).2).mpr hgh)
  · intro hfirst hfg hgh
    classical
    -- `f` is ahead of `g`, so there is such a place
    have hplace : ∃ i, ¬ (c.same (f i) (g i) ∧ c.same (g i) (h i)) := by
      obtain ⟨k, -, -, habove⟩ := hfg
      exact ⟨k, fun hsame => c.not_same habove hsame.1⟩
    have hbefore : ∀ j < Nat.find hplace, c.same (f j) (g j) ∧ c.same (g j) (h j) :=
      fun j hj => not_not.mp (Nat.find_min hplace hj)
    have hfh : ∀ j < Nat.find hplace, c.same (f j) (h j) :=
      fun j hj => c.equivalence.trans (hbefore j hj).1 (hbefore j hj).2
    rw [ahead_zero hfh]
    exact hfirst _ hbefore (Nat.find_spec hplace)
      ((ahead_zero fun j hj => (hbefore j hj).1).mp hfg)
      ((ahead_zero fun j hj => (hbefore j hj).2).mp hgh)

/-- Values that are compared by a measure hand it on. -/
theorem ahead_trans_of_measure {μ : Type*} [LinearOrder μ] (m : α → μ)
    (hsame : ∀ x ∈ [f i, g i, h i], ∀ y ∈ [f i, g i, h i], c.same x y ↔ m x = m y)
    (habove : ∀ x ∈ [f i, g i, h i], ∀ y ∈ [f i, g i, h i], c.above x y ↔ m y < m x)
    (hdiffer : ¬ (c.same (f i) (g i) ∧ c.same (g i) (h i)))
    (hfg : c.Ahead i f g) (hgh : c.Ahead i g h) : c.Ahead i f h := by
  have hf : f i ∈ [f i, g i, h i] := by simp
  have hg : g i ∈ [f i, g i, h i] := by simp
  have hh : h i ∈ [f i, g i, h i] := by simp
  rw [hsame _ hf _ hg, hsame _ hg _ hh] at hdiffer
  have hle₁ : m (g i) ≤ m (f i) := by
    rw [← not_lt, ← habove _ hg _ hf]
    exact not_above_of_ahead hfg
  have hle₂ : m (h i) ≤ m (g i) := by
    rw [← not_lt, ← habove _ hh _ hg]
    exact not_above_of_ahead hgh
  have hlt : m (h i) < m (f i) := by
    refine lt_of_le_of_ne (hle₂.trans hle₁) fun heq => hdiffer ⟨?_, ?_⟩
    · exact le_antisymm (heq ▸ hle₂) hle₁
    · exact le_antisymm (heq ▸ hle₁) hle₂
  exact ahead_iff.mpr (Or.inl ((habove _ hf _ hh).mpr hlt))

/-! ## Lists that go on with one value -/

section Lists

variable (c) (rest : α)

/-- The list `l` is ahead of `l'`, both continued with `rest`. -/
def ListAhead (l l' : List α) : Prop := c.Ahead 0 (fun i => l.getD i rest) fun i => l'.getD i rest

variable {c rest} {l l' : List α}

theorem ahead_succ {f g : Nat → α} :
    c.Ahead (i + 1) f g ↔ c.Ahead i (fun j => f (j + 1)) fun j => g (j + 1) := by
  constructor
  · rintro ⟨k, hik, hsame, habove⟩
    obtain ⟨k, rfl⟩ : ∃ k', k = k' + 1 := ⟨k - 1, by omega⟩
    exact ⟨k, by omega, fun j hij hj => hsame (j + 1) (by omega) (by omega), habove⟩
  · rintro ⟨k, hik, hsame, habove⟩
    refine ⟨k + 1, by omega, fun j hij hj => ?_, habove⟩
    obtain ⟨j, rfl⟩ : ∃ j', j = j' + 1 := ⟨j - 1, by omega⟩
    exact hsame j (by omega) (by omega)

/-- A list is ahead by its first value, or by what is behind it. -/
theorem listAhead_iff : c.ListAhead rest l l' ↔
    c.above (l.headD rest) (l'.headD rest) ∨
      c.same (l.headD rest) (l'.headD rest) ∧ c.ListAhead rest l.tail l'.tail := by
  have hhead : ∀ l : List α, l.getD 0 rest = l.headD rest := fun l => by cases l <;> rfl
  have htail : ∀ l : List α, (fun j => l.getD (j + 1) rest) = fun j => l.tail.getD j rest := by
    intro l
    funext j
    cases l <;> simp
  unfold ListAhead
  rw [ahead_iff, ahead_succ, hhead, hhead, htail, htail]

theorem listAhead_cons {x y : α} :
    c.ListAhead rest (x :: l) (y :: l') ↔ c.above x y ∨ c.same x y ∧ c.ListAhead rest l l' :=
  listAhead_iff

/-- A front that the lists share decides nothing. -/
theorem listAhead_append (front : List α) :
    c.ListAhead rest (front ++ l) (front ++ l') ↔ c.ListAhead rest l l' := by
  induction front with
  | nil => rfl
  | cons x front ih =>
    have hself : ¬ c.above x x := fun habove => c.asymm habove habove
    rw [List.cons_append, List.cons_append, listAhead_cons, ih]
    simp [hself, c.equivalence.refl x]

theorem not_listAhead_self : ¬ c.ListAhead rest l l := not_ahead_self _

end Lists

end Comparison
