import Mathlib.Tactic

set_option autoImplicit false

/-! # Runs of a guarded step function

A system is a step function `step : σ → ε → Option σ`: `step s e` is the state after the
event `e`, or `none` when `e` cannot happen in `s`. A run is a list of events. The file
has the vocabulary in which whole-run statements are made (the end state of a run, "every
step of the run meets a condition", "every state of the run has a property") and the
induction rules that reduce them to one step.
-/

namespace StepRun

variable {σ ε : Type*}

/-- The state after the events `es`, if every one of them can happen in its turn. -/
def run (step : σ → ε → Option σ) : σ → List ε → Option σ
  | s, [] => some s
  | s, e :: es => (step s e).bind fun t => run step t es

/-- Every step the run takes meets the condition `C` on the state before it and the event. -/
def AllSteps (step : σ → ε → Option σ) (C : σ → ε → Prop) : σ → List ε → Prop
  | _, [] => True
  | s, e :: es => ∀ t, step s e = some t → C s e ∧ AllSteps step C t es

/-- Every state the run passes through, the first and the last included, has `P`. -/
def AllStates (step : σ → ε → Option σ) (P : σ → Prop) : σ → List ε → Prop
  | s, [] => P s
  | s, e :: es => P s ∧ ∀ t, step s e = some t → AllStates step P t es

variable {step : σ → ε → Option σ} {C : σ → ε → Prop} {P : σ → Prop}

theorem allSteps_cons_of_some {s t : σ} {e : ε} {es : List ε} (h : step s e = some t) :
    AllSteps step C s (e :: es) ↔ C s e ∧ AllSteps step C t es := by
  refine ⟨fun hall => hall t h, fun hall u hu => ?_⟩
  rw [h] at hu
  cases hu
  exact hall

/-- A condition that can be evaluated on a step can be evaluated on a run. -/
instance decidableAllSteps [∀ s e, Decidable (C s e)] :
    (s : σ) → (es : List ε) → Decidable (AllSteps step C s es)
  | _, [] => isTrue trivial
  | s, e :: es =>
      match h : step s e with
      | none => isTrue fun t ht => by rw [h] at ht; cases ht
      | some t =>
          have := decidableAllSteps t es
          decidable_of_iff _ (allSteps_cons_of_some h).symm

theorem run_cons (s : σ) (e : ε) (es : List ε) :
    run step s (e :: es) = (step s e).bind fun t => run step t es := rfl

theorem run_append (s : σ) (es fs : List ε) :
    run step s (es ++ fs) = (run step s es).bind fun t => run step t fs := by
  induction es generalizing s with
  | nil => rfl
  | cons e es ih =>
      rw [List.cons_append, run_cons, run_cons, Option.bind_assoc]
      simp only [ih]

/-- **Invariant rule.** What one step meeting `C` preserves, a run of such steps preserves. -/
theorem run_invariant (hstep : ∀ s e t, P s → C s e → step s e = some t → P t)
    {s t : σ} {es : List ε} (h0 : P s) (hC : AllSteps step C s es)
    (hrun : run step s es = some t) : P t := by
  induction es generalizing s with
  | nil =>
      cases hrun
      exact h0
  | cons e es ih =>
      rw [run_cons] at hrun
      cases hs : step s e with
      | none => simp [hs] at hrun
      | some u =>
          obtain ⟨hc, hrest⟩ := hC u hs
          exact ih (hstep s e u h0 hc hs) hrest (by simpa [hs] using hrun)

/-- **Backward rule.** If a step that misses `C`, or starts in a state without `P`, ends in a state
without `P`, then a run into `P` meets `C` in every step. -/
theorem allSteps_of_run (hstep : ∀ s e t, step s e = some t → P t → P s ∧ C s e)
    {s t : σ} {es : List ε} (hrun : run step s es = some t) (hP : P t) :
    P s ∧ AllSteps step C s es := by
  induction es generalizing s with
  | nil =>
      cases hrun
      exact ⟨hP, trivial⟩
  | cons e es ih =>
      rw [run_cons] at hrun
      cases hs : step s e with
      | none => simp [hs] at hrun
      | some u =>
          obtain ⟨hu, hrest⟩ := ih (by simpa [hs] using hrun)
          obtain ⟨hp, hc⟩ := hstep s e u hs hu
          refine ⟨hp, fun v hv => ?_⟩
          rw [hs] at hv
          cases hv
          exact ⟨hc, hrest⟩

/-- A condition that every step meets. -/
theorem allSteps_of_forall (h : ∀ s e, C s e) (s : σ) (es : List ε) : AllSteps step C s es := by
  induction es generalizing s with
  | nil => trivial
  | cons e es ih => exact fun t _ => ⟨h s e, ih t⟩

/-- Along a run with the invariant `P`, a condition that gives another under `P` gives it in every
step. -/
theorem allSteps_imp {D : σ → ε → Prop} (hstep : ∀ s e t, P s → step s e = some t → P t)
    (himp : ∀ s e, P s → C s e → D s e) {s : σ} (h0 : P s) {es : List ε}
    (h : AllSteps step C s es) : AllSteps step D s es := by
  induction es generalizing s with
  | nil => trivial
  | cons e es ih =>
      intro t ht
      obtain ⟨hc, hrest⟩ := h t ht
      exact ⟨himp s e h0 hc, ih (hstep s e t h0 ht) hrest⟩

/-- The same for an invariant that only the steps that meet the condition keep. -/
theorem allSteps_of_inv {D : σ → ε → Prop}
    (hstep : ∀ s e t, P s → C s e → step s e = some t → P t)
    (himp : ∀ s e t, P s → C s e → step s e = some t → D s e) {s : σ} (h0 : P s) {es : List ε}
    (h : AllSteps step C s es) : AllSteps step D s es := by
  induction es generalizing s with
  | nil => trivial
  | cons e es ih =>
      intro t ht
      obtain ⟨hc, hrest⟩ := h t ht
      exact ⟨himp s e t h0 hc ht, ih (hstep s e t h0 hc ht) hrest⟩

/-- Conditions that agree under the invariant are met together. -/
theorem allSteps_congr {D : σ → ε → Prop} (hstep : ∀ s e t, P s → step s e = some t → P t)
    (hiff : ∀ s e, P s → (C s e ↔ D s e)) {s : σ} (h0 : P s) (es : List ε) :
    AllSteps step C s es ↔ AllSteps step D s es :=
  ⟨allSteps_imp hstep (fun s e hp => (hiff s e hp).mp) h0,
    allSteps_imp hstep (fun s e hp => (hiff s e hp).mpr) h0⟩

/-- The condition at the end of a run. -/
theorem allSteps_last {s t u : σ} {e : ε} {es : List ε} (hC : AllSteps step C s (es ++ [e]))
    (hrun : run step s es = some t) (hlast : step t e = some u) : C t e := by
  induction es generalizing s with
  | nil =>
      cases hrun
      exact (hC u hlast).1
  | cons f es ih =>
      rw [run_cons] at hrun
      obtain ⟨v, hv, hrest⟩ := Option.bind_eq_some_iff.mp hrun
      exact ih (hC v hv).2 hrest

/-- The property at the end of a run. -/
theorem allStates_last {s t : σ} {es : List ε} (hP : AllStates step P s es)
    (hrun : run step s es = some t) : P t := by
  induction es generalizing s with
  | nil =>
      cases hrun
      exact hP
  | cons e es ih =>
      rw [run_cons] at hrun
      obtain ⟨u, hu, hrest⟩ := Option.bind_eq_some_iff.mp hrun
      exact ih (hP.2 u hu) hrest

/-- An invariant of all runs holds in every state of a run. -/
theorem allStates_of_inv {I : σ → Prop} (hstep : ∀ s e t, I s → step s e = some t → I t)
    (himp : ∀ s, I s → P s) {s : σ} (h0 : I s) (es : List ε) : AllStates step P s es := by
  induction es generalizing s with
  | nil => exact himp s h0
  | cons e es ih => exact ⟨himp s h0, fun t ht => ih (hstep s e t h0 ht)⟩

/-- So does an invariant that the steps of the run keep, as they all meet the condition. -/
theorem allStates_of_allSteps {I : σ → Prop}
    (hstep : ∀ s e t, I s → C s e → step s e = some t → I t) (himp : ∀ s, I s → P s) {s : σ}
    (h0 : I s) {es : List ε} (h : AllSteps step C s es) : AllStates step P s es := by
  induction es generalizing s with
  | nil => exact himp s h0
  | cons e es ih =>
      refine ⟨himp s h0, fun t ht => ?_⟩
      obtain ⟨hc, hrest⟩ := h t ht
      exact ih (hstep s e t h0 hc ht) hrest

/-- When a step keeps `P` exactly if it meets `C`, the states of a run all have `P` exactly
if its steps all meet `C`. -/
theorem allStates_iff_allSteps (hstep : ∀ s e t, P s → step s e = some t → (P t ↔ C s e))
    {s : σ} (h0 : P s) (es : List ε) : AllStates step P s es ↔ AllSteps step C s es := by
  induction es generalizing s with
  | nil => exact ⟨fun _ => trivial, fun _ => h0⟩
  | cons e es ih =>
      constructor
      · rintro ⟨-, h⟩ t ht
        have hP : P t := by
          cases es with
          | nil => exact h t ht
          | cons f fs => exact (h t ht).1
        exact ⟨(hstep s e t h0 ht).mp hP, (ih hP).mp (h t ht)⟩
      · intro h
        refine ⟨h0, fun t ht => ?_⟩
        obtain ⟨hc, hrest⟩ := h t ht
        exact (ih ((hstep s e t h0 ht).mpr hc)).mpr hrest

/-- The same, where what decides a step needs an invariant `I` of all runs beside `P`. -/
theorem allStates_iff_allSteps_of_inv {I : σ → Prop}
    (hinv : ∀ s e t, I s → step s e = some t → I t)
    (hstep : ∀ s e t, I s → P s → step s e = some t → (P t ↔ C s e))
    {s : σ} (hI : I s) (h0 : P s) (es : List ε) :
    AllStates step P s es ↔ AllSteps step C s es := by
  have himp : AllStates step P s es ↔ AllStates step (fun t => I t ∧ P t) s es := by
    clear h0
    induction es generalizing s with
    | nil => exact (and_iff_right hI).symm
    | cons e es ih =>
        refine and_congr (and_iff_right hI).symm (forall₂_congr fun t ht => ih (hinv s e t hI ht))
  rw [himp]
  exact allStates_iff_allSteps
    (fun s e t hp ht => (and_iff_right (hinv s e t hp.1 ht)).trans (hstep s e t hp.1 hp.2 ht))
    ⟨hI, h0⟩ es

end StepRun
