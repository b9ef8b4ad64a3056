import Mathlib.Tactic

set_option autoImplicit false

/-! # Checks that refuse

A check is a computation in `Except ε`. `rejectIf` refuses where a condition holds, and `checkEach`
goes through a list and stops at the first element that is refused. `Refuses` forgets the message;
it goes through the ways in which checks are put together.
-/

namespace Refusal

universe u v

variable {ε ε' : Type u} {α β : Type v}

def Refuses (x : Except ε α) : Prop := ∃ e, x = .error e

def rejectIf (condition : Bool) (message : ε) : Except ε Unit :=
  if condition then .error message else .ok ()

/-- A loop over the elements and their places that returns at the first error. -/
def checkEach (check : Nat → α → Except ε Unit) : Nat → List α → Except ε Unit
  | _, [] => .ok ()
  | i, x :: xs => do
      check i x
      checkEach check (i + 1) xs

@[simp] theorem refuses_error (e : ε) : Refuses (.error e : Except ε α) := ⟨e, rfl⟩

@[simp] theorem not_refuses_ok (a : α) : ¬Refuses (.ok a : Except ε α) := by
  rintro ⟨e, he⟩
  cases he

@[simp] theorem not_refuses_pure (a : α) : ¬Refuses (pure a : Except ε α) := not_refuses_ok a

theorem exists_ok_of_not_refuses {x : Except ε α} (h : ¬Refuses x) : ∃ a, x = .ok a := by
  cases x with
  | error e => exact absurd ⟨e, rfl⟩ h
  | ok a => exact ⟨a, rfl⟩

@[simp] theorem refuses_rejectIf {condition : Bool} {message : ε} :
    Refuses (rejectIf condition message) ↔ condition = true := by
  cases condition <;> simp [rejectIf]

theorem bind_eq_ok {x : Except ε α} {f : α → Except ε β} {b : β} :
    (x >>= f) = .ok b ↔ ∃ a, x = .ok a ∧ f a = .ok b := by
  cases x <;> simp [bind, Except.bind]

theorem map_eq_ok {x : Except ε α} {f : α → β} {b : β} :
    x.map f = .ok b ↔ ∃ a, x = .ok a ∧ f a = b := by
  cases x <;> simp [Except.map]

/-- What has given a result has not refused. -/
theorem not_refuses_of_eq_ok {x : Except ε α} {a : α} (h : x = .ok a) : ¬Refuses x := by
  rw [h]
  exact not_refuses_ok a

theorem refuses_bind {x : Except ε α} {f : α → Except ε β} :
    Refuses (x >>= f) ↔ Refuses x ∨ ∃ a, x = .ok a ∧ Refuses (f a) := by
  cases x with
  | error e => exact iff_of_true ⟨e, rfl⟩ (.inl ⟨e, rfl⟩)
  | ok a => simp [bind, Except.bind]

/-- One check after another, where the second does not ask for the first one's result. -/
@[simp] theorem refuses_seq {x : Except ε α} {y : Except ε β} :
    Refuses (x >>= fun _ => y) ↔ Refuses x ∨ Refuses y := by
  cases x with
  | error e => exact iff_of_true ⟨e, rfl⟩ (.inl ⟨e, rfl⟩)
  | ok a => simp [bind, Except.bind]

@[simp] theorem refuses_mapError {x : Except ε α} {f : ε → ε'} :
    Refuses (x.mapError f) ↔ Refuses x := by
  cases x <;> simp [Except.mapError]

@[simp] theorem refuses_map {x : Except ε α} {f : α → β} : Refuses (x.map f) ↔ Refuses x := by
  cases x <;> simp [Except.map]

@[simp] theorem refuses_fmap {x : Except ε α} {f : α → β} : Refuses (f <$> x) ↔ Refuses x :=
  refuses_map

/-- A check that is made under a condition. -/
@[simp] theorem refuses_ite {p : Prop} [Decidable p] {x : Except ε Unit} :
    Refuses (if p then x else pure ()) ↔ p ∧ Refuses x := by
  by_cases hp : p <;> simp [hp]

/-- A loop whose check refuses an element wherever it stands. -/
theorem refuses_checkEach_iff {f : Nat → α → Except ε Unit} {P : α → Prop}
    (h : ∀ i x, Refuses (f i x) ↔ P x) {i : Nat} {l : List α} :
    Refuses (checkEach f i l) ↔ ∃ x ∈ l, P x := by
  induction l generalizing i with
  | nil => simp [checkEach]
  | cons x xs ih => simp [checkEach, h, ih]

@[simp] theorem refuses_checkEach {f : α → Except ε Unit} {i : Nat} {l : List α} :
    Refuses (checkEach (fun _ => f) i l) ↔ ∃ x ∈ l, Refuses (f x) := by
  apply refuses_checkEach_iff
  intro _ x
  exact Iff.rfl

end Refusal
