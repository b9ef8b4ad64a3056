import Mathlib.Tactic

set_option autoImplicit false

/-! # Packing a sequence into groups

A sequence is packed from the left: an element joins the open group, or closes it and opens the
next one. Nothing is lost on the way, and what holds of one element alone and is kept when an
element joins holds of every group.
-/

namespace Packing

variable {α : Type*}

/-- The groups that have been closed, and the open one. -/
structure Packed (α : Type*) where
  closed : List (List α)
  last : List α

def Packed.groups (p : Packed α) : List (List α) := p.closed ++ [p.last]

variable (cut : List α → α → Bool)

/-- `cut g x`: the group `g` is closed before `x`. -/
def Packed.push (p : Packed α) (x : α) : Packed α :=
  if cut p.last x then ⟨p.closed ++ [p.last], [x]⟩ else ⟨p.closed, p.last ++ [x]⟩

def pack (xs : List α) : Packed α := xs.foldl (Packed.push cut) ⟨[], []⟩

variable {cut} {p : Packed α} {x : α}

theorem Packed.push_cut (h : cut p.last x = true) :
    p.push cut x = ⟨p.closed ++ [p.last], [x]⟩ := if_pos h

theorem Packed.push_join (h : cut p.last x = false) :
    p.push cut x = ⟨p.closed, p.last ++ [x]⟩ := by
  apply if_neg
  rw [h]
  exact Bool.false_ne_true

variable (cut)

@[simp] theorem pack_nil : pack cut [] = ⟨[], []⟩ := rfl

@[simp] theorem pack_concat (xs : List α) (x : α) :
    pack cut (xs ++ [x]) = (pack cut xs).push cut x := List.foldl_append

theorem Packed.flatten_push (p : Packed α) (x : α) :
    (p.push cut x).groups.flatten = p.groups.flatten ++ [x] := by
  cases h : cut p.last x with
  | true => simp [push_cut h, groups]
  | false => simp [push_join h, groups]

/-- Every element is in one group, in its turn. -/
theorem flatten_pack (xs : List α) : (pack cut xs).groups.flatten = xs := by
  induction xs using List.reverseRecOn with
  | nil => rfl
  | append_singleton xs x ih => rw [pack_concat, Packed.flatten_push, ih]

variable {cut}

theorem Packed.forall_push {P : List α → Prop} (hone : P [x])
    (hjoin : ∀ g, P g → cut g x = false → P (g ++ [x])) (h : ∀ g ∈ p.groups, P g) :
    ∀ g ∈ (p.push cut x).groups, P g := by
  intro g hg
  have hlast : P p.last := h p.last (List.mem_append_right _ List.mem_cons_self)
  have hclosed : ∀ g ∈ p.closed, P g := fun g hg => h g (List.mem_append_left _ hg)
  cases hcut : cut p.last x with
  | true =>
      rw [push_cut hcut] at hg
      rcases List.mem_append.mp hg with hold | hnew
      · exact h g hold
      · rw [List.mem_singleton.mp hnew]
        exact hone
  | false =>
      rw [push_join hcut] at hg
      rcases List.mem_append.mp hg with hold | hnew
      · exact hclosed g hold
      · rw [List.mem_singleton.mp hnew]
        exact hjoin p.last hlast hcut

/-- What one element alone keeps, and an element that joins keeps, holds of every group. -/
theorem forall_pack {P : List α → Prop} (hnil : P []) (hone : ∀ x, P [x])
    (hjoin : ∀ g x, P g → cut g x = false → P (g ++ [x])) (xs : List α) :
    ∀ g ∈ (pack cut xs).groups, P g := by
  induction xs using List.reverseRecOn with
  | nil =>
      intro g hg
      rw [List.mem_singleton.mp hg]
      exact hnil
  | append_singleton xs x ih =>
      rw [pack_concat]
      exact Packed.forall_push (hone x) (fun g hg hcut => hjoin g x hg hcut) ih

end Packing
