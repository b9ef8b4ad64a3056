import Mathlib.NumberTheory.LegendreSymbol.QuadraticChar.Basic
import Rahgozar.Lib.Montgomery

set_option autoImplicit false

/-! # The points of a Montgomery curve and of its twist

Over a finite field, the value of the cubic at `u` is zero, a square or neither. So a coordinate
`u` has its points on the curve or on the twist by a number that is no square, and both together
have two points for every `u`, and two points at infinity.
-/

namespace Montgomery

open WeierstrassCurve.Affine

section

variable {F : Type*} [Field F] {A d : F}

def cubic (A u : F) : F := u ^ 3 + A * u ^ 2 + u

theorem equation_mul_iff {u y : F} :
    (curve A d).Equation (d * u) y ↔ y ^ 2 = d ^ 3 * cubic A u := by
  rw [equation_iff, cubic]
  ring_nf

/-- The points, by their coordinate and a root. -/
def ofRoot (hs : Smooth A d) :
    Option (Σ u : F, {y : F // y ^ 2 = d ^ 3 * cubic A u}) → (curve A d).Point
  | none => 0
  | some ⟨u, y, h⟩ => .some (d * u) y (hs.nonsingular (equation_mul_iff.mpr h))

theorem ofRoot_injective (hs : Smooth A d) : Function.Injective (ofRoot hs) := by
  intro a b h
  match a, b with
  | none, none => rfl
  | none, some ⟨u, y, hy⟩ => exact absurd h.symm (Point.some_ne_zero _)
  | some ⟨u, y, hy⟩, none => exact absurd h (Point.some_ne_zero _)
  | some ⟨u, y, hy⟩, some ⟨v, z, hz⟩ =>
      obtain ⟨huv, hyz⟩ := Point.some.inj h
      obtain rfl : u = v := mul_left_cancel₀ hs.twist huv
      subst hyz
      rfl

theorem ofRoot_surjective (hs : Smooth A d) : Function.Surjective (ofRoot hs) := by
  intro P
  cases P with
  | zero => exact ⟨none, rfl⟩
  | some x y h =>
      obtain ⟨u, rfl⟩ : ∃ u, d * u = x := ⟨x / d, mul_div_cancel₀ x hs.twist⟩
      exact ⟨some ⟨u, y, equation_mul_iff.mp h.1⟩, rfl⟩

theorem finite_points [Finite F] (hs : Smooth A d) : Finite (curve A d).Point :=
  Finite.of_surjective _ (ofRoot_surjective hs)

end

section

variable {F : Type*} [Field F] [Fintype F] [DecidableEq F] {A d : F}

theorem card_roots (h2 : (2 : F) ≠ 0) (a : F) :
    (Nat.card {y : F // y ^ 2 = a} : ℤ) = quadraticChar F a + 1 := by
  have hchar : ringChar F ≠ 2 := by
    intro h
    apply h2
    have hcast := ringChar.Nat.cast_ringChar (R := F)
    rw [h] at hcast
    exact_mod_cast hcast
  rw [← quadraticChar_card_sqrts hchar, Nat.card_eq_fintype_card, Fintype.card_subtype]
  congr 2
  ext y
  simp

theorem quadraticChar_cube (hd : d ≠ 0) (a : F) :
    quadraticChar F (d ^ 3 * a) = quadraticChar F d * quadraticChar F a := by
  have hcube : d ^ 3 * a = d * a * d ^ 2 := by ring
  rw [hcube, map_mul, map_mul, quadraticChar_sq_one' hd, mul_one]

/-- How many points there are. -/
theorem card_points (hs : Smooth A d) :
    (Nat.card (curve A d).Point : ℤ) =
      1 + ∑ u, (quadraticChar F d * quadraticChar F (cubic A u) + 1) := by
  rw [← Nat.card_eq_of_bijective _ ⟨ofRoot_injective hs, ofRoot_surjective hs⟩, Finite.card_option,
    Nat.card_sigma, Nat.cast_add, Nat.cast_sum, Nat.cast_one, add_comm]
  congr 1
  apply Finset.sum_congr rfl
  intro u _
  rw [card_roots hs.two, quadraticChar_cube hs.twist]

/-- Every coordinate has two points in all. -/
theorem card_add_card_twist (h1 : Smooth A 1) (hd : Smooth A d) (hsq : ¬IsSquare d) :
    Nat.card (curve A 1).Point + Nat.card (curve A d).Point = 2 * Fintype.card F + 2 := by
  have hchar : quadraticChar F d = -1 := quadraticChar_neg_one_iff_not_isSquare.mpr hsq
  have hsum : (Nat.card (curve A 1).Point + Nat.card (curve A d).Point : ℤ) =
      2 * Fintype.card F + 2 := by
    rw [card_points h1, card_points hd, hchar, map_one]
    have hpair : ∀ u : F, (1 * quadraticChar F (cubic A u) + 1) +
        (-1 * quadraticChar F (cubic A u) + 1) = 2 := by
      intro u
      ring
    rw [add_add_add_comm, ← Finset.sum_add_distrib, Finset.sum_congr rfl fun u _ => hpair u,
      Finset.sum_const, Finset.card_univ, nsmul_eq_mul]
    ring
  exact_mod_cast hsum

/-- Every coordinate has a point, on the curve or on the twist. -/
theorem exists_point (hsq : ¬IsSquare d) (u : F) :
    (∃ y, (curve A 1).Equation (1 * u) y) ∨ ∃ y, (curve A d).Equation (d * u) y := by
  by_cases h : IsSquare (cubic A u)
  · obtain ⟨y, hy⟩ := h
    refine Or.inl ⟨y, equation_mul_iff.mpr ?_⟩
    rw [hy]
    ring
  · -- the product of two numbers that are no squares is a square
    have hd0 : d ≠ 0 := fun h0 => hsq (h0 ▸ IsSquare.zero)
    have hc0 : cubic A u ≠ 0 := fun h0 => h (h0 ▸ IsSquare.zero)
    have hne : d ^ 3 * cubic A u ≠ 0 := mul_ne_zero (pow_ne_zero 3 hd0) hc0
    have hchar : quadraticChar F (d ^ 3 * cubic A u) = 1 := by
      rw [quadraticChar_cube hd0, quadraticChar_neg_one_iff_not_isSquare.mpr hsq,
        quadraticChar_neg_one_iff_not_isSquare.mpr h]
      rfl
    obtain ⟨y, hy⟩ := (quadraticChar_one_iff_isSquare hne).mp hchar
    refine Or.inr ⟨y, equation_mul_iff.mpr ?_⟩
    rw [hy]
    ring

end

end Montgomery
