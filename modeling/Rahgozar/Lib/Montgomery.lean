import Mathlib.AlgebraicGeometry.EllipticCurve.Affine.Point
import Mathlib.Tactic
import Rahgozar.Lib.Bits

set_option autoImplicit false

/-! # The Montgomery ladder

The curve `v² = u³ + A u² + u` and its twists, as Weierstrass curves over a field: the twist by `d`
is `y² = x³ + A d x² + d² x` with `x = d u`. The ladder computes with the `u` coordinate only, as a
fraction `X / Z`, where `Z = 0` stands for the point at infinity. It doubles by a formula that is
right for all points, and adds two points whose difference it knows by a formula that is right
unless the difference is infinity or has `u = 0`.
-/

namespace Montgomery

open WeierstrassCurve.Affine Bits

variable {F : Type*} [Field F]

/-! ## The curve -/

/-- The twist by `d`. -/
def curve (A d : F) : WeierstrassCurve.Affine F := ⟨0, A * d, 0, d ^ 2, 0⟩

variable {A d : F}

theorem equation_iff {x y : F} :
    (curve A d).Equation x y ↔ y ^ 2 = x ^ 3 + A * d * x ^ 2 + d ^ 2 * x := by
  rw [WeierstrassCurve.Affine.equation_iff]
  simp [curve]

@[simp] theorem negY_eq (x y : F) : (curve A d).negY x y = -y := by
  simp [WeierstrassCurve.Affine.negY, curve]

theorem addX_eq (x₁ x₂ ℓ : F) : (curve A d).addX x₁ x₂ ℓ = ℓ ^ 2 - A * d - x₁ - x₂ := by
  simp [WeierstrassCurve.Affine.addX, curve]

/-- What makes it an elliptic curve. -/
structure Smooth (A d : F) : Prop where
  two : (2 : F) ≠ 0
  four : A ^ 2 ≠ 4
  twist : d ≠ 0

theorem Smooth.nonsingular (h : Smooth A d) {x y : F} (hxy : (curve A d).Equation x y) :
    (curve A d).Nonsingular x y := by
  apply (WeierstrassCurve.Affine.equation_iff_nonsingular_of_Δ_ne_zero ?_).mp hxy
  have hΔ : (curve A d).Δ = 2 ^ 4 * d ^ 6 * (A ^ 2 - 4) := by
    simp only [WeierstrassCurve.Δ, WeierstrassCurve.b₂, WeierstrassCurve.b₄, WeierstrassCurve.b₆,
      WeierstrassCurve.b₈, curve]
    ring
  rw [hΔ]
  exact mul_ne_zero (mul_ne_zero (pow_ne_zero 4 h.two) (pow_ne_zero 6 h.twist))
    (sub_ne_zero.mpr h.four)

/-! ## The first coordinate of a sum -/

section

variable {x y x₁ x₂ y₁ y₂ : F}

/-- The double of a point that is not its own negative. -/
theorem double_x (h2 : (2 : F) ≠ 0) (hy : y ≠ 0) (h : y ^ 2 = x ^ 3 + A * d * x ^ 2 + d ^ 2 * x) :
    (((3 * x ^ 2 + 2 * (A * d) * x + d ^ 2) / (2 * y)) ^ 2 - A * d - x - x) *
        (4 * (x ^ 3 + A * d * x ^ 2 + d ^ 2 * x)) = (x ^ 2 - d ^ 2) ^ 2 := by
  have h2y : 2 * y ≠ 0 := mul_ne_zero h2 hy
  rw [← h]
  field_simp
  linear_combination (-16 * (2 * x + A * d)) * h

/-- The sum and the difference of two points with different first coordinates. -/
theorem add_x_mul_sub_x (hx : x₁ ≠ x₂) (h₁ : y₁ ^ 2 = x₁ ^ 3 + A * d * x₁ ^ 2 + d ^ 2 * x₁)
    (h₂ : y₂ ^ 2 = x₂ ^ 3 + A * d * x₂ ^ 2 + d ^ 2 * x₂) :
    (((y₁ - y₂) / (x₁ - x₂)) ^ 2 - A * d - x₁ - x₂) *
        (((y₁ + y₂) / (x₁ - x₂)) ^ 2 - A * d - x₁ - x₂) * (x₁ - x₂) ^ 2 =
      (x₁ * x₂ - d ^ 2) ^ 2 := by
  have hne : x₁ - x₂ ≠ 0 := sub_ne_zero.mpr hx
  apply mul_right_cancel₀ (pow_ne_zero 2 hne)
  have hsub : (y₁ - y₂) / (x₁ - x₂) * (x₁ - x₂) = y₁ - y₂ := div_mul_cancel₀ _ hne
  have hadd : (y₁ + y₂) / (x₁ - x₂) * (x₁ - x₂) = y₁ + y₂ := div_mul_cancel₀ _ hne
  generalize (y₁ - y₂) / (x₁ - x₂) = m at hsub ⊢
  generalize (y₁ + y₂) / (x₁ - x₂) = n at hadd ⊢
  -- both sides by the first coordinates, with the four squares of the second ones taken out
  calc (m ^ 2 - A * d - x₁ - x₂) * (n ^ 2 - A * d - x₁ - x₂) * (x₁ - x₂) ^ 2 * (x₁ - x₂) ^ 2
    _ = ((m * (x₁ - x₂)) ^ 2 - (A * d + x₁ + x₂) * (x₁ - x₂) ^ 2) *
        ((n * (x₁ - x₂)) ^ 2 - (A * d + x₁ + x₂) * (x₁ - x₂) ^ 2) := by ring
    _ = (y₁ ^ 2 + y₂ ^ 2 - (A * d + x₁ + x₂) * (x₁ - x₂) ^ 2) ^ 2 - 4 * (y₁ ^ 2 * y₂ ^ 2) := by
      rw [hsub, hadd]
      ring
    _ = (x₁ * x₂ - d ^ 2) ^ 2 * (x₁ - x₂) ^ 2 := by
      rw [h₁, h₂]
      ring

end

/-! ## Points by their first coordinate -/

/-- A fraction that shows a first coordinate. -/
structure Fraction (R : Type*) where
  X : R
  Z : R

/-- `p` is the first coordinate of a point of the twist by `d`, divided by `d`. -/
def Shows (p : Fraction F) : (curve A d).Point → Prop
  | .zero => p.Z = 0 ∧ p.X ≠ 0
  | .some x _ _ => p.Z ≠ 0 ∧ x * p.Z = d * p.X

section

variable {R : Type*} [CommRing R]

/-- With `a24` for `(A - 2) / 4`. -/
def double (a24 : R) (p : Fraction R) : Fraction R :=
  let aa := (p.X + p.Z) ^ 2
  let bb := (p.X - p.Z) ^ 2
  let e := aa - bb
  ⟨aa * bb, e * (aa + a24 * e)⟩

/-- The sum of two points whose difference has the coordinate `u`. -/
def diffAdd (u : R) (p q : Fraction R) : Fraction R :=
  let da := (q.X - q.Z) * (p.X + p.Z)
  let cb := (q.X + q.Z) * (p.X - p.Z)
  ⟨(da + cb) ^ 2, u * (da - cb) ^ 2⟩

end

/-! ## What the two formulas show -/

section

variable {a24 u : F}

theorem shows_zero {p : Fraction F} : Shows p (0 : (curve A d).Point) ↔ p.Z = 0 ∧ p.X ≠ 0 :=
  Iff.rfl

theorem shows_some {p : Fraction F} {x y : F} {h : (curve A d).Nonsingular x y} :
    Shows p (Point.some x y h) ↔ p.Z ≠ 0 ∧ x * p.Z = d * p.X := Iff.rfl

theorem Shows.Z_eq_zero_iff {p : Fraction F} {P : (curve A d).Point} (h : Shows p P) :
    p.Z = 0 ↔ P = 0 := by
  cases P with
  | zero => exact iff_of_true h.1 rfl
  | some x y hxy => exact iff_of_false h.1 (Point.some_ne_zero hxy)

theorem Smooth.four_ne (h : Smooth A d) : (4 : F) ≠ 0 := by
  have h22 := mul_ne_zero h.two h.two
  norm_num at h22
  exact h22

theorem double_X (p : Fraction F) : (double a24 p).X = (p.X ^ 2 - p.Z ^ 2) ^ 2 := by
  simp only [double]
  ring

theorem double_Z (ha : 4 * a24 = A - 2) (p : Fraction F) :
    (double a24 p).Z = 4 * (p.X * p.Z * (p.X ^ 2 + A * p.X * p.Z + p.Z ^ 2)) := by
  simp only [double]
  linear_combination (4 * p.X ^ 2 * p.Z ^ 2) * ha

/-- The right side of the equation, in the fraction. -/
theorem cubic_eq {x X Z : F} (hx : x * Z = d * X) :
    (x ^ 3 + A * d * x ^ 2 + d ^ 2 * x) * Z ^ 4 =
      d ^ 3 * (X * Z * (X ^ 2 + A * X * Z + Z ^ 2)) := by
  calc (x ^ 3 + A * d * x ^ 2 + d ^ 2 * x) * Z ^ 4
    _ = ((x * Z) ^ 3 + A * d * (x * Z) ^ 2 * Z + d ^ 2 * (x * Z) * Z ^ 2) * Z := by ring
    _ = d ^ 3 * (X * Z * (X ^ 2 + A * X * Z + Z ^ 2)) := by
      rw [hx]
      ring

/-- A point of order two has no square in the way of its double. -/
theorem Smooth.sq_ne (hs : Smooth A d) {X Z : F} (hZ : Z ≠ 0)
    (h : X * Z * (X ^ 2 + A * X * Z + Z ^ 2) = 0) : X ^ 2 - Z ^ 2 ≠ 0 := by
  intro hsq
  have hX : X ≠ 0 := by
    intro h0
    rw [h0] at hsq
    apply hZ
    simpa using hsq
  have hquad : X ^ 2 + A * X * Z + Z ^ 2 = 0 := 
    (mul_eq_zero.mp h).resolve_left (mul_ne_zero hX hZ)
  -- twice the square is minus `A X Z`, and the product of the two squares is one
  apply hs.four
  have hXZ : X ^ 2 * Z ^ 2 ≠ 0 := mul_ne_zero (pow_ne_zero 2 hX) (pow_ne_zero 2 hZ)
  apply mul_right_cancel₀ hXZ
  linear_combination (A * X * Z - X ^ 2 - Z ^ 2) * hquad + (X ^ 2 - Z ^ 2) * hsq

theorem diffAdd_X (p q : Fraction F) :
    (diffAdd u p q).X = 4 * (p.X * q.X - p.Z * q.Z) ^ 2 := by
  simp only [diffAdd]
  ring

theorem diffAdd_Z (p q : Fraction F) :
    (diffAdd u p q).Z = 4 * (u * (p.X * q.Z - q.X * p.Z) ^ 2) := by
  simp only [diffAdd]
  ring

theorem diffAdd_comm (p q : Fraction F) : diffAdd u p q = diffAdd u q p := by
  have hX : (diffAdd u p q).X = (diffAdd u q p).X := by
    rw [diffAdd_X, diffAdd_X]
    ring
  have hZ : (diffAdd u p q).Z = (diffAdd u q p).Z := by
    rw [diffAdd_Z, diffAdd_Z]
    ring
  calc diffAdd u p q = ⟨(diffAdd u p q).X, (diffAdd u p q).Z⟩ := rfl
    _ = diffAdd u q p := by rw [hX, hZ]

/-- Points with one first coordinate. -/
theorem cross_eq (hd : d ≠ 0) {p q : Fraction F} {x : F} (hp : x * p.Z = d * p.X)
    (hq : x * q.Z = d * q.X) : p.X * q.Z - q.X * p.Z = 0 := by
  apply mul_left_cancel₀ hd
  linear_combination p.Z * hq - q.Z * hp

/-- The sum of a point with infinity, their difference being the point. -/
theorem shows_diffAdd_zero (hs : Smooth A d) (hu : u ≠ 0) {p q : Fraction F} {y : F} {h}
    (hp : Shows p (0 : (curve A d).Point))
    (hq : Shows q (Point.some (d * u) y h : (curve A d).Point)) :
    Shows (diffAdd u p q) (Point.some (d * u) y h : (curve A d).Point) := by
  obtain ⟨hpZ, hpX⟩ := shows_zero.mp hp
  obtain ⟨hqZ, hq⟩ := shows_some.mp hq
  have hqX : u * q.Z = q.X := mul_left_cancel₀ hs.twist (by linear_combination hq)
  rw [shows_some, diffAdd_X, diffAdd_Z, hpZ, ← hqX]
  constructor
  · apply mul_ne_zero hs.four_ne (mul_ne_zero hu (pow_ne_zero 2 _))
    rw [mul_zero, sub_zero]
    exact mul_ne_zero hpX hqZ
  · ring

/-- Two points that are not each other's negative, by the first coordinates of their sum and their
difference. -/
theorem shows_diffAdd_of_ne (hs : Smooth A d) (hu : u ≠ 0) {p q : Fraction F} {x₁ x₂ x : F}
    (hne : x₁ ≠ x₂) (hpZ : p.Z ≠ 0) (hqZ : q.Z ≠ 0) (hp : x₁ * p.Z = d * p.X)
    (hq : x₂ * q.Z = d * q.X)
    (h : x * (d * u) * (x₁ - x₂) ^ 2 = (x₁ * x₂ - d ^ 2) ^ 2) :
    (diffAdd u p q).Z ≠ 0 ∧ x * (diffAdd u p q).Z = d * (diffAdd u p q).X := by
  have hcross : (x₁ - x₂) * (p.Z * q.Z) = d * (p.X * q.Z - q.X * p.Z) := by
    linear_combination q.Z * hp - p.Z * hq
  have hprod : (x₁ * x₂ - d ^ 2) * (p.Z * q.Z) = d ^ 2 * (p.X * q.X - p.Z * q.Z) := by
    linear_combination x₂ * q.Z * hp + d * p.X * hq
  rw [diffAdd_X, diffAdd_Z]
  constructor
  · apply mul_ne_zero hs.four_ne (mul_ne_zero hu (pow_ne_zero 2 _))
    intro h0
    rw [h0, mul_zero] at hcross
    exact mul_ne_zero (sub_ne_zero.mpr hne) (mul_ne_zero hpZ hqZ) hcross
  · apply mul_left_cancel₀ (pow_ne_zero 3 hs.twist)
    calc d ^ 3 * (x * (4 * (u * (p.X * q.Z - q.X * p.Z) ^ 2)))
      _ = 4 * (x * (d * u)) * (d * (p.X * q.Z - q.X * p.Z)) ^ 2 := by ring
      _ = 4 * (x * (d * u) * (x₁ - x₂) ^ 2) * (p.Z * q.Z) ^ 2 := by
        rw [← hcross]
        ring
      _ = 4 * ((x₁ * x₂ - d ^ 2) * (p.Z * q.Z)) ^ 2 := by
        rw [h]
        ring
      _ = d ^ 3 * (d * (4 * (p.X * q.X - p.Z * q.Z) ^ 2)) := by
        rw [hprod]
        ring

/-- The double of a point that is not its own negative. -/
theorem shows_double_of_ne (hs : Smooth A d) (ha : 4 * a24 = A - 2) {p : Fraction F} {x x' c : F}
    (hc : c = x ^ 3 + A * d * x ^ 2 + d ^ 2 * x) (hc0 : c ≠ 0) (hZ : p.Z ≠ 0)
    (hx : x * p.Z = d * p.X) (h : x' * (4 * c) = (x ^ 2 - d ^ 2) ^ 2) :
    (double a24 p).Z ≠ 0 ∧ x' * (double a24 p).Z = d * (double a24 p).X := by
  have hcubic := cubic_eq (A := A) hx
  rw [← hc] at hcubic
  rw [double_X, double_Z ha]
  constructor
  · apply mul_ne_zero hs.four_ne
    intro h0
    rw [h0, mul_zero] at hcubic
    exact mul_ne_zero hc0 (pow_ne_zero 4 hZ) hcubic
  · apply mul_left_cancel₀ (pow_ne_zero 3 hs.twist)
    calc d ^ 3 * (x' * (4 * (p.X * p.Z * (p.X ^ 2 + A * p.X * p.Z + p.Z ^ 2))))
      _ = x' * 4 * (d ^ 3 * (p.X * p.Z * (p.X ^ 2 + A * p.X * p.Z + p.Z ^ 2))) := by ring
      _ = x' * (4 * c) * p.Z ^ 4 := by
        rw [← hcubic]
        ring
      _ = ((x * p.Z) ^ 2 - d ^ 2 * p.Z ^ 2) ^ 2 := by
        rw [h]
        ring
      _ = d ^ 3 * (d * (p.X ^ 2 - p.Z ^ 2) ^ 2) := by
        rw [hx]
        ring

/-- The sum of a point with its negative. -/
theorem shows_diffAdd_neg (hs : Smooth A d) (hu : u ≠ 0) {p q : Fraction F} {x y : F}
    {h : (curve A d).Nonsingular (d * u) y} (hqZ : q.Z ≠ 0)
    (hp : x * p.Z = d * p.X) (hq : x * q.Z = d * q.X)
    (htwo : Shows (double a24 p) (Point.some (d * u) y h)) :
    (diffAdd u p q).Z = 0 ∧ (diffAdd u p q).X ≠ 0 := by
  have hcross := cross_eq hs.twist hp hq
  obtain ⟨hZ, hX⟩ := shows_some.mp htwo
  rw [mul_assoc, mul_right_inj' hs.twist, double_X] at hX
  have hsq : p.X ^ 2 - p.Z ^ 2 ≠ 0 := by
    intro h0
    rw [h0, zero_pow two_ne_zero] at hX
    exact mul_ne_zero hu hZ hX
  rw [diffAdd_X, diffAdd_Z, hcross]
  constructor
  · ring
  · apply mul_ne_zero hs.four_ne (pow_ne_zero 2 _)
    intro h0
    apply mul_ne_zero hqZ hsq
    linear_combination p.Z * h0 + p.X * hcross

variable [DecidableEq F]

theorem Shows.double (hs : Smooth A d) (ha : 4 * a24 = A - 2) {p : Fraction F}
    {P : (curve A d).Point} (h : Shows p P) : Shows (Montgomery.double a24 p) (P + P) := by
  cases P with
  | zero =>
      obtain ⟨hZ, hX⟩ := shows_zero.mp h
      rw [← Point.zero_def, add_zero, shows_zero, double_X, double_Z ha, hZ]
      constructor
      · ring
      · exact pow_ne_zero 2 (by simpa using hX)
  | some x y hxy =>
      obtain ⟨hZ, hx⟩ := shows_some.mp h
      have heq := equation_iff.mp hxy.1
      by_cases hy : y = 0
      · have hzero : p.X * p.Z * (p.X ^ 2 + A * p.X * p.Z + p.Z ^ 2) = 0 := by
          apply (mul_eq_zero.mp ?_).resolve_left (pow_ne_zero 3 hs.twist)
          rw [← cubic_eq hx, ← heq, hy]
          ring
        rw [Point.add_self_of_Y_eq (by rw [negY_eq, hy, neg_zero]), shows_zero, double_X,
          double_Z ha, hzero]
        exact ⟨mul_zero 4, pow_ne_zero 2 (hs.sq_ne hZ hzero)⟩
      · have hyne : y ≠ (curve A d).negY x y := by
          rw [negY_eq]
          intro hneg
          exact mul_ne_zero hs.two hy (by linear_combination hneg)
        have hslope : (curve A d).slope x x y y =
            (3 * x ^ 2 + 2 * (A * d) * x + d ^ 2) / (2 * y) := by
          rw [slope_of_Y_ne rfl hyne, negY_eq]
          simp only [curve]
          ring
        rw [Point.add_self_of_Y_ne hyne, shows_some, hslope, addX_eq]
        apply shows_double_of_ne hs ha heq (pow_ne_zero 2 hy) hZ hx
        rw [heq]
        exact double_x hs.two hy heq

theorem Shows.diffAdd (hs : Smooth A d) (ha : 4 * a24 = A - 2) (hu : u ≠ 0) {p q : Fraction F}
    {y : F} {h} {P Q : (curve A d).Point} (hp : Shows p P) (hq : Shows q Q)
    (hsub : P - Q = Point.some (d * u) y h) : Shows (Montgomery.diffAdd u p q) (P + Q) := by
  cases P with
  | zero =>
      rw [← Point.zero_def, zero_sub, neg_eq_iff_eq_neg, Point.neg_some] at hsub
      rw [← Point.zero_def, zero_add]
      rw [hsub] at hq ⊢
      exact shows_diffAdd_zero hs hu hp hq
  | some x₁ y₁ h₁ =>
      cases Q with
      | zero =>
          rw [← Point.zero_def, sub_zero] at hsub
          rw [← Point.zero_def, add_zero, diffAdd_comm]
          rw [hsub] at hp ⊢
          exact shows_diffAdd_zero hs hu hq hp
      | some x₂ y₂ h₂ =>
          obtain ⟨hpZ, hpx⟩ := shows_some.mp hp
          obtain ⟨hqZ, hqx⟩ := shows_some.mp hq
          by_cases hx : x₁ = x₂
          · have hneg : Point.some x₁ y₁ h₁ = -Point.some x₂ y₂ h₂ := by
              apply (Point.X_eq_iff.mp hx).resolve_left
              intro heq
              rw [heq, sub_self] at hsub
              exact Point.some_ne_zero _ hsub.symm
            have htwo : Point.some x₁ y₁ h₁ + Point.some x₁ y₁ h₁ = Point.some (d * u) y h := by
              rw [← hsub, sub_eq_add_neg, ← hneg]
            rw [hneg, neg_add_cancel, shows_zero]
            exact shows_diffAdd_neg hs hu hqZ hpx (hx ▸ hqx) (htwo ▸ hp.double hs ha)
          · rw [sub_eq_add_neg, Point.neg_some, Point.add_of_X_ne hx, Point.some.injEq,
              slope_of_X_ne hx, addX_eq, negY_eq, sub_neg_eq_add] at hsub
            rw [Point.add_of_X_ne hx, shows_some, slope_of_X_ne hx, addX_eq]
            apply shows_diffAdd_of_ne hs hu hx hpZ hqZ hpx hqx
            rw [← hsub.1]
            exact add_x_mul_sub_x hx (equation_iff.mp h₁.1) (equation_iff.mp h₂.1)

end

/-! ## The ladder -/

section

variable {R S : Type*} [CommRing R] [CommRing S]

/-- Two neighbouring multiples of a point. -/
structure Rungs (R : Type*) where
  low : Fraction R
  high : Fraction R

def Rungs.step (a24 u : R) (r : Rungs R) : Rungs R := ⟨double a24 r.low, diffAdd u r.low r.high⟩

def Rungs.swap (b : Bool) (r : Rungs R) : Rungs R := if b then ⟨r.high, r.low⟩ else r

/-- The ladder on its way. Rungs that are the wrong way round are put right by the next step. -/
structure Climb (R : Type*) where
  rungs : Rungs R
  swapped : Bool

def Climb.start (u : R) : Climb R := ⟨⟨⟨1, 0⟩, ⟨u, 1⟩⟩, false⟩

def Climb.next (a24 u : R) (c : Climb R) (bit : Bool) : Climb R :=
  ⟨(c.rungs.swap (c.swapped ^^ bit)).step a24 u, bit⟩

def Climb.upright (c : Climb R) : Rungs R := c.rungs.swap c.swapped

/-- The multiple by a number whose bits come with the most significant first. -/
def ladder (a24 u : R) (bits : List Bool) : Fraction R :=
  (bits.foldl (Climb.next a24 u) (Climb.start u)).upright.low

theorem Climb.upright_next (a24 u : R) (c : Climb R) (bit : Bool) :
    (c.next a24 u bit).upright = ((c.upright.swap bit).step a24 u).swap bit := by
  cases bit with
  | false => simp [next, upright, Rungs.swap]
  | true =>
      cases h : c.swapped with
      | false => simp [next, upright, Rungs.swap, h]
      | true => simp [next, upright, Rungs.swap, h]

end

section

variable {a24 u y : F} [DecidableEq F]

/-- The rungs show `n` and `n + 1` times the point. -/
def At (P : (curve A d).Point) (n : ℕ) (r : Rungs F) : Prop :=
  Shows r.low (n • P) ∧ Shows r.high ((n + 1) • P)

theorem shows_nsmul {p : Fraction F} {P : (curve A d).Point} {m n k : ℕ}
    (h : Shows p (m • P + n • P)) (hk : m + n = k) : Shows p (k • P) := by
  rw [← hk, add_nsmul]
  exact h

theorem At.next (hs : Smooth A d) (ha : 4 * a24 = A - 2) (hu : u ≠ 0)
    {h : (curve A d).Nonsingular (d * u) y} {n : ℕ} {c : Climb F}
    (hc : At (Point.some (d * u) y h) n c.upright) (bit : Bool) :
    At (Point.some (d * u) y h) (2 * n + bit.toNat) (c.next a24 u bit).upright := by
  obtain ⟨hlow, hhigh⟩ := hc
  rw [Climb.upright_next]
  generalize hP : Point.some (d * u) y h = P at hlow hhigh ⊢
  cases bit with
  | false =>
      have hdiff : n • P - (n + 1) • P = -P := by
        rw [succ_nsmul]
        abel
      rw [← hP, Point.neg_some, hP] at hdiff
      constructor
      · apply shows_nsmul (hlow.double hs ha)
        rw [Bool.toNat_false]
        omega
      · apply shows_nsmul (hlow.diffAdd hs ha hu hhigh hdiff)
        rw [Bool.toNat_false]
        omega
  | true =>
      have hdiff : (n + 1) • P - n • P = P := by
        rw [succ_nsmul]
        abel
      constructor
      · apply shows_nsmul (hhigh.diffAdd hs ha hu hlow (hdiff.trans hP.symm))
        rw [Bool.toNat_true]
        omega
      · apply shows_nsmul (hhigh.double hs ha)
        rw [Bool.toNat_true]
        omega

theorem At.foldl (hs : Smooth A d) (ha : 4 * a24 = A - 2) (hu : u ≠ 0)
    {h : (curve A d).Nonsingular (d * u) y} (bits : List Bool) {n : ℕ} {c : Climb F}
    (hc : At (Point.some (d * u) y h) n c.upright) :
    At (Point.some (d * u) y h) (bits.foldl (fun n b => 2 * n + b.toNat) n)
      (bits.foldl (Climb.next a24 u) c).upright := by
  induction bits generalizing n c with
  | nil => exact hc
  | cons bit bits ih => exact ih (hc.next hs ha hu bit)

theorem At.start {h : (curve A d).Nonsingular (d * u) y} :
    At (Point.some (d * u) y h) 0 (Climb.start u).upright := by
  constructor
  · rw [zero_nsmul]
    exact ⟨rfl, one_ne_zero⟩
  · rw [zero_add, one_nsmul]
    exact ⟨one_ne_zero, mul_one _⟩

/-- **The ladder multiplies a point**, given by its first coordinate. -/
theorem ladder_shows (hs : Smooth A d) (ha : 4 * a24 = A - 2) (hu : u ≠ 0)
    (h : (curve A d).Nonsingular (d * u) y) (bits : List Bool) :
    Shows (ladder a24 u bits) (number bits • Point.some (d * u) y h) :=
  (At.start.foldl hs ha hu bits).1

/-- Whose coordinate is zero, or who is infinity, has order one or two. -/
theorem Shows.two_nsmul_eq_zero (hs : Smooth A d) (ha : 4 * a24 = A - 2) {p : Fraction F}
    {P : (curve A d).Point} (h : Shows p P) (h0 : p.X * p.Z = 0) : 2 • P = 0 := by
  rw [two_nsmul, ← (h.double hs ha).Z_eq_zero_iff, double_Z ha, h0]
  ring

end

end Montgomery
