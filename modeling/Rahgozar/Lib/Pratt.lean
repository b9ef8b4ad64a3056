import Mathlib.NumberTheory.LucasPrimality
import Rahgozar.Lib.Bits

set_option autoImplicit false

/-! # Primes with a certificate

A number `p` is prime when some `a` has the order `p - 1` modulo `p`. To see this one needs the
prime factors of `p - 1`, each of them small or with a certificate of its own.
-/

namespace Pratt

open Bits

/-- The element of order `p - 1` modulo `p`, and the prime factors of `p - 1` with multiplicity. -/
structure Step where
  p : ℕ
  a : ℕ
  factors : List ℕ

namespace Step

variable (s : Step)

def pow (n : ℕ) : ZMod s.p := power (s.a : ZMod s.p) (bits (s.p.log2 + 1) n)

theorem pow_eq {n : ℕ} (h : n ≤ s.p) : s.pow n = (s.a : ZMod s.p) ^ n :=
  power_bits _ (h.trans_lt Nat.lt_log2_self)

def Checks : Prop :=
  s.factors.prod = s.p - 1 ∧ s.pow (s.p - 1) = 1 ∧ ∀ q ∈ s.factors, s.pow ((s.p - 1) / q) ≠ 1

/-- The power as a natural number. -/
def powMod (n : ℕ) : ℕ :=
  (bits (s.p.log2 + 1) n).foldl
    (fun r b => if b then r * r % s.p * s.a % s.p else r * r % s.p) 1

theorem cast_powMod (n : ℕ) : (s.powMod n : ZMod s.p) = s.pow n := by
  have hfoldl : ∀ (bs : List Bool) (r : ℕ),
      ((bs.foldl (fun r b => if b then r * r % s.p * s.a % s.p else r * r % s.p) r : ℕ) :
        ZMod s.p) = bs.foldl (fun r b => if b then r * r * s.a else r * r) (r : ZMod s.p) := by
    intro bs
    induction bs with
    | nil => exact fun _ => rfl
    | cons b bs ih =>
        intro r
        rw [List.foldl_cons, List.foldl_cons, ih]
        cases b <;> simp
  rw [powMod, hfoldl, Nat.cast_one, pow, power]

theorem checks_iff : s.Checks ↔ s.factors.prod = s.p - 1 ∧
    s.powMod (s.p - 1) % s.p = 1 % s.p ∧
    ∀ q ∈ s.factors, s.powMod ((s.p - 1) / q) % s.p ≠ 1 % s.p := by
  simp only [Checks, ← cast_powMod, ne_eq, ← ZMod.natCast_eq_natCast_iff', Nat.cast_one]

instance : Decidable s.Checks := decidable_of_iff _ s.checks_iff.symm

variable {s}

theorem Checks.prime (h : s.Checks) (hprime : ∀ q ∈ s.factors, q.Prime) : s.p.Prime := by
  obtain ⟨hprod, hone, hne⟩ := h
  apply lucas_primality s.p s.a
  · rw [← s.pow_eq (Nat.sub_le _ _), hone]
  · intro q hq hdvd
    -- a prime that divides the product is one of the factors
    have hmem : q ∈ s.factors := by
      rw [← hprod] at hdvd
      obtain ⟨r, hr, hqr⟩ := (hq.prime.dvd_prod_iff).mp hdvd
      rw [(Nat.prime_dvd_prime_iff_eq hq (hprime r hr)).mp hqr]
      exact hr
    rw [← s.pow_eq ((Nat.div_le_self _ _).trans (Nat.sub_le _ _))]
    exact hne q hmem

end Step

/-- Each step stands on small primes and on the steps behind it. -/
def Ordered (small : List ℕ) : List Step → Prop
  | [] => True
  | s :: steps => (∀ q ∈ s.factors, q ∈ small ∨ q ∈ steps.map Step.p) ∧ Ordered small steps

instance decidableOrdered (small : List ℕ) : (steps : List Step) → Decidable (Ordered small steps)
  | [] => inferInstanceAs (Decidable True)
  | _ :: steps =>
      have := decidableOrdered small steps
      inferInstanceAs (Decidable (_ ∧ _))

/-- Every number with a certificate is prime. -/
theorem prime_of_checks {small : List ℕ} (hsmall : ∀ q ∈ small, q.Prime) {steps : List Step}
    (horder : Ordered small steps) (hchecks : ∀ s ∈ steps, s.Checks) :
    ∀ p ∈ steps.map Step.p, p.Prime := by
  induction steps with
  | nil => exact fun p hp => absurd hp List.not_mem_nil
  | cons s steps ih =>
      obtain ⟨hfactors, horder⟩ := horder
      rw [List.forall_mem_cons] at hchecks
      have hsteps := ih horder hchecks.2
      rw [List.map_cons, List.forall_mem_cons]
      exact ⟨hchecks.1.prime fun q hq => (hfactors q hq).elim (hsmall q) (hsteps q), hsteps⟩

end Pratt
