import Rahgozar.Lib.Run
import Rahgozar.Tunnel.Udpgw

set_option autoImplicit false

/-! # The buffer of the udpgw server

The inner loop of `udpgw_server_task` clears a buffer that is too long when no frame is complete.
At a malformed frame it drops the frame and waits for the next read, and nothing bounds what it
leaves behind: frames that are too short to be one (`00 00`) are read by the thousand and dropped
one by one.
-/

namespace Rahgozar.Udpgw

open StepRun (run AllSteps)
open RecordStream (firstMalformed)

/-- The buffer at the start of each round of the inner loop, and at the end. -/
def passBuffers : Nat → List UInt8 → List (List UInt8)
  | 0, buf => [buf]
  | fuel + 1, buf =>
      buf ::
        match tryParseFrame buf with
        | .ok (some (_, consumed)) => passBuffers fuel (buf.drop consumed)
        | .ok none => [if bufMax ≤ buf.length then [] else buf]
        | .error _ =>
            match declaredLen buf with
            | some skip => [buf.drop (min skip buf.length)]
            | none => [[]]

/-- One read and the inner loop behind it. The outer loop ends with a read of nothing, and no read
is longer than `tmp`. -/
def serverStep (buf r : List UInt8) : Option (List UInt8) :=
  if 0 < r.length ∧ r.length ≤ readMax then some (parseLoop (buf ++ r).length (buf ++ r)).2
  else none

/-- The buffer keeps to its bound from the read on to the end of the inner loop. -/
def WithinBound (buf r : List UInt8) : Prop :=
  ∀ b ∈ passBuffers (buf ++ r).length (buf ++ r), b.length ≤ bufMax + readMax

/-- If a complete frame in the buffer is malformed, there are at most `BUF_MAX` bytes behind the
first such frame. -/
def FewBehind (buf r : List UInt8) : Prop :=
  ∀ stop, firstMalformed (framesOf (buf ++ r)) = some stop → (buf ++ r).length ≤ stop + bufMax

/-! ## One read -/

/-- The buffer is longest right after the read. -/
theorem passBuffers_le {fuel : Nat} {buf b : List UInt8} (h : b ∈ passBuffers fuel buf) :
    b.length ≤ buf.length := by
  induction fuel generalizing buf with
  | zero => rw [List.mem_singleton.mp h]
  | succ fuel ih =>
      rw [passBuffers] at h
      rcases List.mem_cons.mp h with rfl | h
      · exact Nat.le_refl _
      · cases hparse : tryParseFrame buf with
        | error e =>
            rw [hparse] at h
            cases hlen : declaredLen buf with
            | none =>
                rw [hlen] at h
                rw [List.mem_singleton.mp h]
                exact Nat.zero_le _
            | some skip =>
                rw [hlen] at h
                rw [List.mem_singleton.mp h, List.length_drop]
                exact Nat.sub_le _ _
        | ok o =>
            rw [hparse] at h
            cases o with
            | none =>
                rw [List.mem_singleton.mp h]
                split
                · exact Nat.zero_le _
                · exact Nat.le_refl _
            | some p =>
                have hle := ih h
                rw [List.length_drop] at hle
                exact hle.trans (Nat.sub_le _ _)

theorem mem_passBuffers (fuel : Nat) (buf : List UInt8) : buf ∈ passBuffers fuel buf := by
  cases fuel with
  | zero => exact List.mem_cons_self
  | succ fuel => exact List.mem_cons_self

theorem withinBound_iff (buf r : List UInt8) :
    WithinBound buf r ↔ (buf ++ r).length ≤ bufMax + readMax := by
  constructor
  · intro h
    exact h _ (mem_passBuffers _ _)
  · intro h b hb
    exact (passBuffers_le hb).trans h

theorem serverStep_eq_some {buf r left : List UInt8} (h : serverStep buf r = some left) :
    r.length ≤ readMax ∧ left = (parseLoop (buf ++ r).length (buf ++ r)).2 := by
  unfold serverStep at h
  split_ifs at h with hlegal
  cases h
  exact ⟨hlegal.2, rfl⟩

/-- What is left is what stands behind the first malformed frame, or less than a frame. -/
theorem parseLoop_left (buf : List UInt8) :
    ∃ k ≤ buf.length, (parseLoop buf.length buf).2 = buf.drop k ∧
      (firstMalformed (framesOf buf) = some k ∨
        firstMalformed (framesOf buf) = none ∧ buf.length - k ≤ readMax) := by
  obtain ⟨k, hk, hleft, hcase⟩ :=
    RecordStream.drainPass_left frameCutter 0 (Nat.le_refl buf.length)
  rw [Nat.zero_add] at hcase
  refine ⟨k, hk, ?_, ?_⟩
  · rw [parseLoop_eq_drainPass]
    exact hleft
  · rcases hcase with hbad | ⟨hgood, hcut⟩
    · exact Or.inl hbad
    · refine Or.inr ⟨hgood, ?_⟩
      -- a buffer without a complete frame is shorter than one
      rw [← List.length_drop]
      generalize buf.drop k = rest at hcut
      simp only [frameCutter] at hcut
      cases hdecl : declaredLen rest with
      | none =>
          rcases rest with _ | ⟨b, _ | ⟨b', rest⟩⟩
          · exact Nat.zero_le _
          · exact Nat.succ_le_of_lt (by decide)
          · cases hdecl
      | some t =>
          have hbounds := declaredLen_bounds hdecl
          rw [hdecl] at hcut
          dsimp only at hcut
          split_ifs at hcut with hshort
          unfold readMax
          omega

/-! ## Runs -/

theorem length_left_le {buf r left : List UInt8} (hfew : FewBehind buf r)
    (h : serverStep buf r = some left) : left.length ≤ bufMax := by
  obtain ⟨_, rfl⟩ := serverStep_eq_some h
  obtain ⟨k, hk, hleft, hcase⟩ := parseLoop_left (buf ++ r)
  rw [hleft, List.length_drop]
  rcases hcase with hbad | ⟨_, hshort⟩
  · have hbehind := hfew k hbad
    omega
  · exact hshort.trans (by decide)

theorem length_append_le {buf r left : List UInt8} (hbuf : buf.length ≤ bufMax)
    (h : serverStep buf r = some left) : (buf ++ r).length ≤ bufMax + readMax := by
  have hr := (serverStep_eq_some h).1
  rw [List.length_append]
  omega

theorem serverStep_full (buf : List UInt8) :
    ∃ left, serverStep buf (List.replicate readMax 0) = some left := by
  have hlegal : 0 < (List.replicate readMax (0 : UInt8)).length ∧
      (List.replicate readMax (0 : UInt8)).length ≤ readMax := by
    rw [List.length_replicate]
    exact ⟨by decide, Nat.le_refl _⟩
  exact ⟨_, if_pos hlegal⟩

/-- A read that leaves more than `BUF_MAX` bytes behind a malformed frame may be followed by one
that exceeds the bound. -/
theorem exceeds_of_not_fewBehind {buf r left : List UInt8} (h : serverStep buf r = some left)
    (hmany : ¬ FewBehind buf r) : ¬ WithinBound left (List.replicate readMax 0) := by
  obtain ⟨_, rfl⟩ := serverStep_eq_some h
  obtain ⟨k, hk, hleft, hcase⟩ := parseLoop_left (buf ++ r)
  unfold FewBehind at hmany
  push Not at hmany
  obtain ⟨stop, hstop, hlong⟩ := hmany
  rw [withinBound_iff, hleft, List.length_append, List.length_drop, List.length_replicate]
  rcases hcase with hbad | ⟨hgood, _⟩
  · obtain rfl : k = stop := Option.some.inj (hbad.symm.trans hstop)
    omega
  · rw [hgood] at hstop
    cases hstop

/-- The buffer keeps to its bound in every run that, whenever it stops at a malformed frame, has
at most `BUF_MAX` bytes behind it; a read that has more may be followed by one that exceeds the
bound. -/
theorem buffer_bounded (reads : List (List UInt8)) :
    (AllSteps serverStep FewBehind [] reads → AllSteps serverStep WithinBound [] reads) ∧
    (∀ buf r left : List UInt8, run serverStep [] reads = some buf →
      serverStep buf r = some left → ¬ FewBehind buf r →
      ∃ next, ¬ AllSteps serverStep WithinBound [] (reads ++ [r] ++ [next])) := by
  constructor
  · intro h
    apply StepRun.allSteps_of_inv (P := fun buf => buf.length ≤ bufMax) _ _ (Nat.zero_le _) h
    · intro buf r left _ hfew hstep
      exact length_left_le hfew hstep
    · intro buf r left hbuf _ hstep
      exact (withinBound_iff buf r).mpr (length_append_le hbuf hstep)
  · intro buf r left hrun hstep hmany
    refine ⟨List.replicate readMax 0, fun hall => ?_⟩
    have hrun' : run serverStep [] (reads ++ [r]) = some left := by
      rw [StepRun.run_append, hrun, Option.bind_some, StepRun.run_cons, hstep]
      rfl
    obtain ⟨last, hlast⟩ := serverStep_full left
    exact exceeds_of_not_fewBehind hstep hmany (StepRun.allSteps_last hall hrun' hlast)

/-! ## Zeros -/

/-- A read full of frames of length zero: one is dropped. -/
def zeros : List UInt8 := List.replicate readMax 0

theorem parseLoop_zeros (n : Nat) :
    parseLoop (n + 2) (List.replicate (n + 2) 0) = ([], List.replicate n 0) := by
  have hcons : List.replicate (n + 2) (0 : UInt8) = 0 :: 0 :: List.replicate n 0 := rfl
  have hdecl : declaredLen (0 :: 0 :: List.replicate n 0) = some 2 := rfl
  have hlen : ¬ (0 :: 0 :: List.replicate n (0 : UInt8)).length < 2 := by
    simp only [List.length_cons]
    omega
  have hparse : tryParseFrame (0 :: 0 :: List.replicate n 0) = .error "frame too short" := by
    rw [tryParseFrame, hdecl]
    dsimp only
    rw [if_neg hlen]
    rfl
  have hmin : min 2 (0 :: 0 :: List.replicate n (0 : UInt8)).length = 2 := by
    simp only [List.length_cons]
    omega
  rw [hcons, parseLoop, hparse, hdecl]
  dsimp only
  rw [hmin]
  rfl

theorem serverStep_zeros (n : Nat) :
    serverStep (List.replicate n 0) zeros = some (List.replicate (n + (readMax - 2)) 0) := by
  have happ : List.replicate n (0 : UInt8) ++ zeros =
      List.replicate (n + (readMax - 2) + 2) 0 := by
    rw [zeros, List.replicate_append_replicate]
    rfl
  obtain ⟨left, hleft⟩ := serverStep_full (List.replicate n 0)
  rw [zeros, hleft, (serverStep_eq_some hleft).2]
  change some (parseLoop (List.replicate n 0 ++ zeros).length (List.replicate n 0 ++ zeros)).2 = _
  rw [happ, List.length_replicate, parseLoop_zeros]

/-- The buffer grows with every read. -/
theorem run_zeros (k : Nat) :
    run serverStep [] (List.replicate k zeros) =
      some (List.replicate (k * (readMax - 2)) 0) := by
  induction k with
  | zero =>
      rw [Nat.zero_mul]
      rfl
  | succ k ih =>
      rw [List.replicate_succ', StepRun.run_append, ih, Option.bind_some, StepRun.run_cons,
        serverStep_zeros, Option.bind_some, Nat.succ_mul]
      rfl

/-- Six reads of zeros. -/
theorem buffer_exceeds_bound :
    ¬ ∀ reads : List (List UInt8), AllSteps serverStep WithinBound [] reads := by
  intro h
  have hall : AllSteps serverStep WithinBound [] (List.replicate 5 zeros ++ [zeros]) := h _
  have hlast := StepRun.allSteps_last hall (run_zeros 5) (serverStep_zeros _)
  rw [withinBound_iff, zeros, List.length_append, List.length_replicate,
    List.length_replicate] at hlast
  exact absurd hlast (by decide)

end Rahgozar.Udpgw
