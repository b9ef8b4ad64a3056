import Rahgozar.Fronter.RangeExact

set_option autoImplicit false

/-! # Every download ends, and exactly

A download that is not done can go on, and no download goes on for ever: a range is asked for once,
and a chunk has three attempts. With the ways in which it ends this says what is delivered, whatever
`relay` answers.
-/

namespace Rahgozar.Fronter.Range

open Drive (parseUnsigned)
open Envelope

/-! ## The cost of a download -/

def Fetch.cost (f : Fetch) : Nat :=
  if f.result.isSome then 1 else 2 + (maxChunkAttempts - f.attempts)

/-- The events that are still possible for the chunks, at most. -/
def Chunks.cost (total : Nat) (chunks : Chunks) : Nat :=
  6 * (total - chunks.next) + (chunks.inFlight.map Fetch.cost).sum

def State.cost (s : State) : WithTop Nat :=
  match s.phase with
  | .probing => ⊤
  | .single => WithTop.some 1
  | .fetching probe chunks _ => WithTop.some (2 + chunks.cost probe.range.total)
  | .done _ => WithTop.some 0

theorem Fetch.cost_replied {total : Nat} (raw : List UInt8) {f : Fetch} (h : f.result = none) :
    (f.replied total raw).cost < f.cost := by
  have hcost : f.cost = 2 + (maxChunkAttempts - f.attempts) := by
    unfold Fetch.cost
    rw [h]
    rfl
  have hone : ∀ result, Fetch.cost ⟨f.range, f.attempts + 1, some result⟩ = 1 := fun _ => rfl
  unfold Fetch.replied
  rw [hcost]
  split
  · rw [hone]
    omega
  · split_ifs with hagain
    · have hagain : f.attempts + 1 < maxChunkAttempts := hagain.2
      show 2 + (maxChunkAttempts - (f.attempts + 1)) < _
      omega
    · rw [hone]
      omega

theorem sum_set_lt {l : List Fetch} {i : Nat} {f g : Fetch} (hf : l[i]? = some f)
    (hlt : g.cost < f.cost) : ((l.set i g).map Fetch.cost).sum < (l.map Fetch.cost).sum := by
  induction l generalizing i with
  | nil => cases hf
  | cons x l ih =>
      cases i with
      | zero =>
          cases hf
          rw [List.set_cons_zero, List.map_cons, List.map_cons, List.sum_cons, List.sum_cons]
          omega
      | succ i =>
          have := ih hf
          rw [List.set_cons_succ, List.map_cons, List.map_cons, List.sum_cons, List.sum_cons]
          omega

section

variable {transformHead : List UInt8 → List UInt8} {streamingAllowed : Bool} {req : Request}

theorem State.cost_stream (s : State) (probe : Probe) :
    (s.stream transformHead probe).cost < ⊤ := by
  unfold State.stream
  dsimp only
  split
  · exact WithTop.coe_lt_top _
  · exact WithTop.coe_lt_top _

/-- After the probe there is an end to it. -/
theorem State.cost_probed (s : State) (first : List UInt8) :
    (s.probed transformHead streamingAllowed first).cost < ⊤ := by
  unfold State.probed
  split
  · exact WithTop.coe_lt_top _
  · split_ifs
    · exact WithTop.coe_lt_top _
    · split
      · exact WithTop.coe_lt_top _
      · split_ifs
        · exact WithTop.coe_lt_top _
        · split
          · exact s.cost_stream _
          · exact WithTop.coe_lt_top _
          · exact WithTop.coe_lt_top _
          · exact WithTop.coe_lt_top _

theorem State.cost_item (s : State) (probe : Probe) (chunks : Chunks) (sink : Sink) (item : Item) :
    (s.item probe chunks sink item).cost ≤ WithTop.some (2 + chunks.cost probe.range.total) := by
  have hdone : WithTop.some 0 ≤ WithTop.some (2 + chunks.cost probe.range.total) :=
    WithTop.coe_le_coe.mpr (Nat.zero_le _)
  unfold State.item
  split
  · exact le_refl _
  · split
    · exact le_refl _
    · exact hdone
  · exact hdone

theorem State.cost_exhausted (s : State) (probe : Probe) (sink : Sink) :
    (s.exhausted transformHead probe sink).cost ≤ WithTop.some 1 := by
  have hdone : WithTop.some 0 ≤ WithTop.some 1 := WithTop.coe_le_coe.mpr (by decide)
  unfold State.exhausted
  split
  · exact hdone
  · split
    · exact le_refl _
    · split_ifs
      · exact le_refl _
      · exact hdone

theorem cost_lt {s t : State} {event : Event}
    (hstep : step transformHead streamingAllowed req s event = some t) : t.cost < s.cost := by
  obtain ⟨phase, writer, calls⟩ := s
  cases event with
  | replied raw =>
      cases phase with
      | probing =>
          cases hstep
          exact State.cost_probed _ raw
      | single =>
          cases hstep
          exact WithTop.coe_lt_coe.mpr Nat.zero_lt_one
      | fetching probe chunks sink => cases hstep
      | done result => cases hstep
  | started =>
      cases phase with
      | fetching probe chunks sink =>
          obtain ⟨-, hstep⟩ := Option.ite_none_right_eq_some.mp hstep
          obtain ⟨⟨range, next⟩, hplan, rfl⟩ := Option.map_eq_some_iff.mp hstep
          refine WithTop.coe_lt_coe.mpr ?_
          -- the plan is not empty, so there is something left to ask for
          have hlt : chunks.next < probe.range.total := by
            by_contra hle
            rw [planRemainingRange_eq_none_iff.mpr (by omega)] at hplan
            cases hplan
          obtain ⟨stop, hplan', hstart, hstop⟩ :=
            planRemainingRange_of_lt hlt probe.range.small
          rw [hplan] at hplan'
          obtain ⟨rfl, rfl⟩ := Prod.mk.inj (Option.some.inj hplan')
          -- a new fetch costs five, a byte that is not asked for any more saves six
          have hnew : Fetch.cost ⟨(chunks.next, stop), 0, none⟩ = 5 := rfl
          unfold Chunks.cost
          rw [List.map_append, List.sum_append, List.map_singleton, List.sum_singleton, hnew]
          dsimp only
          omega
      | probing => cases hstep
      | single => cases hstep
      | done result => cases hstep
  | chunkReplied i raw =>
      cases phase with
      | fetching probe chunks sink =>
          unfold step at hstep
          dsimp only at hstep
          split at hstep
          · rename_i range attempts hf
            cases hstep
            -- the reply takes one fetch further, the others stay as they are
            have hcost : (Fetch.replied probe.range.total raw ⟨range, attempts, none⟩).cost <
                Fetch.cost ⟨range, attempts, none⟩ := Fetch.cost_replied raw rfl
            have hsum := sum_set_lt hf hcost
            refine WithTop.coe_lt_coe.mpr ?_
            unfold Chunks.cost
            dsimp only
            omega
          · cases hstep
      | probing => cases hstep
      | single => cases hstep
      | done result => cases hstep
  | next =>
      cases phase with
      | fetching probe chunks sink =>
          unfold step at hstep
          dsimp only at hstep
          split at hstep
          · rename_i range attempts result more hflight
            cases hstep
            refine (State.cost_item _ _ _ _ _).trans_lt (WithTop.coe_lt_coe.mpr ?_)
            have hfirst : Fetch.cost ⟨range, attempts, some result⟩ = 1 := rfl
            unfold Chunks.cost
            rw [hflight, List.map_cons, List.sum_cons, hfirst]
            dsimp only
            omega
          · cases hstep
          · split at hstep
            · cases hstep
            · cases hstep
              exact (State.cost_exhausted _ _ _).trans_lt (WithTop.coe_lt_coe.mpr (by omega))
      | probing => cases hstep
      | single => cases hstep
      | done result => cases hstep

/-- No download goes on for ever. -/
theorem wellFounded_step :
    WellFounded fun t s => ∃ event, step transformHead streamingAllowed req s event = some t :=
  Subrelation.wf (fun ⟨_, hstep⟩ => cost_lt hstep) (InvImage.wf State.cost wellFounded_lt)

/-- A download that is not done can go on. -/
theorem exists_step {s : State} (h : ∀ result, s.phase ≠ .done result) :
    ∃ event t, step transformHead streamingAllowed req s event = some t := by
  obtain ⟨phase, writer, calls⟩ := s
  cases phase with
  | probing => exact ⟨.replied [], _, rfl⟩
  | single => exact ⟨.replied [], _, rfl⟩
  | done result => exact absurd rfl (h result)
  | fetching probe chunks sink =>
      obtain ⟨next, inFlight⟩ := chunks
      cases inFlight with
      | cons f more =>
          obtain ⟨range, attempts, result⟩ := f
          cases result with
          | none => exact ⟨.chunkReplied 0 [], _, rfl⟩
          | some result => exact ⟨.next, _, rfl⟩
      | nil =>
          cases hplan : planRemainingRange rangeParallelChunkBytes probe.range.total next with
          | none =>
              refine ⟨.next, State.exhausted transformHead
                ⟨.fetching probe ⟨next, []⟩ sink, writer, calls⟩ probe sink, ?_⟩
              unfold step
              dsimp only
              rw [hplan]
          | some planned =>
              refine ⟨.started, ⟨.fetching probe ⟨planned.2, [⟨planned.1, 0, none⟩]⟩ sink, writer,
                calls⟩, ?_⟩
              unfold step
              dsimp only
              rw [if_pos (by decide), hplan]
              rfl

end

/-! ## What is delivered -/

/-- A response has as many bytes as it announces. -/
def NotShort (raw : List UInt8) : Prop :=
  ∀ status headers body, splitResponse raw = some (status, headers, body) →
    ∀ kv ∈ headers, isContentLength kv = true →
      ∀ n, parseUnsigned (2 ^ 64) kv.2 = some n → n ≤ body.length

theorem eq_of_parseUnsigned_toDigits {size m n : Nat}
    (h : parseUnsigned size (Nat.toDigits 10 n) = some m) : m = n := by
  have hvalue := (Drive.parseUnsigned_eq_some_iff.mp h).2
  rwa [Drive.digitsOf_of_head (Drive.head?_toDigits_ne_plus n), Nat.ofDigitChars_ten_toDigits]
    at hvalue

theorem Announces.notShort {head body : List UInt8} (h : Announces head body.length) :
    NotShort (head ++ body) := by
  obtain ⟨headers, hsplit, hlengths⟩ := h
  intro status headers' body' hsplit' kv hkv hlength n hn
  rw [hsplit body] at hsplit'
  cases hsplit'
  have hmem : kv ∈ headers.filter isContentLength := List.mem_filter.mpr ⟨hkv, hlength⟩
  rw [hlengths, List.mem_singleton] at hmem
  subst hmem
  exact le_of_eq (eq_of_parseUnsigned_toDigits hn)

/-- Without streaming, and to a writer that does not fail, all is written, and is not short if no
reply is. -/
theorem Outcome.notShort {req : Request} {calls : List Call} {w : Writer} {r : Written}
    (h : Outcome id false req calls w r) (hsound : w.faults = []) (hempty : w.written = []) :
    r.2 = .ok () ∧ ((∀ call ∈ calls, NotShort call.reply) → NotShort r.1.written) := by
  have hall : ∀ {bytes : List UInt8}, Wrote bytes w r → r.2 = .ok () ∧ r.1.written = bytes := by
    intro bytes hwrote
    have hok := (hwrote.sound hsound).1
    have hwritten := hwrote.all hok
    rw [hempty, List.nil_append] at hwritten
    exact ⟨hok, hwritten⟩
  cases h with
  | unchanged call hcall hrequest hwrote =>
      rw [withHead_id] at hwrote
      obtain ⟨hok, hwritten⟩ := hall hwrote
      exact ⟨hok, fun hreplies => hwritten ▸ hreplies call hcall⟩
  | refused hallowed hwrote => cases hallowed
  | probeOnly call hcall hrequest headers body head hsplit hhead hwrote =>
      obtain ⟨hok, hwritten⟩ := hall hwrote
      exact ⟨hok, fun _ => hwritten ▸ hhead.notShort⟩
  | stitched probe pieces hdownload hplan hlength hwrote =>
      have hhead := hdownload.head
      rw [← hlength] at hhead
      obtain ⟨hok, hwritten⟩ := hall hwrote
      exact ⟨hok, fun _ => hwritten ▸ hhead.notShort⟩
  | streamed hallowed probe pieces hdownload hpart hall => cases hallowed

/-- A download ends, in one of the ways in which one may end; in particular, what is not streamed is
not short. -/
theorem download_exact (transformHead : List UInt8 → List UInt8) (streamingAllowed : Bool)
    (req : Request) (w : Writer) :
    (∀ events s result,
      StepRun.run (step transformHead streamingAllowed req) (begin req w) events = some s →
      s.phase = .done result →
      Outcome transformHead streamingAllowed req s.calls w (s.writer, result)) ∧
    (∀ s, (∀ result, s.phase ≠ .done result) →
      ∃ event t, step transformHead streamingAllowed req s event = some t) ∧
    (WellFounded fun t s => ∃ event, step transformHead streamingAllowed req s event = some t) ∧
    (∀ events buf, relayParallelRange req events = some buf →
      ∃ s, StepRun.run (step id false req) (begin req ⟨[], []⟩) events = some s ∧
        s.phase = .done (.ok ()) ∧ s.writer.written = buf ∧
        ((∀ call ∈ s.calls, NotShort call.reply) → NotShort buf)) := by
  refine ⟨fun events s result hrun hdone => outcome_of_run hrun hdone, fun s h => exists_step h,
    wellFounded_step, fun events buf hbuf => ?_⟩
  obtain ⟨s, hrun, hs⟩ := Option.bind_eq_some_iff.mp hbuf
  cases hphase : s.phase with
  | done result =>
      rw [hphase] at hs
      cases hs
      obtain ⟨rfl, hshort⟩ := (outcome_of_run hrun hphase).notShort rfl rfl
      exact ⟨s, hrun, hphase, rfl, hshort⟩
  | probing =>
      rw [hphase] at hs
      cases hs
  | single =>
      rw [hphase] at hs
      cases hs
  | fetching probe chunks sink =>
      rw [hphase] at hs
      cases hs

end Rahgozar.Fronter.Range
