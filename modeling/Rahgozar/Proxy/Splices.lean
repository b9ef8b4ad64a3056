import Rahgozar.Lib.Run
import Rahgozar.Proxy.AbsoluteTarget

set_option autoImplicit false

/-! # Splices of two sockets

Four helpers join the client's socket with one to an upstream. Each may first write some bytes that
it has already got, and then runs one `tokio::io::copy` for each direction under `select!`, which
drops the other one when the first has come to its end. A side sends its stream bit by bit and
closes it, each at its own pace; the sockets do not fail.
-/

namespace Rahgozar.Proxy.Splices

/-! ## One direction -/

/-- The buffer of `tokio::io::copy`. -/
def copyBufferSize : Nat := 8192

/-- The way from one side to the other: what is written before the copy begins, what the side has
yet to send, whether it has closed its stream, what the socket holds, what the copy has read and not
written, and what the other side has been sent. -/
structure Lane where
  lead : List UInt8
  unsent : List UInt8
  closed : Bool
  queued : List UInt8
  buffer : List UInt8
  delivered : List UInt8
deriving DecidableEq

namespace Lane

def start (lead stream : List UInt8) : Lane := ⟨lead, stream, false, [], [], []⟩

def send (n : Nat) (l : Lane) : Option Lane :=
  if l.unsent ≠ [] then
    some { l with unsent := l.unsent.drop (n + 1), queued := l.queued ++ l.unsent.take (n + 1) }
  else none

def close (l : Lane) : Option Lane :=
  if l.unsent = [] ∧ l.closed = false then some { l with closed := true } else none

/-- One write of `write_all`. -/
def writeLead (n : Nat) (l : Lane) : Option Lane :=
  if l.lead ≠ [] then
    some { l with lead := l.lead.drop (n + 1), delivered := l.delivered ++ l.lead.take (n + 1) }
  else none

def read (n : Nat) (l : Lane) : Option Lane :=
  if l.queued ≠ [] ∧ l.buffer.length < copyBufferSize then
    let k := min (n + 1) (copyBufferSize - l.buffer.length)
    some { l with queued := l.queued.drop k, buffer := l.buffer ++ l.queued.take k }
  else none

def write (n : Nat) (l : Lane) : Option Lane :=
  if l.buffer ≠ [] then
    some { l with
      buffer := l.buffer.drop (n + 1), delivered := l.delivered ++ l.buffer.take (n + 1) }
  else none

/-- The copy reads the end of the stream, and has nothing left to write. -/
def AtEnd (l : Lane) : Prop := l.closed = true ∧ l.queued = [] ∧ l.buffer = []

instance (l : Lane) : Decidable l.AtEnd := inferInstanceAs (Decidable (_ ∧ _))

end Lane

/-! ## Both directions -/

inductive Direction where
  | up
  | down
deriving DecidableEq

def Direction.other : Direction → Direction
  | .up => .down
  | .down => .up

/-- The lane up is from the client to the upstream. When one copy has ended, both sockets are
closed. -/
structure Splice where
  up : Lane
  down : Lane
  torn : Bool
deriving DecidableEq

namespace Splice

def lane (s : Splice) : Direction → Lane
  | .up => s.up
  | .down => s.down

def setLane (s : Splice) (d : Direction) (l : Lane) : Splice :=
  match d with
  | .up => { s with up := l }
  | .down => { s with down := l }

/-- The bytes in front are written, and the copies run. -/
def Copying (s : Splice) : Prop := s.up.lead = [] ∧ s.down.lead = []

instance (s : Splice) : Decidable s.Copying := inferInstanceAs (Decidable (_ ∧ _))

inductive Event where
  | send (d : Direction) (n : Nat)
  | close (d : Direction)
  | writeLead (d : Direction) (n : Nat)
  | read (d : Direction) (n : Nat)
  | write (d : Direction) (n : Nat)
  | finish (d : Direction)
deriving DecidableEq

def step (s : Splice) (e : Event) : Option Splice :=
  if s.torn then none
  else
    match e with
    | .send d n => ((s.lane d).send n).map (s.setLane d)
    | .close d => (s.lane d).close.map (s.setLane d)
    | .writeLead d n => ((s.lane d).writeLead n).map (s.setLane d)
    | .read d n => if s.Copying then ((s.lane d).read n).map (s.setLane d) else none
    | .write d n => if s.Copying then ((s.lane d).write n).map (s.setLane d) else none
    | .finish d => if s.Copying ∧ (s.lane d).AtEnd then some { s with torn := true } else none

end Splice

open Splice (Event)

/-! ## The four helpers -/

section

variable (client upstream : List UInt8)

def plainTcpPassthrough : Splice := ⟨.start [] client, .start [] upstream, false⟩

/-- What has been read of the request is sent on first. -/
def plainHttpPassthroughResolved (method version : List Char)
    (headers : List (List Char × List Char)) (path : List Char) (leftover : List UInt8) : Splice :=
  ⟨.start (Drive.utf8 (rewritePlainHttpRequestHead method version headers path) ++ leftover) client,
    .start [] upstream, false⟩

/-- The upstream has already answered. -/
def spliceAfterHandshake (serverBytes : List UInt8) : Splice :=
  ⟨.start [] client, .start serverBytes upstream, false⟩

def localBypassRawFallback (clientHello : List UInt8) : Splice :=
  ⟨.start clientHello client, .start [] upstream, false⟩

end

/-! ## Nothing is lost on the way -/

/-- All that goes along the lane, in order. -/
def Lane.total (l : Lane) : List UInt8 :=
  l.delivered ++ (l.lead ++ (l.buffer ++ (l.queued ++ l.unsent)))

/-- The moves that a lane still has before it: three for each byte that is not sent, and so on. -/
def Lane.remaining (l : Lane) : Nat :=
  3 * l.unsent.length + (if l.closed then 0 else 1) + 2 * l.queued.length + l.buffer.length +
    l.lead.length

/-- The bytes of the lane, and a stream is closed behind its last one. -/
structure Lane.Carries (bytes : List UInt8) (l : Lane) : Prop where
  total : l.total = bytes
  closed : l.closed = true → l.unsent = []

section

variable {l l' : Lane} {bytes : List UInt8} {n : Nat}

theorem Lane.carries_start (lead stream : List UInt8) :
    (Lane.start lead stream).Carries (lead ++ stream) := ⟨rfl, nofun⟩

theorem Lane.Carries.send (h : l.Carries bytes) (hs : l.send n = some l') : l'.Carries bytes := by
  obtain ⟨hne, ht⟩ := Option.ite_none_right_eq_some.mp hs
  cases ht
  refine ⟨?_, fun hclosed => absurd (h.closed hclosed) hne⟩
  rw [← h.total]
  simp only [Lane.total, List.append_assoc, List.take_append_drop]

theorem Lane.Carries.close (h : l.Carries bytes) (hs : l.close = some l') : l'.Carries bytes := by
  obtain ⟨⟨hempty, -⟩, ht⟩ := Option.ite_none_right_eq_some.mp hs
  cases ht
  exact ⟨h.total, fun _ => hempty⟩

theorem Lane.Carries.writeLead (h : l.Carries bytes) (hs : l.writeLead n = some l') :
    l'.Carries bytes := by
  obtain ⟨-, ht⟩ := Option.ite_none_right_eq_some.mp hs
  cases ht
  refine ⟨?_, h.closed⟩
  rw [← h.total]
  simp only [Lane.total, List.append_assoc]
  rw [← List.append_assoc (l.lead.take (n + 1)), List.take_append_drop]

theorem Lane.Carries.read (h : l.Carries bytes) (hs : l.read n = some l') : l'.Carries bytes := by
  obtain ⟨-, ht⟩ := Option.ite_none_right_eq_some.mp hs
  cases ht
  refine ⟨?_, h.closed⟩
  rw [← h.total]
  simp only [Lane.total, List.append_assoc]
  rw [← List.append_assoc (l.queued.take _), List.take_append_drop]

theorem Lane.Carries.write (h : l.Carries bytes) (hlead : l.lead = []) (hs : l.write n = some l') :
    l'.Carries bytes := by
  obtain ⟨-, ht⟩ := Option.ite_none_right_eq_some.mp hs
  cases ht
  refine ⟨?_, h.closed⟩
  rw [← h.total]
  simp only [Lane.total, hlead, List.nil_append, List.append_assoc]
  rw [← List.append_assoc (l.buffer.take (n + 1)), List.take_append_drop]

/-- A lane whose copy runs has delivered everything, and is closed, exactly at its end. -/
theorem Lane.Carries.atEnd_iff (h : l.Carries bytes) (hlead : l.lead = []) :
    l.AtEnd ↔ l.delivered = bytes ∧ l.closed = true := by
  have htotal := h.total
  rw [Lane.total, hlead, List.nil_append] at htotal
  constructor
  · rintro ⟨hclosed, hqueued, hbuffer⟩
    rw [hbuffer, hqueued, h.closed hclosed, List.append_nil, List.append_nil, List.append_nil]
      at htotal
    exact ⟨htotal, hclosed⟩
  · rintro ⟨hdelivered, hclosed⟩
    have hrest : l.buffer ++ (l.queued ++ l.unsent) = [] :=
      List.append_right_eq_self.mp (hdelivered ▸ htotal)
    obtain ⟨hbuffer, hbehind⟩ := List.append_eq_nil_iff.mp hrest
    exact ⟨hclosed, (List.append_eq_nil_iff.mp hbehind).1, hbuffer⟩

end

namespace Splice

variable {s t : Splice} {e : Event} {u v : List UInt8}

/-- Both lanes carry what is theirs. -/
def Carries (u v : List UInt8) (s : Splice) : Prop := s.up.Carries u ∧ s.down.Carries v

/-- What is to go along a lane. -/
def share (u v : List UInt8) : Direction → List UInt8
  | .up => u
  | .down => v

theorem carries_iff : s.Carries u v ↔ ∀ d, (s.lane d).Carries (share u v d) :=
  ⟨fun h d => by cases d with | up => exact h.1 | down => exact h.2, fun h => ⟨h .up, h .down⟩⟩

theorem Carries.setLane (h : s.Carries u v) (d : Direction) {l : Lane}
    (hl : l.Carries (share u v d)) : (s.setLane d l).Carries u v := by
  cases d with
  | up => exact ⟨hl, h.2⟩
  | down => exact ⟨h.1, hl⟩

theorem Copying.lead (h : s.Copying) (d : Direction) : (s.lane d).lead = [] := by
  cases d with
  | up => exact h.1
  | down => exact h.2

@[simp] theorem torn_setLane (d : Direction) (l : Lane) : (s.setLane d l).torn = s.torn := by
  cases d <;> rfl

/-- A step ends the splice, as one copy has ended, or moves one lane, which then carries the same
bytes. -/
theorem step_cases (h : s.step e = some t) :
    s.torn = false ∧
      ((∃ d, e = .finish d ∧ s.Copying ∧ (s.lane d).AtEnd ∧ t = { s with torn := true }) ∨
        ∃ d l, (∀ d', e ≠ .finish d') ∧ t = s.setLane d l ∧
          ∀ bytes, (s.lane d).Carries bytes → l.Carries bytes) := by
  obtain ⟨htorn, h⟩ := Option.ite_none_left_eq_some.mp h
  refine ⟨Bool.eq_false_iff.mpr htorn, ?_⟩
  cases e with
  | send d n =>
      obtain ⟨l, hl, rfl⟩ := Option.map_eq_some_iff.mp h
      exact Or.inr ⟨d, l, nofun, rfl, fun _ hc => hc.send hl⟩
  | close d =>
      obtain ⟨l, hl, rfl⟩ := Option.map_eq_some_iff.mp h
      exact Or.inr ⟨d, l, nofun, rfl, fun _ hc => hc.close hl⟩
  | writeLead d n =>
      obtain ⟨l, hl, rfl⟩ := Option.map_eq_some_iff.mp h
      exact Or.inr ⟨d, l, nofun, rfl, fun _ hc => hc.writeLead hl⟩
  | read d n =>
      obtain ⟨-, h⟩ := Option.ite_none_right_eq_some.mp h
      obtain ⟨l, hl, rfl⟩ := Option.map_eq_some_iff.mp h
      exact Or.inr ⟨d, l, nofun, rfl, fun _ hc => hc.read hl⟩
  | write d n =>
      obtain ⟨hcopying, h⟩ := Option.ite_none_right_eq_some.mp h
      obtain ⟨l, hl, rfl⟩ := Option.map_eq_some_iff.mp h
      exact Or.inr ⟨d, l, nofun, rfl, fun _ hc => hc.write (hcopying.lead d) hl⟩
  | finish d =>
      obtain ⟨⟨hcopying, hend⟩, ht⟩ := Option.ite_none_right_eq_some.mp h
      exact Or.inl ⟨d, rfl, hcopying, hend, (Option.some.inj ht).symm⟩

/-- **Step lemma.** -/
theorem Carries.step (h : s.Carries u v) (hs : s.step e = some t) : t.Carries u v := by
  obtain ⟨-, ⟨d, -, -, -, rfl⟩ | ⟨d, l, -, rfl, hl⟩⟩ := step_cases hs
  · exact h
  · exact h.setLane d (hl _ (carries_iff.mp h d))

/-- **Run lemma.** Nothing is lost, doubled or reordered on the way, whatever the order of the
events. -/
theorem Carries.run {es : List Event} (h : s.Carries u v)
    (hrun : StepRun.run Splice.step s es = some t) : t.Carries u v :=
  StepRun.run_invariant (C := fun _ _ => True) (fun _ _ _ hc _ hs => hc.step hs) h
    (StepRun.allSteps_of_forall (fun _ _ => trivial) s es) hrun

/-! ## When both directions are delivered -/

/-- When the sockets are closed, each side has been sent everything that was for it, up to the end
of the other side's stream. -/
def Delivered (u v : List UInt8) (s : Splice) : Prop :=
  s.torn = true →
    (s.up.delivered = u ∧ s.up.closed = true) ∧ (s.down.delivered = v ∧ s.down.closed = true)

/-- A copy ends only when the stream of the other side has ended as well, and none of it waits to be
read or written. -/
def OtherAtEnd (s : Splice) (e : Event) : Prop :=
  match e with
  | .finish d => (s.lane d.other).AtEnd
  | _ => True

theorem otherAtEnd_of_not_finish (h : ∀ d, e ≠ .finish d) : s.OtherAtEnd e := by
  cases e with
  | finish d => exact absurd rfl (h d)
  | send | close | writeLead | read | write => trivial

/-- A copy that ends leaves everything delivered exactly when the other is at its end too. -/
theorem delivered_finish (h : s.Carries u v) (hcopying : s.Copying) {d : Direction}
    (hend : (s.lane d).AtEnd) :
    Delivered u v { s with torn := true } ↔ (s.lane d.other).AtEnd := by
  have hup := h.1.atEnd_iff hcopying.1
  have hdown := h.2.atEnd_iff hcopying.2
  calc Delivered u v { s with torn := true }
    _ ↔ (s.up.delivered = u ∧ s.up.closed = true) ∧ (s.down.delivered = v ∧ s.down.closed = true) :=
      forall_prop_of_true rfl
    _ ↔ s.up.AtEnd ∧ s.down.AtEnd := by rw [hup, hdown]
    _ ↔ (s.lane d.other).AtEnd := by
      cases d with
      | up => exact and_iff_right hend
      | down => exact and_iff_left hend

/-- The states of a run all deliver both directions exactly when its steps all wait for the other
copy. -/
theorem delivered_iff (h : s.Carries u v) (htorn : s.torn = false) (events : List Event) :
    StepRun.AllStates step (Delivered u v) s events ↔
      StepRun.AllSteps step OtherAtEnd s events := by
  refine StepRun.allStates_iff_allSteps_of_inv (I := Carries u v) (fun _ _ _ hc hs => hc.step hs) ?_
    h (fun htrue => absurd htrue (by simp [htorn])) events
  intro s e t hc _ hs
  obtain ⟨hopen, ⟨d, rfl, hcopying, hend, rfl⟩ | ⟨d, l, hfinish, rfl, -⟩⟩ := step_cases hs
  · exact delivered_finish hc hcopying hend
  · -- the sockets are still open
    refine iff_of_true (fun htrue => ?_) (otherAtEnd_of_not_finish hfinish)
    rw [torn_setLane, hopen] at htrue
    exact absurd htrue Bool.false_ne_true

/-! ## Such a run exists -/

/-- A lane that is not at its end can move, and then has less to do. -/
theorem exists_move (htorn : s.torn = false) (hcopying : s.Copying) {d : Direction}
    (hend : ¬ (s.lane d).AtEnd) :
    ∃ e l, s.step e = some (s.setLane d l) ∧ l.remaining < (s.lane d).remaining := by
  by_cases hbuffer : (s.lane d).buffer = []
  · by_cases hqueued : (s.lane d).queued = []
    · by_cases hunsent : (s.lane d).unsent = []
      · have hclosed : (s.lane d).closed = false :=
          Bool.eq_false_iff.mpr fun hclosed => hend ⟨hclosed, hqueued, hbuffer⟩
        refine ⟨.close d, { s.lane d with closed := true }, ?_, ?_⟩
        · simp [step, htorn, Lane.close, hunsent, hclosed]
        · simp [Lane.remaining, hclosed]
      · refine ⟨.send d 0, { s.lane d with
          unsent := (s.lane d).unsent.drop 1
          queued := (s.lane d).queued ++ (s.lane d).unsent.take 1 }, ?_, ?_⟩
        · simp [step, htorn, Lane.send, hunsent]
        · have := List.length_pos_of_ne_nil hunsent
          simp only [Lane.remaining, List.length_append, List.length_drop, List.length_take]
          omega
    · refine ⟨.read d 0, { s.lane d with
        queued := (s.lane d).queued.drop 1
        buffer := (s.lane d).buffer ++ (s.lane d).queued.take 1 }, ?_, ?_⟩
      · simp [step, htorn, hcopying, Lane.read, hqueued, hbuffer, copyBufferSize]
      · have := List.length_pos_of_ne_nil hqueued
        simp only [Lane.remaining, List.length_append, List.length_drop, List.length_take]
        omega
  · refine ⟨.write d 0, { s.lane d with
      buffer := (s.lane d).buffer.drop 1
      delivered := (s.lane d).delivered ++ (s.lane d).buffer.take 1 }, ?_, ?_⟩
    · simp [step, htorn, hcopying, Lane.write, hbuffer]
    · have := List.length_pos_of_ne_nil hbuffer
      simp only [Lane.remaining, List.length_drop]
      omega

/-- So can one with bytes in front that are not written yet. -/
theorem exists_move_of_lead (htorn : s.torn = false) {d : Direction}
    (hlead : (s.lane d).lead ≠ []) :
    ∃ e l, s.step e = some (s.setLane d l) ∧ l.remaining < (s.lane d).remaining := by
  refine ⟨.writeLead d 0, { s.lane d with
    lead := (s.lane d).lead.drop 1
    delivered := (s.lane d).delivered ++ (s.lane d).lead.take 1 }, ?_, ?_⟩
  · simp [step, htorn, Lane.writeLead, hlead]
  · have := List.length_pos_of_ne_nil hlead
    simp only [Lane.remaining, List.length_drop]
    omega

theorem exists_lead_ne_nil (h : ¬ s.Copying) : ∃ d, (s.lane d).lead ≠ [] := by
  by_cases hup : s.up.lead = []
  · exact ⟨.down, fun hdown => h ⟨hup, hdown⟩⟩
  · exact ⟨.up, hup⟩

def remaining (s : Splice) : Nat := s.up.remaining + s.down.remaining

theorem remaining_setLane_lt {d : Direction} {l : Lane} (h : l.remaining < (s.lane d).remaining) :
    (s.setLane d l).remaining < s.remaining := by
  cases d with
  | up => exact Nat.add_lt_add_right h _
  | down => exact Nat.add_lt_add_left h _

/-- From every state there is a way on that ends with both directions delivered: a copy that waits
for the other does not wait in vain. -/
theorem exists_delivering_run (htorn : s.torn = false) (h : s.Carries u v) :
    ∃ es t, StepRun.run step s es = some t ∧ t.torn = true ∧ t.Delivered u v := by
  induction hn : s.remaining using Nat.strong_induction_on generalizing s with
  | _ n ih =>
      have hmove : ∀ {d e l}, s.step e = some (s.setLane d l) →
          l.remaining < (s.lane d).remaining →
          ∃ es t, StepRun.run step s es = some t ∧ t.torn = true ∧ t.Delivered u v := by
        intro d e l hs hlt
        obtain ⟨es, t, hrun, ht⟩ := ih _ (hn ▸ remaining_setLane_lt hlt)
          ((torn_setLane d l).trans htorn) (h.step hs) rfl
        exact ⟨e :: es, t, by rw [StepRun.run_cons, hs]; exact hrun, ht⟩
      by_cases hcopying : s.Copying
      · by_cases hend : ∀ d, (s.lane d).AtEnd
        · refine ⟨[.finish .up], { s with torn := true }, ?_, rfl,
            (delivered_finish h hcopying (hend .up)).mpr (hend .down)⟩
          simp [StepRun.run, step, htorn, hcopying, hend .up]
        · obtain ⟨d, hd⟩ := not_forall.mp hend
          obtain ⟨e, l, hs, hlt⟩ := exists_move htorn hcopying hd
          exact hmove hs hlt
      · obtain ⟨d, hd⟩ := exists_lead_ne_nil hcopying
        obtain ⟨e, l, hs, hlt⟩ := exists_move_of_lead htorn hd
        exact hmove hs hlt

end Splice

/-- In all four helpers, in every run: everything is delivered in both directions before the sockets
are closed, exactly when no copy ends before the other could. -/
theorem splices_deliver (client upstream : List UInt8) (events : List Event) :
    (StepRun.AllStates Splice.step (Splice.Delivered client upstream)
        (plainTcpPassthrough client upstream) events ↔
      StepRun.AllSteps Splice.step Splice.OtherAtEnd
        (plainTcpPassthrough client upstream) events) ∧
    (∀ (method version : List Char) (headers : List (List Char × List Char)) (path : List Char)
        (leftover : List UInt8),
      StepRun.AllStates Splice.step
          (Splice.Delivered (Drive.utf8 (rewritePlainHttpRequestHead method version headers path) ++
            leftover ++ client) upstream)
          (plainHttpPassthroughResolved client upstream method version headers path leftover)
          events ↔
        StepRun.AllSteps Splice.step Splice.OtherAtEnd
          (plainHttpPassthroughResolved client upstream method version headers path leftover)
          events) ∧
    (∀ serverBytes : List UInt8,
      StepRun.AllStates Splice.step (Splice.Delivered client (serverBytes ++ upstream))
          (spliceAfterHandshake client upstream serverBytes) events ↔
        StepRun.AllSteps Splice.step Splice.OtherAtEnd
          (spliceAfterHandshake client upstream serverBytes) events) ∧
    (∀ clientHello : List UInt8,
      StepRun.AllStates Splice.step (Splice.Delivered (clientHello ++ client) upstream)
          (localBypassRawFallback client upstream clientHello) events ↔
        StepRun.AllSteps Splice.step Splice.OtherAtEnd
          (localBypassRawFallback client upstream clientHello) events) := by
  have hclient := Lane.carries_start [] client
  have hupstream := Lane.carries_start [] upstream
  refine ⟨Splice.delivered_iff ⟨hclient, hupstream⟩ rfl events,
    fun method version headers path leftover => ?_, fun serverBytes => ?_, fun clientHello => ?_⟩
  · exact Splice.delivered_iff ⟨Lane.carries_start _ client, hupstream⟩ rfl events
  · exact Splice.delivered_iff ⟨hclient, Lane.carries_start serverBytes upstream⟩ rfl events
  · exact Splice.delivered_iff ⟨Lane.carries_start clientHello client, hupstream⟩ rfl events

/-- As long as the sockets are open, both directions can still be delivered. -/
def Splice.CanDeliver (u v : List UInt8) (s : Splice) : Prop :=
  s.torn = false → ∃ es t, StepRun.run Splice.step s es = some t ∧ t.torn = true ∧ t.Delivered u v

theorem Splice.canDeliver_of_carries {s : Splice} {u v : List UInt8} (h : s.Carries u v)
    (events : List Event) : StepRun.AllStates Splice.step (Splice.CanDeliver u v) s events :=
  StepRun.allStates_of_inv (I := Splice.Carries u v) (fun _ _ _ hs hstep => hs.step hstep)
    (fun _ hs htorn => exists_delivering_run htorn hs) h events

/-- **No copy waits in vain**: in all four helpers, in every run, there is a way on from each state
before the sockets are closed that delivers everything in both directions. -/
theorem splices_can_deliver (client upstream : List UInt8) (events : List Event) :
    StepRun.AllStates Splice.step (Splice.CanDeliver client upstream)
      (plainTcpPassthrough client upstream) events ∧
    (∀ (method version : List Char) (headers : List (List Char × List Char)) (path : List Char)
        (leftover : List UInt8),
      StepRun.AllStates Splice.step
        (Splice.CanDeliver (Drive.utf8 (rewritePlainHttpRequestHead method version headers path) ++
          leftover ++ client) upstream)
        (plainHttpPassthroughResolved client upstream method version headers path leftover)
        events) ∧
    (∀ serverBytes : List UInt8,
      StepRun.AllStates Splice.step (Splice.CanDeliver client (serverBytes ++ upstream))
        (spliceAfterHandshake client upstream serverBytes) events) ∧
    (∀ clientHello : List UInt8,
      StepRun.AllStates Splice.step (Splice.CanDeliver (clientHello ++ client) upstream)
        (localBypassRawFallback client upstream clientHello) events) := by
  have hclient := Lane.carries_start [] client
  have hupstream := Lane.carries_start [] upstream
  refine ⟨Splice.canDeliver_of_carries ⟨hclient, hupstream⟩ events,
    fun method version headers path leftover => ?_, fun serverBytes => ?_, fun clientHello => ?_⟩
  · exact Splice.canDeliver_of_carries ⟨Lane.carries_start _ client, hupstream⟩ events
  · exact Splice.canDeliver_of_carries ⟨hclient, Lane.carries_start serverBytes upstream⟩ events
  · exact Splice.canDeliver_of_carries ⟨Lane.carries_start clientHello client, hupstream⟩ events

/-- A client that closes its side behind its request: its copy ends, and the answer is cut off. -/
theorem halfClose_cuts_off :
    ¬ ∀ (client upstream : List UInt8) (events : List Event),
      StepRun.AllStates Splice.step (Splice.Delivered client upstream)
        (plainTcpPassthrough client upstream) events := by
  intro h
  have hrun := StepRun.allStates_last
    (h [1] [2] [.send .up 0, .close .up, .read .up 0, .write .up 0, .finish .up])
    (t := ⟨⟨[], [], true, [], [], [1]⟩, ⟨[], [2], false, [], [], []⟩, true⟩) (by decide)
  exact absurd (hrun rfl).2.2 (by decide)

end Rahgozar.Proxy.Splices
