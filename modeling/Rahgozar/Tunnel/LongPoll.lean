import Rahgozar.Lib.Run

set_option autoImplicit false

/-! # Waiting for any session (`wait_for_any_drainable` in `src/main.rs` of the tunnel node)

A batch that has nothing to answer with waits for the first of its sessions that has data or is at
its end. It spawns a watcher for each, looks at all of them once by itself, and sleeps until a
watcher signals or the deadline is there. The waits of all batches run beside the readers of the
sessions and beside whoever drains a buffer. Watchers and waits are known by the order in which
they came; which of the tasks that sleep on a `Notify` is woken is left open, and a watcher that was
aborted goes on until the runtime drops it. `wait_for_any_udp_drainable` has the same body, with
packets for bytes.
-/

namespace Rahgozar.Tunnel

/-- A session as the waits see it. Its reader is telling between a change and the `notify_one` after
it; the permit is the one that the `Notify` keeps. -/
structure PolledInner where
  eof : Bool
  buffered : Nat
  telling : Bool
  permit : Bool

/-- Where a watcher is in its loop. -/
inductive WatcherPhase where
  | calling
  | parked
  | notified
  | readsEof
  | locksBuffer
  | signals
  | finished
  deriving DecidableEq

structure PollWatcher where
  inner : Nat
  wait : Nat
  phase : WatcherPhase

def PollWatcher.setPhase (phase : WatcherPhase) (v : PollWatcher) : PollWatcher := { v with phase }

/-- Where a wait is: in `is_any_drainable`, at one of its sessions, or in the `select!`. -/
inductive WaitPhase where
  | checksEof (k : Nat)
  | checksBuffer (k : Nat)
  | sleeps
  | returned
  deriving DecidableEq

/-- The channel of a wait has room for one signal. -/
structure PollWait where
  inners : List Nat
  signal : Bool
  phase : WaitPhase

def PollWait.setPhase (phase : WaitPhase) (W : PollWait) : PollWait := { W with phase }

def PollWait.trySend (W : PollWait) : PollWait := { W with signal := true }

structure LongPolls where
  inner : Nat → PolledInner
  watchers : List PollWatcher
  waits : List PollWait

/-- What can happen. `leave` is the deadline, or the caller's `select!` dropping the wait. -/
inductive PollEvent where
  | fill (i n : Nat)
  | close (i : Nat)
  | notify (i : Nat) (woken : Option Nat)
  | drain (i n : Nat)
  | call (inners : List Nat)
  | watch (k : Nat)
  | drop (k : Nat) (woken : Option Nat)
  | check (w : Nat)
  | recv (w : Nat)
  | leave (w : Nat)

namespace LongPolls

def start : LongPolls := ⟨fun _ => ⟨false, 0, false, false⟩, [], []⟩

variable (s : LongPolls)

def setInner (i : Nat) (f : PolledInner → PolledInner) : LongPolls :=
  { s with inner := Function.update s.inner i (f (s.inner i)) }

def setPhase (k : Nat) (phase : WatcherPhase) : LongPolls :=
  { s with watchers := s.watchers.modify k (PollWatcher.setPhase phase) }

def setWait (w : Nat) (phase : WaitPhase) : LongPolls :=
  { s with waits := s.waits.modify w (PollWait.setPhase phase) }

/-- `Notify::notify_one`: wakes a task that sleeps, or keeps one permit. -/
def notifyOne (i : Nat) : Option Nat → Option LongPolls
  | some k =>
      (s.watchers[k]?).bind fun v =>
        if v.inner = i ∧ v.phase = .parked then some (s.setPhase k .notified) else none
  | none =>
      if ∀ v ∈ s.watchers, v.inner = i → v.phase ≠ .parked then
        some (s.setInner i fun r => { r with permit := true })
      else none

/-- `wait_for_any_drainable` up to its first look. -/
def call (inners : List Nat) : LongPolls :=
  { s with
    watchers := s.watchers ++ inners.map fun i => ⟨i, s.waits.length, .calling⟩
    waits := s.waits ++ [⟨inners, false, if inners.isEmpty then .returned else .checksEof 0⟩] }

/-- A watcher goes on. -/
def watch (k : Nat) (v : PollWatcher) : Option LongPolls :=
  match v.phase with
  | .calling =>
      if (s.inner v.inner).permit then
        some ((s.setPhase k .readsEof).setInner v.inner fun r => { r with permit := false })
      else some (s.setPhase k .parked)
  | .notified => some (s.setPhase k .readsEof)
  | .readsEof =>
      some (s.setPhase k (if (s.inner v.inner).eof then .signals else .locksBuffer))
  | .locksBuffer =>
      -- a permit from before a drain: the watcher calls again
      some (s.setPhase k (if (s.inner v.inner).buffered = 0 then .calling else .signals))
  | .signals =>
      some { s.setPhase k .finished with waits := s.waits.modify v.wait PollWait.trySend }
  | .parked | .finished => none

/-- `AbortOnDrop`: a task that was woken and has not run since hands its wake-up on. -/
def dropWatcher (k : Nat) (v : PollWatcher) (woken : Option Nat) : Option LongPolls :=
  if v.phase = .finished then none
  else if v.phase = .notified then (s.setPhase k .finished).notifyOne v.inner woken
  else some (s.setPhase k .finished)

/-- `is_any_drainable`, one access at a time. -/
def check (w : Nat) (W : PollWait) : Option LongPolls :=
  match W.phase with
  | .checksEof k =>
      match W.inners[k]? with
      | none => some (s.setWait w .sleeps)
      | some i => some (s.setWait w (if (s.inner i).eof then .returned else .checksBuffer k))
  | .checksBuffer k =>
      (W.inners[k]?).map fun i =>
        s.setWait w (if (s.inner i).buffered = 0 then .checksEof (k + 1) else .returned)
  | .sleeps | .returned => none

def step : PollEvent → Option LongPolls
  | .fill i n =>
      if (s.inner i).telling ∨ n = 0 then none
      else some (s.setInner i fun r => { r with buffered := r.buffered + n, telling := true })
  | .close i =>
      if (s.inner i).telling then none
      else some (s.setInner i fun r => { r with eof := true, telling := true })
  | .notify i woken =>
      if (s.inner i).telling then
        (s.notifyOne i woken).map fun t => t.setInner i fun r => { r with telling := false }
      else none
  | .drain i n =>
      if n ≤ (s.inner i).buffered then
        some (s.setInner i fun r => { r with buffered := r.buffered - n })
      else none
  | .call inners => some (s.call inners)
  | .watch k => (s.watchers[k]?).bind (s.watch k)
  | .drop k woken =>
      (s.watchers[k]?).bind fun v =>
        if (s.waits[v.wait]?).any fun W => decide (W.phase = .returned) then
          s.dropWatcher k v woken
        else none
  | .check w => (s.waits[w]?).bind (s.check w)
  | .recv w =>
      (s.waits[w]?).bind fun W =>
        if W.phase = .sleeps ∧ W.signal = true then some (s.setWait w .returned) else none
  | .leave w =>
      (s.waits[w]?).bind fun W =>
        if W.phase = .returned then none else some (s.setWait w .returned)

end LongPolls

end Rahgozar.Tunnel
