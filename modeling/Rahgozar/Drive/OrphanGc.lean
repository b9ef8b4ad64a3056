import Rahgozar.Drive.Wire
import Rahgozar.Lib.Maps
import Rahgozar.Lib.Run

set_option autoImplicit false

/-! # The reaper of the relay (`drive-relay/src/orphan_gc.rs`)

The session table holds a handle for each session: its driver task, and the instant at which the
session was last seen. `run_one_sweep` marks the sessions to evict under the read lock of the table
and removes them under the write lock. Meanwhile the poll workers and the drivers stamp the sessions
they work for; a stamp is two steps, since the clock is read before the mutex of the instant is
waited for. Instants are in nanoseconds.
-/

namespace Rahgozar.Drive

/-- Where `run_one_sweep` is, with its `now_i`, the sessions it has not looked at and those in
`to_evict`. -/
inductive Sweep where
  | asleep
  /-- It waits for the read lock. -/
  | starting (now : Nat)
  | scanning (now : Nat) (left toEvict : List SessionId)
  /-- The task of `sid` is not finished, and its instant is waited for. -/
  | probing (now : Nat) (sid : SessionId) (left toEvict : List SessionId)
  /-- The read lock is released, and the write lock is waited for. -/
  | marked (now : Nat) (toEvict : List SessionId)
  | evicting (now : Nat) (toEvict : List SessionId)

namespace Sweep

def toEvict : Sweep → List SessionId
  | asleep => []
  | starting _ => []
  | scanning _ _ toEvict => toEvict
  | probing _ _ _ toEvict => toEvict
  | marked _ toEvict => toEvict
  | evicting _ toEvict => toEvict

def now : Sweep → Nat
  | asleep => 0
  | starting now => now
  | scanning now _ _ => now
  | probing now _ _ _ => now
  | marked now _ => now
  | evicting now _ => now

/-- The sweep holds the write lock. -/
def removes : Sweep → Bool
  | evicting _ _ => true
  | _ => false

/-- The sweep holds the lock of the table, for reading or for writing. -/
def holdsLock : Sweep → Bool
  | scanning _ _ _ => true
  | probing _ _ _ _ => true
  | sweep => sweep.removes

end Sweep

/-- The part of `RelayState` that the reaper sees. The table gives the task of each session;
`stamps` are the stamps that wait for their mutex. -/
structure SessionTable where
  idleTimeoutSecs : Nat
  clock : Nat
  sessions : AList fun _ : SessionId => Nat
  nextTask : Nat
  lastSeen : Nat → Nat
  finished : Nat → Bool
  stamps : List (Nat × Nat)
  sweep : Sweep

namespace SessionTable

def start (idleTimeoutSecs : Nat) : SessionTable :=
  ⟨idleTimeoutSecs, 0, ∅, 0, fun _ => 0, fun _ => false, [], .asleep⟩

def idleThreshold (r : SessionTable) : Nat := r.idleTimeoutSecs * 10 ^ 9

/-- `spawn_session`: a session that is in the table is left alone. -/
def spawnSession (r : SessionTable) (sid : SessionId) : SessionTable :=
  if sid ∈ r.sessions then r
  else { r with
    sessions := r.sessions.insert sid r.nextTask
    lastSeen := Function.update r.lastSeen r.nextTask r.clock
    finished := Function.update r.finished r.nextTask false
    nextTask := r.nextTask + 1 }

/-- The next session of the scan: a finished one is marked at once. -/
def scan (r : SessionTable) (now : Nat) (left toEvict : List SessionId) : SessionTable :=
  match left with
  | [] =>
      if toEvict.isEmpty then { r with sweep := .asleep }
      else { r with sweep := .marked now toEvict }
  | sid :: left =>
      match r.sessions.lookup sid with
      | none => { r with sweep := .scanning now left toEvict }
      | some task =>
          if r.finished task then { r with sweep := .scanning now left (toEvict ++ [sid]) }
          else { r with sweep := .probing now sid left toEvict }

/-- The instant of an unfinished session has been read. -/
def probe (r : SessionTable) (now : Nat) (sid : SessionId) (left toEvict : List SessionId) :
    SessionTable :=
  match r.sessions.lookup sid with
  | none => { r with sweep := .scanning now left toEvict }
  | some task =>
      if r.idleThreshold < now - r.lastSeen task then
        { r with sweep := .scanning now left (toEvict ++ [sid]) }
      else { r with sweep := .scanning now left toEvict }

/-- The next mark is taken out of the table, and its task is aborted. -/
def evict (r : SessionTable) (now : Nat) (toEvict : List SessionId) : SessionTable :=
  match toEvict with
  | [] => { r with sweep := .asleep }
  | sid :: toEvict => { r with sessions := r.sessions.erase sid, sweep := .evicting now toEvict }

inductive Event where
  | tick (nanos : Nat)
  | spawnSession (sid : SessionId)
  /-- A worker or a driver reads the clock, to stamp a session. -/
  | stampRead (task : Nat)
  /-- The stamp with this index gets its mutex. -/
  | stampWrite (index : Nat)
  | taskFinishes (task : Nat)
  | sweepStart
  /-- The read lock; a hash table is scanned in some order. -/
  | readLock (order : List SessionId)
  | scan
  | probe
  | writeLock
  | evict

def step (r : SessionTable) : Event → Option SessionTable
  | .tick nanos => some { r with clock := r.clock + nanos }
  | .spawnSession sid => if r.sweep.holdsLock then none else some (r.spawnSession sid)
  | .stampRead task =>
      if task < r.nextTask then some { r with stamps := r.stamps ++ [(task, r.clock)] } else none
  | .stampWrite index =>
      (r.stamps[index]?).map fun (task, instant) => { r with
        lastSeen := Function.update r.lastSeen task instant
        stamps := r.stamps.eraseIdx index }
  | .taskFinishes task =>
      if task < r.nextTask then some { r with finished := Function.update r.finished task true }
      else none
  | .sweepStart =>
      match r.sweep with
      | .asleep => some { r with sweep := .starting r.clock }
      | _ => none
  | .readLock order =>
      match r.sweep with
      | .starting now =>
          if order.Perm r.sessions.keys then some { r with sweep := .scanning now order [] }
          else none
      | _ => none
  | .scan =>
      match r.sweep with
      | .scanning now left toEvict => some (r.scan now left toEvict)
      | _ => none
  | .probe =>
      match r.sweep with
      | .probing now sid left toEvict => some (r.probe now sid left toEvict)
      | _ => none
  | .writeLock =>
      match r.sweep with
      | .marked now toEvict => some { r with sweep := .evicting now toEvict }
      | _ => none
  | .evict =>
      match r.sweep with
      | .evicting now toEvict => some (r.evict now toEvict)
      | _ => none

/-! ## What is to hold -/

/-- The task has finished, or was last seen longer ago than the threshold. -/
def Dead (r : SessionTable) (task : Nat) : Prop :=
  r.finished task = true ∨ r.idleThreshold < r.clock - r.lastSeen task

/-- The session that a step takes out of the table. -/
def evicted (r : SessionTable) : Event → Option SessionId
  | .evict =>
      match r.sweep with
      | .evicting _ toEvict => toEvict.head?
      | _ => none
  | _ => none

/-- A step takes only dead sessions out of the table. -/
def EvictsDead (r : SessionTable) (e : Event) : Prop :=
  ∀ sid ∈ r.evicted e, ∀ task ∈ r.sessions.lookup sid, r.Dead task

instance decidableEvictsDead (r : SessionTable) (e : Event) : Decidable (r.EvictsDead e) :=
  inferInstanceAs (Decidable (∀ sid ∈ r.evicted e, ∀ task ∈ r.sessions.lookup sid,
    r.finished task = true ∨ r.idleThreshold < r.clock - r.lastSeen task))

/-- No session that is marked and has not finished is stamped with an instant that the sweep, by its
own clock, would have taken for life. -/
def Undisturbed (r : SessionTable) : Event → Prop
  | .stampWrite index =>
      ∀ stamp ∈ r.stamps[index]?, ∀ sid ∈ r.sweep.toEvict, ∀ task ∈ r.sessions.lookup sid,
        task = stamp.1 → r.finished task = true ∨ r.idleThreshold < r.sweep.now - stamp.2
  | _ => True

instance decidableUndisturbed (r : SessionTable) (e : Event) : Decidable (r.Undisturbed e) := by
  unfold Undisturbed
  split <;> infer_instance

/-! ## One step -/

variable {r r' : SessionTable}

/-- The session of `task` may be evicted by a sweep that began at `now`. -/
def Marks (r : SessionTable) (now task : Nat) : Prop :=
  r.finished task = true ∨ r.idleThreshold < now - r.lastSeen task

/-- The marked sessions are dead by the clock of the sweep; and until the sweep removes them, they
are in the table, so that none is spawned again under the mark of another. -/
structure Inv (r : SessionTable) : Prop where
  clock : r.sweep.now ≤ r.clock
  fresh : ∀ sid task, r.sessions.lookup sid = some task → task < r.nextTask
  marks : ∀ sid ∈ r.sweep.toEvict, ∀ task, r.sessions.lookup sid = some task →
    r.Marks r.sweep.now task
  kept : r.sweep.removes = false → ∀ sid ∈ r.sweep.toEvict, sid ∈ r.sessions

theorem start_inv (idleTimeoutSecs : Nat) : (start idleTimeoutSecs).Inv :=
  ⟨le_rfl, fun _ _ h => (by cases h), nofun, fun _ => nofun⟩

theorem Marks.dead {task : Nat} (h : r.Inv) (hmarks : r.Marks r.sweep.now task) : r.Dead task := by
  rcases hmarks with hfinished | hidle
  · exact .inl hfinished
  · right
    have hclock := h.clock
    omega

/-- Only the sweep moves, and what it marks is dead by its clock and in the table. -/
theorem Inv.setSweep (h : r.Inv) {sweep : Sweep} (hclock : sweep.now ≤ r.clock)
    (hmarks : ∀ sid ∈ sweep.toEvict, ∀ task, r.sessions.lookup sid = some task →
      r.Marks sweep.now task)
    (hkept : sweep.removes = false → ∀ sid ∈ sweep.toEvict, sid ∈ r.sessions) :
    Inv { r with sweep := sweep } :=
  ⟨hclock, h.fresh, hmarks, hkept⟩

/-- One more mark. -/
theorem Inv.mark (h : r.Inv) {now task : Nat} {sid : SessionId} {left toEvict : List SessionId}
    (hnow : r.sweep.now = now) (hevict : r.sweep.toEvict = toEvict)
    (hkeeps : r.sweep.removes = false) (htask : r.sessions.lookup sid = some task)
    (hmark : r.Marks now task) :
    Inv { r with sweep := .scanning now left (toEvict ++ [sid]) } := by
  subst hnow hevict
  refine h.setSweep h.clock ?_ ?_
  · intro k hk other hother
    rcases List.mem_append.mp hk with hk | hk
    · exact h.marks k hk other hother
    · rw [List.mem_singleton.mp hk, htask] at hother
      cases hother
      exact hmark
  · intro _ k hk
    rcases List.mem_append.mp hk with hk | hk
    · exact h.kept hkeeps k hk
    · rw [List.mem_singleton.mp hk, ← AList.lookup_isSome, htask]
      rfl

/-- The sweep goes on with the marks it has. -/
theorem Inv.sameMarks (h : r.Inv) {sweep : Sweep} (hnow : sweep.now = r.sweep.now)
    (hevict : sweep.toEvict = r.sweep.toEvict) (hkeeps : r.sweep.removes = false) :
    Inv { r with sweep := sweep } := by
  refine h.setSweep (hnow ▸ h.clock) ?_ ?_
  · rw [hnow, hevict]
    exact h.marks
  · intro _
    rw [hevict]
    exact h.kept hkeeps

/-- No marks. -/
theorem Inv.noMarks (h : r.Inv) {sweep : Sweep} (hclock : sweep.now ≤ r.clock)
    (hevict : sweep.toEvict = []) : Inv { r with sweep := sweep } := by
  refine h.setSweep hclock ?_ ?_
  · rw [hevict]
    exact fun _ hk => nomatch hk
  · rw [hevict]
    exact fun _ _ hk => nomatch hk

theorem scan_inv (h : r.Inv) {now : Nat} {left toEvict : List SessionId}
    (hsweep : r.sweep = .scanning now left toEvict) : (r.scan now left toEvict).Inv := by
  have hnow : r.sweep.now = now := by rw [hsweep]; rfl
  have hevict : r.sweep.toEvict = toEvict := by rw [hsweep]; rfl
  have hkeeps : r.sweep.removes = false := by rw [hsweep]; rfl
  unfold scan
  split
  · split_ifs with hempty
    · exact h.noMarks (Nat.zero_le _) rfl
    · exact h.sameMarks hnow.symm hevict.symm hkeeps
  · split
    · exact h.sameMarks hnow.symm hevict.symm hkeeps
    · rename_i task htask
      split_ifs with hfinished
      · exact h.mark hnow hevict hkeeps htask (.inl hfinished)
      · exact h.sameMarks hnow.symm hevict.symm hkeeps

theorem probe_inv (h : r.Inv) {now : Nat} {sid : SessionId} {left toEvict : List SessionId}
    (hsweep : r.sweep = .probing now sid left toEvict) : (r.probe now sid left toEvict).Inv := by
  have hnow : r.sweep.now = now := by rw [hsweep]; rfl
  have hevict : r.sweep.toEvict = toEvict := by rw [hsweep]; rfl
  have hkeeps : r.sweep.removes = false := by rw [hsweep]; rfl
  unfold probe
  split
  · exact h.sameMarks hnow.symm hevict.symm hkeeps
  · rename_i task htask
    split_ifs with hidle
    · exact h.mark hnow hevict hkeeps htask (.inr hidle)
    · exact h.sameMarks hnow.symm hevict.symm hkeeps

theorem evict_inv (h : r.Inv) {now : Nat} {toEvict : List SessionId}
    (hsweep : r.sweep = .evicting now toEvict) : (r.evict now toEvict).Inv := by
  have hnow : r.sweep.now = now := by rw [hsweep]; rfl
  have hevict : r.sweep.toEvict = toEvict := by rw [hsweep]; rfl
  unfold evict
  split
  · exact h.noMarks (Nat.zero_le _) rfl
  · rename_i sid rest
    subst hnow
    refine ⟨h.clock, ?_, ?_, nofun⟩
    · intro k task hk
      exact h.fresh k task (AList.lookup_erase_eq_some.mp hk).2
    · intro k hk task htask
      have hmem : k ∈ r.sweep.toEvict := by
        rw [hevict]
        exact List.mem_cons_of_mem _ hk
      exact h.marks k hmem task (AList.lookup_erase_eq_some.mp htask).2

/-- A new session is not among the marked ones, which are in the table. -/
theorem spawnSession_inv (h : r.Inv) (hlock : r.sweep.holdsLock = false) (sid : SessionId) :
    (r.spawnSession sid).Inv := by
  have hkeeps : r.sweep.removes = false := by
    cases hsweep : r.sweep <;> rw [hsweep] at hlock <;> first | rfl | cases hlock
  unfold spawnSession
  split_ifs with hmem
  · exact h
  · have hother : ∀ k, k ∈ r.sessions →
        (r.sessions.insert sid r.nextTask).lookup k = r.sessions.lookup k :=
      fun k hk => AList.lookup_insert_ne fun heq => hmem (heq ▸ hk)
    refine ⟨h.clock, ?_, ?_, ?_⟩
    · intro k task hk
      rcases eq_or_ne k sid with rfl | hne
      · rw [AList.lookup_insert] at hk
        cases hk
        exact Nat.lt_succ_self _
      · rw [AList.lookup_insert_ne hne] at hk
        exact Nat.lt_succ_of_lt (h.fresh k task hk)
    · intro k hk task htask
      rw [hother k (h.kept hkeeps k hk)] at htask
      have hne : task ≠ r.nextTask := Nat.ne_of_lt (h.fresh k task htask)
      rcases h.marks k hk task htask with hfinished | hidle
      · left
        exact (Function.update_of_ne hne _ _).trans hfinished
      · right
        show r.idleThreshold < r.sweep.now - Function.update r.lastSeen r.nextTask r.clock task
        rwa [Function.update_of_ne hne]
    · intro _ k hk
      exact (AList.mem_insert _).mpr (.inr (h.kept hkeeps k hk))

theorem stampWrite_inv (h : r.Inv) {index task instant : Nat}
    (hstamp : r.stamps[index]? = some (task, instant)) (hC : r.Undisturbed (.stampWrite index)) :
    Inv { r with
      lastSeen := Function.update r.lastSeen task instant, stamps := r.stamps.eraseIdx index } := by
  refine ⟨h.clock, h.fresh, ?_, h.kept⟩
  intro k hk other hother
  rcases eq_or_ne other task with rfl | hne
  · rcases hC (other, instant) hstamp k hk other hother rfl with hfinished | hidle
    · exact .inl hfinished
    · right
      show r.idleThreshold < r.sweep.now - Function.update r.lastSeen other instant other
      rwa [Function.update_self]
  · rcases h.marks k hk other hother with hfinished | hidle
    · exact .inl hfinished
    · right
      show r.idleThreshold < r.sweep.now - Function.update r.lastSeen task instant other
      rwa [Function.update_of_ne hne]

theorem taskFinishes_inv (h : r.Inv) (task : Nat) :
    Inv { r with finished := Function.update r.finished task true } := by
  refine ⟨h.clock, h.fresh, ?_, h.kept⟩
  intro k hk other hother
  rcases h.marks k hk other hother with hfinished | hidle
  · left
    show Function.update r.finished task true other = true
    rcases eq_or_ne other task with rfl | hne
    · exact Function.update_self ..
    · rwa [Function.update_of_ne hne]
  · exact .inr hidle

/-- **One step.** -/
theorem step_inv {e : Event} (h : r.Inv) (hC : r.Undisturbed e) (hs : r.step e = some r') :
    r'.Inv := by
  cases e with
  | tick nanos =>
      cases hs
      exact ⟨Nat.le_add_right_of_le h.clock, h.fresh, h.marks, h.kept⟩
  | spawnSession sid =>
      unfold step at hs
      dsimp only at hs
      split_ifs at hs with hlock
      cases hs
      exact spawnSession_inv h (Bool.eq_false_of_not_eq_true hlock) sid
  | stampRead task =>
      obtain ⟨-, hr⟩ := Option.ite_none_right_eq_some.mp hs
      cases hr
      exact ⟨h.clock, h.fresh, h.marks, h.kept⟩
  | stampWrite index =>
      obtain ⟨⟨task, instant⟩, hstamp, rfl⟩ := Option.map_eq_some_iff.mp hs
      exact stampWrite_inv h hstamp hC
  | taskFinishes task =>
      obtain ⟨-, hr⟩ := Option.ite_none_right_eq_some.mp hs
      cases hr
      exact taskFinishes_inv h task
  | sweepStart =>
      unfold step at hs
      dsimp only at hs
      split at hs
      · cases hs
        exact h.noMarks le_rfl rfl
      · cases hs
  | readLock order =>
      unfold step at hs
      dsimp only at hs
      split at hs
      · rename_i now hsweep
        obtain ⟨-, hr⟩ := Option.ite_none_right_eq_some.mp hs
        cases hr
        have hclock := h.clock
        rw [hsweep] at hclock
        exact h.noMarks hclock rfl
      · cases hs
  | scan =>
      unfold step at hs
      dsimp only at hs
      split at hs
      · rename_i hsweep
        cases hs
        exact scan_inv h hsweep
      · cases hs
  | probe =>
      unfold step at hs
      dsimp only at hs
      split at hs
      · rename_i hsweep
        cases hs
        exact probe_inv h hsweep
      · cases hs
  | writeLock =>
      unfold step at hs
      dsimp only at hs
      split at hs
      · rename_i now toEvict hsweep
        cases hs
        exact h.sameMarks (by rw [hsweep]; rfl) (by rw [hsweep]; rfl) (by rw [hsweep]; rfl)
      · cases hs
  | evict =>
      unfold step at hs
      dsimp only at hs
      split at hs
      · rename_i hsweep
        cases hs
        exact evict_inv h hsweep
      · cases hs

theorem evictsDead_of_inv {e : Event} (h : r.Inv) : r.EvictsDead e := by
  intro sid hsid task htask
  refine Marks.dead h (h.marks sid ?_ task htask)
  cases e with
  | evict =>
      unfold evicted at hsid
      dsimp only at hsid
      split at hsid
      · rename_i now toEvict hsweep
        rw [hsweep]
        exact List.mem_of_mem_head? hsid
      · cases hsid
  | _ => cases hsid

/-! ## Whole runs -/

/-- **The reaper evicts only dead sessions** in every run in which no session is seen again between
its mark and its removal. -/
theorem sweep_evictsDead (idleTimeoutSecs : Nat) (es : List Event)
    (h : StepRun.AllSteps step Undisturbed (start idleTimeoutSecs) es) :
    StepRun.AllSteps step EvictsDead (start idleTimeoutSecs) es :=
  StepRun.allSteps_of_inv (fun _ _ _ => step_inv) (fun _ _ _ hp _ _ => evictsDead_of_inv hp)
    (start_inv idleTimeoutSecs) h

/-- A session is spawned; after eleven idle seconds a sweep marks it. -/
def marksIdle (sid : SessionId) : List Event :=
  [.spawnSession sid, .tick (11 * 10 ^ 9), .sweepStart, .readLock [sid], .scan, .probe, .scan]

/-- With a timeout of ten seconds it is evicted; that it was stamped before the sweep began would
have kept it, and does not disturb the sweep. -/
theorem sweep_evictsDead_idle :
    let sid : SessionId := ⟨List.replicate 16 7, rfl⟩
    let es := .spawnSession sid :: .stampRead 0 :: .stampWrite 0 :: marksIdle sid
      ++ [.writeLock, .evict]
    StepRun.AllSteps step Undisturbed (start 10) es ∧
      StepRun.AllSteps step EvictsDead (start 10) es :=
  ⟨by decide, sweep_evictsDead 10 _ (by decide)⟩

/-- A frame arrives after the mark, and the session is evicted although it has just been seen. -/
theorem sweep_evicts_live :
    let sid : SessionId := ⟨List.replicate 16 7, rfl⟩
    ¬ StepRun.AllSteps step EvictsDead (start 10)
      (marksIdle sid ++ [.stampRead 0, .stampWrite 0, .writeLock, .evict]) := by
  decide

end SessionTable

end Rahgozar.Drive
