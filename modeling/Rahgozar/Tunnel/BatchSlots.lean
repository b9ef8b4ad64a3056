import Rahgozar.Lib.Run
import Rahgozar.Tunnel.FireBatch

set_option autoImplicit false

/-! # Slots, answers and second requests

What holds over every run of the tasks of `fire_batch`. The semaphores of a deployment name just
the tasks that hold their permits or stand in their lines, so no permit is lost and none is given
twice. Idle batches stand in no line for a slot, so none of them comes before an active batch that
waits.
-/

namespace Rahgozar.Tunnel

open Fronter (Client)
open Fronter.Network (Recorded recorded_learn)

variable {Reply : Type}

namespace BatchTask

/-- The task has a slot. -/
def holdsTotal (t : BatchTask Reply) : Bool :=
  t.phase = .running || t.phase = .answered || t.phase = .leaving

/-- The task has an idle permit. -/
def holdsIdle (t : BatchTask Reply) : Bool :=
  t.isIdle && (t.phase = .spinning || t.phase = .running || t.phase = .answered)

def waitsTotal (t : BatchTask Reply) : Bool := !t.isIdle && t.phase = .queued

def waitsIdle (t : BatchTask Reply) : Bool := t.isIdle && t.phase = .idleQueued

/-- The task has not sent its batch yet. -/
def early (t : BatchTask Reply) : Bool :=
  t.phase = .spawned || t.phase = .idleQueued || t.phase = .spinning || t.phase = .queued

/-- The task sends nothing any more. -/
def through (t : BatchTask Reply) : Bool :=
  t.phase = .answered || t.phase = .leaving || t.phase = .done

/-- How many requests the task has sent. -/
def sent (t : BatchTask Reply) : Nat := t.history.length + if t.phase = .running then 1 else 0

/-- What the task should have answered. -/
def delivered (t : BatchTask Reply) : List (Reply × BatchedReplyResult) :=
  if t.through then t.history.getLast?.elim [] t.deliver else []

/-- The task of the deployment is of this kind. -/
def isOf (d : String) (p : BatchTask Reply → Bool) (t : BatchTask Reply) : Bool :=
  t.scriptId = d && p t

variable {t u : BatchTask Reply} {d : String} {p : BatchTask Reply → Bool}

@[simp] theorem scriptId_setPhase (phase : BatchPhase) (t : BatchTask Reply) :
    (setPhase phase t).scriptId = t.scriptId := rfl

@[simp] theorem isIdle_setPhase (phase : BatchPhase) (t : BatchTask Reply) :
    (setPhase phase t).isIdle = t.isIdle := rfl

@[simp] theorem phase_setPhase (phase : BatchPhase) (t : BatchTask Reply) :
    (setPhase phase t).phase = phase := rfl

@[simp] theorem scriptId_setResult (phase : BatchPhase) (r : Attempt) (t : BatchTask Reply) :
    (setResult phase r t).scriptId = t.scriptId := rfl

@[simp] theorem isIdle_setResult (phase : BatchPhase) (r : Attempt) (t : BatchTask Reply) :
    (setResult phase r t).isIdle = t.isIdle := rfl

@[simp] theorem phase_setResult (phase : BatchPhase) (r : Attempt) (t : BatchTask Reply) :
    (setResult phase r t).phase = phase := rfl

theorem isOf_iff : t.isOf d p = true ↔ t.scriptId = d ∧ p t = true := by
  show (decide (t.scriptId = d) && p t) = true ↔ _
  rw [Bool.and_eq_true, decide_eq_true_eq]

theorem isOf_other (h : t.scriptId ≠ d) : t.isOf d p = false :=
  Bool.eq_false_iff.mpr fun hof => h (isOf_iff.mp hof).1

theorem isOf_congr (hd : u.scriptId = t.scriptId) (hp : p u = p t) : u.isOf d p = t.isOf d p := by
  rw [Bool.eq_iff_iff, isOf_iff, isOf_iff, hd, hp]

end BatchTask

namespace Dispatcher

open BatchTask

/-- How many tasks of a deployment are of this kind. -/
def count (s : Dispatcher Reply) (d : String) (p : BatchTask Reply → Bool) : Nat :=
  s.tasks.countP (isOf d p)

/-! ## What is to hold -/

/-- The slots of a deployment: none is lost, there are 30, the idle batches have 24 of them at most
until they end, and a batch waits only while all the permits it waits for are taken. -/
structure SlotsKept (s : Dispatcher Reply) (d : String) : Prop where
  accounted : (s.sems d).total.holders.length = s.count d holdsTotal ∧
    (s.sems d).idle.holders.length = s.count d holdsIdle
  slots : s.count d holdsTotal ≤ concurrencyPerDeployment
  idle : s.count d holdsIdle ≤ idleConcurrencyPerDeployment
  waits : ∀ t ∈ s.tasks, t.scriptId = d → t.waitsTotal = true →
    s.count d holdsTotal = concurrencyPerDeployment ∧
      reservedActivePerDeployment ≤ s.count d fun t => t.holdsTotal && !t.holdsIdle
  waitsIdle : ∀ t ∈ s.tasks, t.scriptId = d → t.waitsIdle = true →
    s.count d holdsIdle = idleConcurrencyPerDeployment

/-- The step gives no slot to an idle batch while an active batch of the deployment waits. -/
def ActiveFirst (s : Dispatcher Reply) (e : BatchStep Reply) : Prop :=
  ∀ (s' : Dispatcher Reply) (i : Nat) (t t' : BatchTask Reply),
    s.step e = some s' → s.tasks[i]? = some t → s'.tasks[i]? = some t' →
    t.isIdle = true → t.holdsTotal = false → t'.holdsTotal = true →
    ∀ u ∈ s.tasks, u.scriptId = t.scriptId → u.waitsTotal = false

/-- The channels answered are those of the tasks that are through with their requests, each once,
with the result of the last request. -/
def AnsweredOnce (s : Dispatcher Reply) : Prop := s.answers.Perm (s.tasks.flatMap delivered)

/-- A batch is sent twice at most, and a second time only if it is safe to replay, its deployment
has said that it supports replays, and nobody knows what became of the first request. -/
def ResentSafely (c : Client) (t : BatchTask Reply) : Prop :=
  t.sent ≤ 2 ∧ (2 ≤ t.sent → batchIsReplaySafe t.dataOps = true ∧
    t.history.head?.any ambiguousBatchFailure = true ∧
    ∃ caps, (t.scriptId, caps) ∈ c.heard ∧ caps &&& 2 ≠ 0)

/-! ## The semaphores name the tasks -/

structure Kept (s : Dispatcher Reply) (d : String) : Prop where
  holders : Roster (s.sems d).total.holders s.tasks (isOf d holdsTotal)
  queue : Roster (s.sems d).total.waiters s.tasks (isOf d waitsTotal)
  idleHolders : Roster (s.sems d).idle.holders s.tasks (isOf d holdsIdle)
  idleQueue : Roster (s.sems d).idle.waiters s.tasks (isOf d BatchTask.waitsIdle)

variable {s s' : Dispatcher Reply} {d : String} {i : Nat} {t u : BatchTask Reply}
  {phase : BatchPhase} {f : BatchTask Reply → BatchTask Reply}

theorem of_inPhase (h : s.inPhase i phase = some t) : s.tasks[i]? = some t ∧ t.phase = phase := by
  obtain ⟨ht, hp⟩ := Option.filter_eq_some_iff.mp h
  exact ⟨ht, of_decide_eq_true hp⟩

/-- A batch of another deployment does something. -/
theorem Kept.other (h : s.Kept d) (hsems : s'.sems d = s.sems d)
    (htasks : s'.tasks = s.tasks.modify i f) (ht : s.tasks[i]? = some t)
    (hd : t.scriptId ≠ d) (hf : (f t).scriptId = t.scriptId) : s'.Kept d := by
  have hnot : ∀ p, (f t).isOf d p = t.isOf d p := by
    intro p
    rw [isOf_other hd, isOf_other (hf ▸ hd)]
  refine ⟨?_, ?_, ?_, ?_⟩ <;> rw [hsems, htasks]
  · exact h.holders.modify ht (hnot _)
  · exact h.queue.modify ht (hnot _)
  · exact h.idleHolders.modify ht (hnot _)
  · exact h.idleQueue.modify ht (hnot _)

/-- The slots are kept where the semaphores name the tasks. -/
theorem Kept.slotsKept (h : s.Kept d) : s.SlotsKept d := by
  have hslots : s.count d holdsTotal = (s.sems d).total.holders.length := h.holders.length_eq.symm
  have hidle : s.count d holdsIdle = (s.sems d).idle.holders.length := h.idleHolders.length_eq.symm
  refine ⟨⟨hslots.symm, hidle.symm⟩, hslots ▸ (s.sems d).total.le, hidle ▸ (s.sems d).idle.le,
    fun t ht hd hw => ?_, fun t ht hd hw => ?_⟩
  · obtain ⟨i, hi⟩ := List.mem_iff_getElem?.mp ht
    have hmem := (h.queue.mem i).mpr ⟨t, hi, isOf_iff.mpr ⟨hd, hw⟩⟩
    have hfull := hslots.trans ((s.sems d).total.full (List.ne_nil_of_mem hmem))
    refine ⟨hfull, ?_⟩
    -- of the 30 that have a slot 24 at most have an idle permit
    have hsplit : s.count d holdsTotal =
        s.count d (fun t => t.holdsTotal && t.holdsIdle) +
          s.count d fun t => t.holdsTotal && !t.holdsIdle := by
      unfold count
      rw [List.countP_eq_countP_filter_add _ _ holdsIdle, List.countP_filter, List.countP_filter]
      congr 1 <;> refine List.countP_congr fun t _ => ?_ <;>
        simp [isOf, Bool.and_assoc]
    have hle : s.count d (fun t => t.holdsTotal && t.holdsIdle) ≤ s.count d holdsIdle := by
      refine List.countP_mono_left fun t _ hp => ?_
      obtain ⟨hd, hboth⟩ := isOf_iff.mp hp
      exact isOf_iff.mpr ⟨hd, (Bool.and_eq_true _ _ ▸ hboth).2⟩
    have hbound := hidle ▸ (s.sems d).idle.le
    have hsum : idleConcurrencyPerDeployment + reservedActivePerDeployment =
      concurrencyPerDeployment := rfl
    omega
  · obtain ⟨i, hi⟩ := List.mem_iff_getElem?.mp ht
    have hmem := (h.idleQueue.mem i).mpr ⟨t, hi, isOf_iff.mpr ⟨hd, hw⟩⟩
    exact hidle.trans ((s.sems d).idle.full (List.ne_nil_of_mem hmem))

/-! ## One step -/

theorem kept_fire (h : s.Kept d) {t : BatchTask Reply} (hphase : t.phase = .spawned) :
    Kept { s with tasks := s.tasks ++ [t] } d := by
  exact ⟨h.holders.append (by simp [isOf, holdsTotal, hphase]),
    h.queue.append (by simp [isOf, waitsTotal, hphase]),
    h.idleHolders.append (by simp [isOf, holdsIdle, hphase]),
    h.idleQueue.append (by simp [isOf, BatchTask.waitsIdle, hphase])⟩

theorem kept_enter (h : s.Kept t.scriptId) (ht : s.tasks[i]? = some t)
    (hphase : t.phase = .spawned) : (s.enter i t).Kept t.scriptId := by
  unfold enter
  by_cases hidle : t.isIdle = true
  · rw [if_pos hidle]
    rcases (s.sems t.scriptId).idle.acquire_cases i with
      ⟨hfree, hholders, hwaiters⟩ | ⟨hfull, hholders, hwaiters⟩
    · rw [if_pos hfree]
      refine ⟨?_, ?_, ?_, ?_⟩ <;>
        simp only [setPhase, setIdle, Function.update_self, hholders, hwaiters]
      · exact h.holders.modify ht (by simp [isOf, holdsTotal, hphase])
      · exact h.queue.modify ht (by simp [isOf, waitsTotal, hphase])
      · exact h.idleHolders.cons ht (by simp [isOf, holdsIdle, hphase])
          (by simp [isOf, holdsIdle, hidle])
      · exact h.idleQueue.modify ht (by simp [isOf, BatchTask.waitsIdle, hphase])
    · rw [if_neg hfull.not_lt]
      refine ⟨?_, ?_, ?_, ?_⟩ <;>
        simp only [setPhase, setIdle, Function.update_self, hholders, hwaiters]
      · exact h.holders.modify ht (by simp [isOf, holdsTotal, hphase])
      · exact h.queue.modify ht (by simp [isOf, waitsTotal, hphase])
      · exact h.idleHolders.modify ht (by simp [isOf, holdsIdle, hphase])
      · exact h.idleQueue.concat ht (by simp [isOf, BatchTask.waitsIdle, hphase])
          (by simp [isOf, BatchTask.waitsIdle, hidle])
  · rw [if_neg hidle]
    rw [Bool.not_eq_true] at hidle
    rcases (s.sems t.scriptId).total.acquire_cases i with
      ⟨hfree, hholders, hwaiters⟩ | ⟨hfull, hholders, hwaiters⟩
    · rw [if_pos hfree]
      refine ⟨?_, ?_, ?_, ?_⟩ <;>
        simp only [setPhase, setTotal, Function.update_self, hholders, hwaiters]
      · exact h.holders.cons ht (by simp [isOf, holdsTotal, hphase]) (by simp [isOf, holdsTotal])
      · exact h.queue.modify ht (by simp [isOf, waitsTotal, hphase])
      · exact h.idleHolders.modify ht (by simp [isOf, holdsIdle, hphase, hidle])
      · exact h.idleQueue.modify ht (by simp [isOf, BatchTask.waitsIdle, hphase])
    · rw [if_neg hfull.not_lt]
      refine ⟨?_, ?_, ?_, ?_⟩ <;>
        simp only [setPhase, setTotal, Function.update_self, hholders, hwaiters]
      · exact h.holders.modify ht (by simp [isOf, holdsTotal, hphase])
      · exact h.queue.concat ht (by simp [isOf, waitsTotal, hphase])
          (by simp [isOf, waitsTotal, hidle])
      · exact h.idleHolders.modify ht (by simp [isOf, holdsIdle, hphase])
      · exact h.idleQueue.modify ht (by simp [isOf, BatchTask.waitsIdle, hphase])

theorem kept_tryTotal (h : s.Kept t.scriptId) (ht : s.tasks[i]? = some t)
    (hphase : t.phase = .spinning) {total : FairSemaphore Nat concurrencyPerDeployment}
    (htry : (s.sems t.scriptId).total.tryAcquire i = some total) :
    ((s.setTotal t.scriptId total).setPhase i .running).Kept t.scriptId := by
  obtain ⟨-, hholders, hwaiters⟩ := FairSemaphore.of_tryAcquire htry
  refine ⟨?_, ?_, ?_, ?_⟩ <;>
    simp only [setPhase, setTotal, Function.update_self, hholders, hwaiters]
  · exact h.holders.cons ht (by simp [isOf, holdsTotal, hphase]) (by simp [isOf, holdsTotal])
  · exact h.queue.modify ht (by simp [isOf, waitsTotal, hphase])
  · exact h.idleHolders.modify ht (by simp [isOf, holdsIdle, hphase])
  · exact h.idleQueue.modify ht (by simp [isOf, BatchTask.waitsIdle, hphase])

theorem kept_setResult (h : s.Kept d) (ht : s.tasks[i]? = some t) (hphase : t.phase = .running)
    {phase : BatchPhase} (hnext : phase = .running ∨ phase = .answered) (r : Attempt)
    (hsems : s'.sems = s.sems)
    (htasks : s'.tasks = s.tasks.modify i (BatchTask.setResult phase r)) : s'.Kept d := by
  have hstill : ∀ p : BatchTask Reply → Bool,
      p (BatchTask.setResult phase r t) = p t →
      isOf d p (BatchTask.setResult phase r t) = isOf d p t := fun _ => isOf_congr rfl
  refine ⟨?_, ?_, ?_, ?_⟩ <;> rw [hsems, htasks]
  · exact h.holders.modify ht
      (hstill _ (by rcases hnext with rfl | rfl <;> simp [holdsTotal, hphase]))
  · exact h.queue.modify ht
      (hstill _ (by rcases hnext with rfl | rfl <;> simp [waitsTotal, hphase]))
  · exact h.idleHolders.modify ht
      (hstill _ (by rcases hnext with rfl | rfl <;> simp [holdsIdle, hphase]))
  · exact h.idleQueue.modify ht
      (hstill _ (by rcases hnext with rfl | rfl <;> simp [BatchTask.waitsIdle, hphase]))

/-- The idle permit goes to the idle batch in front. -/
theorem kept_dropIdle (h : s.Kept t.scriptId) (ht : s.tasks[i]? = some t)
    (hphase : t.phase = .answered) : (s.dropIdle i t).Kept t.scriptId := by
  have hholders := h.holders.modify (f := BatchTask.setPhase .leaving) ht
    (by simp [isOf, holdsTotal, hphase])
  have hqueue := h.queue.modify (f := BatchTask.setPhase .leaving) ht
    (by simp [isOf, waitsTotal, hphase])
  have hidleQueue := h.idleQueue.modify (f := BatchTask.setPhase .leaving) ht
    (by simp [isOf, BatchTask.waitsIdle, hphase])
  unfold dropIdle
  by_cases hidle : t.isIdle = true
  · rw [if_pos hidle]
    have hmem : i ∈ (s.sems t.scriptId).idle.holders :=
      (h.idleHolders.mem i).mpr ⟨t, ht, by simp [isOf, holdsIdle, hphase, hidle]⟩
    have hidleHolders := h.idleHolders.erase (f := BatchTask.setPhase .leaving) ht
      (by simp [isOf, holdsIdle])
    rcases FairSemaphore.release_cases hmem with
      ⟨hnone, hheld, hline⟩ | ⟨j, rest, hsome, hheld, hline⟩
    · rw [hnone] at hidleQueue ⊢
      refine ⟨?_, ?_, ?_, ?_⟩ <;>
        simp only [wake, setPhase, setIdle, Function.update_self, hheld, hline]
      exacts [hholders, hqueue, hidleHolders, hidleQueue]
    · rw [hsome] at hidleQueue ⊢
      obtain ⟨u, hu, hkind⟩ := (hidleQueue.mem j).mp List.mem_cons_self
      obtain ⟨hd, hwaits⟩ := isOf_iff.mp hkind
      simp only [BatchTask.waitsIdle, Bool.and_eq_true, decide_eq_true_eq] at hwaits
      obtain ⟨hidle', hphase'⟩ := hwaits
      refine ⟨?_, ?_, ?_, ?_⟩ <;>
        simp only [wake, setPhase, setIdle, Function.update_self, hheld, hline]
      · exact hholders.modify hu (by simp [isOf, holdsTotal, hphase'])
      · exact hqueue.modify hu (by simp [isOf, waitsTotal, hphase'])
      · exact hidleHolders.cons hu (by simp [isOf, holdsIdle, hphase'])
          (by simp [isOf, holdsIdle, hd, hidle'])
      · exact hidleQueue.tail hu (by simp [isOf, BatchTask.waitsIdle])
  · rw [if_neg hidle]
    rw [Bool.not_eq_true] at hidle
    exact ⟨hholders, hqueue, h.idleHolders.modify ht (by simp [isOf, holdsIdle, hidle]),
      hidleQueue⟩

/-- The slot goes to the active batch in front. -/
theorem kept_dropTotal (h : s.Kept t.scriptId) (ht : s.tasks[i]? = some t)
    (hphase : t.phase = .leaving) : (s.dropTotal i t).Kept t.scriptId := by
  have hmem : i ∈ (s.sems t.scriptId).total.holders :=
    (h.holders.mem i).mpr ⟨t, ht, by simp [isOf, holdsTotal, hphase]⟩
  have hholders := h.holders.erase (f := BatchTask.setPhase .done) ht (by simp [isOf, holdsTotal])
  have hqueue := h.queue.modify (f := BatchTask.setPhase .done) ht
    (by simp [isOf, waitsTotal, hphase])
  have hidleHolders := h.idleHolders.modify (f := BatchTask.setPhase .done) ht
    (by simp [isOf, holdsIdle, hphase])
  have hidleQueue := h.idleQueue.modify (f := BatchTask.setPhase .done) ht
    (by simp [isOf, BatchTask.waitsIdle, hphase])
  unfold dropTotal
  dsimp only
  rcases FairSemaphore.release_cases hmem with
    ⟨hnone, hheld, hline⟩ | ⟨j, rest, hsome, hheld, hline⟩
  · rw [hnone] at hqueue ⊢
    refine ⟨?_, ?_, ?_, ?_⟩ <;>
      simp only [wake, setPhase, setTotal, Function.update_self, hheld, hline]
    exacts [hholders, hqueue, hidleHolders, hidleQueue]
  · rw [hsome] at hqueue ⊢
    obtain ⟨u, hu, hkind⟩ := (hqueue.mem j).mp List.mem_cons_self
    obtain ⟨hd, hwaits⟩ := isOf_iff.mp hkind
    simp only [waitsTotal, Bool.and_eq_true, Bool.not_eq_true', decide_eq_true_eq] at hwaits
    obtain ⟨hactive, hphase'⟩ := hwaits
    refine ⟨?_, ?_, ?_, ?_⟩ <;>
      simp only [wake, setPhase, setTotal, Function.update_self, hheld, hline]
    · exact hholders.cons hu (by simp [isOf, holdsTotal, hphase']) (by simp [isOf, holdsTotal, hd])
    · exact hqueue.tail hu (by simp [isOf, waitsTotal])
    · exact hidleHolders.modify hu (by simp [isOf, holdsIdle, hactive])
    · exact hidleQueue.modify hu (by simp [isOf, BatchTask.waitsIdle, hactive])

/-- What a step can do. -/
inductive Stepped (s : Dispatcher Reply) : BatchStep Reply → Dispatcher Reply → Prop where
  | fire {d : String} {fired : Fired Reply} : Stepped s (.fire d fired)
      { s with tasks := s.tasks ++ [⟨d, fired.pendingOps, fired.dataReplies, .spawned, []⟩] }
  | enter {i : Nat} {t : BatchTask Reply} (ht : s.tasks[i]? = some t)
      (hphase : t.phase = .spawned) : Stepped s (.enter i) (s.enter i t)
  | tryTotal {i : Nat} {t : BatchTask Reply} (ht : s.tasks[i]? = some t)
      (hphase : t.phase = .spinning) {total : FairSemaphore Nat concurrencyPerDeployment}
      (htry : (s.sems t.scriptId).total.tryAcquire i = some total) :
      Stepped s (.tryTotal i) ((s.setTotal t.scriptId total).setPhase i .running)
  | result {i : Nat} {t : BatchTask Reply} (ht : s.tasks[i]? = some t)
      (hphase : t.phase = .running) (r : Attempt) (zc : Option UInt8) :
      Stepped s (.result i r zc) (s.result i t r zc)
  | dropIdle {i : Nat} {t : BatchTask Reply} (ht : s.tasks[i]? = some t)
      (hphase : t.phase = .answered) : Stepped s (.dropIdle i) (s.dropIdle i t)
  | dropTotal {i : Nat} {t : BatchTask Reply} (ht : s.tasks[i]? = some t)
      (hphase : t.phase = .leaving) : Stepped s (.dropTotal i) (s.dropTotal i t)

theorem Stepped.of_step {e : BatchStep Reply} (h : s.step e = some s') : Stepped s e s' := by
  cases e with
  | fire d fired =>
      simp only [step] at h
      split_ifs at h
      cases h
      exact .fire
  | enter i =>
      obtain ⟨t, ht, rfl⟩ := Option.map_eq_some_iff.mp h
      exact .enter (of_inPhase ht).1 (of_inPhase ht).2
  | tryTotal i =>
      obtain ⟨t, ht, h⟩ := Option.bind_eq_some_iff.mp h
      obtain ⟨total, htry, rfl⟩ := Option.map_eq_some_iff.mp h
      exact .tryTotal (of_inPhase ht).1 (of_inPhase ht).2 htry
  | result i r zc =>
      obtain ⟨t, ht, rfl⟩ := Option.map_eq_some_iff.mp h
      exact .result (of_inPhase ht).1 (of_inPhase ht).2 r zc
  | dropIdle i =>
      obtain ⟨t, ht, rfl⟩ := Option.map_eq_some_iff.mp h
      exact .dropIdle (of_inPhase ht).1 (of_inPhase ht).2
  | dropTotal i =>
      obtain ⟨t, ht, rfl⟩ := Option.map_eq_some_iff.mp h
      exact .dropTotal (of_inPhase ht).1 (of_inPhase ht).2

/-- A result is tried again or answered. -/
theorem result_cases (s : Dispatcher Reply) (i : Nat) (t : BatchTask Reply) (r : Attempt)
    (zc : Option UInt8) :
    (((t.history = [] ∧ batchIsReplaySafe t.dataOps = true) ∧
        (s.client.learn t.scriptId zc).deploymentSupportsBatchReplay t.scriptId = true ∧
        ambiguousBatchFailure r = true) ∧
      s.result i t r zc = { s with
        client := s.client.learn t.scriptId zc
        tasks := s.tasks.modify i (BatchTask.setResult .running r) }) ∨
    s.result i t r zc = { s with
      client := s.client.learn t.scriptId zc
      tasks := s.tasks.modify i (BatchTask.setResult .answered r)
      answers := s.answers ++ t.deliver r } := by
  unfold result
  dsimp only
  split_ifs with hagain
  · simp only [Bool.and_eq_true, List.isEmpty_iff] at hagain
    exact Or.inl ⟨⟨hagain.1.1, hagain.1.2, hagain.2⟩, rfl⟩
  · exact Or.inr rfl

/-! ## The other deployments -/

theorem Kept.congr (h : s.Kept d) (hsems : s'.sems d = s.sems d) (htasks : s'.tasks = s.tasks) :
    s'.Kept d := by
  constructor <;> rw [hsems, htasks]
  exacts [h.holders, h.queue, h.idleHolders, h.idleQueue]

theorem Kept.setTotal_other (h : s.Kept d) {d' : String} (hd : d' ≠ d)
    (total : FairSemaphore Nat concurrencyPerDeployment) : (s.setTotal d' total).Kept d :=
  h.congr (Function.update_of_ne hd.symm _ _) rfl

theorem Kept.setIdle_other (h : s.Kept d) {d' : String} (hd : d' ≠ d)
    (idle : FairSemaphore Nat idleConcurrencyPerDeployment) : (s.setIdle d' idle).Kept d :=
  h.congr (Function.update_of_ne hd.symm _ _) rfl

theorem Kept.setPhase_other (h : s.Kept d) (ht : s.tasks[i]? = some t) (hd : t.scriptId ≠ d)
    (phase : BatchPhase) : (s.setPhase i phase).Kept d := h.other rfl rfl ht hd rfl

theorem Kept.wake_other (h : s.Kept d) {waiters : List Nat} {d' : String} (hd : d' ≠ d)
    {p : BatchTask Reply → Bool} (hline : Roster waiters s.tasks (isOf d' p))
    (phase : BatchPhase) : (s.wake waiters phase).Kept d := by
  cases waiters with
  | nil => exact h
  | cons j rest =>
      obtain ⟨u, hu, hkind⟩ := (hline.mem j).mp List.mem_cons_self
      exact h.setPhase_other hu ((isOf_iff.mp hkind).1.symm ▸ hd) phase

theorem step_kept {e : BatchStep Reply} (h : ∀ d, s.Kept d) (hstep : Stepped s e s') (d : String) :
    s'.Kept d := by
  cases hstep with
  | fire => exact kept_fire (h d) rfl
  | @enter i t ht hphase =>
      by_cases hd : t.scriptId = d
      · subst hd
        exact kept_enter (h _) ht hphase
      · unfold enter
        split
        · exact ((h d).setIdle_other hd _).setPhase_other ht hd _
        · exact ((h d).setTotal_other hd _).setPhase_other ht hd _
  | @tryTotal i t ht hphase total htry =>
      by_cases hd : t.scriptId = d
      · subst hd
        exact kept_tryTotal (h _) ht hphase htry
      · exact ((h d).setTotal_other hd _).setPhase_other ht hd _
  | result ht hphase r zc =>
      rcases s.result_cases _ _ r zc with ⟨-, heq⟩ | heq <;> rw [heq]
      · exact kept_setResult (h d) ht hphase (Or.inl rfl) r rfl rfl
      · exact kept_setResult (h d) ht hphase (Or.inr rfl) r rfl rfl
  | @dropIdle i t ht hphase =>
      by_cases hd : t.scriptId = d
      · subst hd
        exact kept_dropIdle (h _) ht hphase
      · unfold dropIdle
        split
        · exact (((h d).setIdle_other hd _).setPhase_other ht hd _).wake_other hd
            ((h t.scriptId).idleQueue.modify ht
              (by simp [isOf, BatchTask.waitsIdle, hphase])) _
        · exact (h d).setPhase_other ht hd _
  | @dropTotal i t ht hphase =>
      by_cases hd : t.scriptId = d
      · subst hd
        exact kept_dropTotal (h _) ht hphase
      · unfold dropTotal
        exact (((h d).setTotal_other hd _).setPhase_other ht hd _).wake_other hd
          ((h t.scriptId).queue.modify ht (by simp [isOf, waitsTotal, hphase])) _

/-! ## Active batches first -/

theorem task_modify {t' : BatchTask Reply} {k : Nat} (h : (s.tasks.modify k f)[i]? = some t') :
    (k = i ∧ ∃ t, s.tasks[i]? = some t ∧ t' = f t) ∨ s.tasks[i]? = some t' := by
  by_cases hk : k = i
  · subst hk
    rw [List.getElem?_modify_eq] at h
    obtain ⟨t, ht, rfl⟩ := Option.map_eq_some_iff.mp h
    exact Or.inl ⟨rfl, t, ht, rfl⟩
  · rw [Roster.getElem?_modify_of_ne (Ne.symm hk)] at h
    exact Or.inr h

/-- Who is woken stood in line. -/
theorem task_wake {t' : BatchTask Reply} {waiters : List Nat} {p : BatchTask Reply → Bool}
    (hline : Roster waiters s.tasks (isOf d p)) (h : (s.wake waiters phase).tasks[i]? = some t') :
    (∃ t, s.tasks[i]? = some t ∧ t.isOf d p = true ∧ t' = BatchTask.setPhase phase t) ∨
      s.tasks[i]? = some t' := by
  cases waiters with
  | nil => exact Or.inr h
  | cons j rest =>
      rcases task_modify h with ⟨rfl, t, ht, rfl⟩ | hsame
      · obtain ⟨u, hu, hkind⟩ := (hline.mem j).mp List.mem_cons_self
        rw [ht] at hu
        cases hu
        exact Or.inl ⟨t, ht, hkind, rfl⟩
      · exact Or.inr hsame

theorem step_activeFirst (h : ∀ d, s.Kept d) (e : BatchStep Reply) : s.ActiveFirst e := by
  intro s' i t t' hstep ht ht' hidle hout hin u hu hd
  -- a task that the step leaves alone, or moves to another phase without a slot
  have hsame : s.tasks[i]? ≠ some t' := by
    intro h'
    rw [ht] at h'
    cases h'
    rw [hout] at hin
    cases hin
  cases Stepped.of_step hstep with
  | fire =>
      rw [List.getElem?_append_left (List.getElem?_eq_some_iff.mp ht).1] at ht'
      exact absurd ht' hsame
  | enter hk hphase =>
      unfold enter at ht'
      split at ht'
      next hki =>
        rcases task_modify ht' with ⟨rfl, v, hv, rfl⟩ | h'
        · split_ifs at hin <;> simp [holdsTotal] at hin
        · exact absurd h' hsame
      next hki =>
        rcases task_modify ht' with ⟨rfl, v, hv, rfl⟩ | h'
        · cases hk.symm.trans ht
          exact absurd hidle hki
        · exact absurd h' hsame
  | tryTotal hk hphase htry =>
      rcases task_modify ht' with ⟨rfl, v, hv, rfl⟩ | h'
      · cases hk.symm.trans ht
        obtain ⟨hempty, -, -⟩ := FairSemaphore.of_tryAcquire htry
        obtain ⟨j, hj⟩ := List.mem_iff_getElem?.mp hu
        by_contra hwaits
        have hmem := ((h t.scriptId).queue.mem j).mpr
          ⟨u, hj, isOf_iff.mpr ⟨hd, by simpa using hwaits⟩⟩
        rw [hempty] at hmem
        cases hmem
      · exact absurd h' hsame
  | @result k tk hk hphase r zc =>
      have htasks : ∃ ph, (s.tasks.modify k (BatchTask.setResult ph r))[i]? = some t' := by
        rcases s.result_cases _ _ r zc with ⟨-, heq⟩ | heq <;> rw [heq] at ht' <;> exact ⟨_, ht'⟩
      obtain ⟨ph, ht'⟩ := htasks
      rcases task_modify ht' with ⟨rfl, v, hv, rfl⟩ | h'
      · cases hk.symm.trans ht
        simp [holdsTotal, hphase] at hout
      · exact absurd h' hsame
  | @dropIdle k tk hk hphase =>
      have hmoved : (s.tasks.modify k (BatchTask.setPhase .leaving))[i]? = some t' → False := by
        intro h'
        rcases task_modify h' with ⟨rfl, v, hv, rfl⟩ | h''
        · cases hk.symm.trans ht
          simp [holdsTotal, hphase] at hout
        · exact hsame h''
      unfold dropIdle at ht'
      split at ht'
      next =>
        rcases task_wake ((h tk.scriptId).idleQueue.modify hk
          (by simp [isOf, BatchTask.waitsIdle, hphase])) ht' with ⟨v, -, -, rfl⟩ | h'
        · simp [holdsTotal] at hin
        · exact (hmoved h').elim
      next => exact (hmoved ht').elim
  | @dropTotal k tk hk hphase =>
      rcases task_wake (s := (s.setTotal tk.scriptId _).setPhase k .done)
        ((h tk.scriptId).queue.modify hk (by simp [isOf, waitsTotal, hphase])) ht' with
        ⟨v, hv, hkind, rfl⟩ | h'
      · -- who is woken is active
        rcases task_modify hv with ⟨rfl, w, hw, rfl⟩ | hv
        · simp [isOf, waitsTotal] at hkind
        · cases hv.symm.trans ht
          simp [isOf, waitsTotal, hidle] at hkind
      · rcases task_modify h' with ⟨rfl, v, hv, rfl⟩ | h''
        · simp [holdsTotal] at hin
        · exact absurd h'' hsame

/-! ## Answers -/

theorem delivered_setPhase (hthrough : (BatchTask.setPhase phase t).through = t.through) :
    (BatchTask.setPhase phase t).delivered = t.delivered := by
  unfold delivered
  rw [hthrough]
  rfl

theorem AnsweredOnce.setPhase (h : s.AnsweredOnce) (ht : s.tasks[i]? = some t)
    (hthrough : (BatchTask.setPhase phase t).through = t.through) :
    (s.setPhase i phase).AnsweredOnce := by
  unfold AnsweredOnce Dispatcher.setPhase
  rw [Roster.flatMap_modify ht (delivered_setPhase hthrough)]
  exact h

theorem AnsweredOnce.wake (h : s.AnsweredOnce) {waiters : List Nat} {p : BatchTask Reply → Bool}
    (hline : Roster waiters s.tasks (isOf d p))
    (hthrough : ∀ u : BatchTask Reply, u.isOf d p = true →
      (BatchTask.setPhase phase u).through = u.through) : (s.wake waiters phase).AnsweredOnce := by
  cases waiters with
  | nil => exact h
  | cons j rest =>
      obtain ⟨u, hu, hkind⟩ := (hline.mem j).mp List.mem_cons_self
      exact h.setPhase hu (hthrough u hkind)

theorem step_answeredOnce {e : BatchStep Reply} (hkept : ∀ d, s.Kept d) (h : s.AnsweredOnce)
    (hstep : Stepped s e s') : s'.AnsweredOnce := by
  cases hstep with
  | fire =>
      unfold AnsweredOnce
      rw [List.flatMap_append]
      simp only [List.flatMap_cons, List.flatMap_nil, delivered, through]
      simpa using show s.answers.Perm (s.tasks.flatMap delivered) from h
  | enter ht hphase =>
      unfold enter
      split
      · exact AnsweredOnce.setPhase (s := s.setIdle _ _) h ht
          (by split_ifs <;> simp [through, hphase])
      · exact AnsweredOnce.setPhase (s := s.setTotal _ _) h ht
          (by split_ifs <;> simp [through, hphase])
  | tryTotal ht hphase htry =>
      exact AnsweredOnce.setPhase (s := s.setTotal _ _) h ht (by simp [through, hphase])
  | @result i t ht hphase r zc =>
      have hnone : t.delivered = [] := by simp [delivered, through, hphase]
      unfold AnsweredOnce
      rcases s.result_cases i t r zc with ⟨-, heq⟩ | heq <;> rw [heq] <;> dsimp only
      · have hnone' : (BatchTask.setResult .running r t).delivered = t.delivered := by
          simp [delivered, through, hphase]
        rw [Roster.flatMap_modify ht hnone']
        exact h
      · have hnew : (BatchTask.setResult .answered r t).delivered = t.deliver r := by
          -- the answer is one that has not been delivered
          simp [delivered, through, BatchTask.setResult, deliver]
        refine (List.Perm.append_right _ h).trans ?_
        rw [← hnew]
        exact (Roster.flatMap_modify_perm ht hnone).symm
  | @dropIdle i t ht hphase =>
      unfold dropIdle
      split
      · have hmoved : ((s.setIdle t.scriptId ((s.sems t.scriptId).idle.release i)).setPhase i
            .leaving).AnsweredOnce :=
          AnsweredOnce.setPhase (s := s.setIdle _ _) h ht (by simp [through, hphase])
        -- whoever is woken has no answer yet
        refine hmoved.wake ((hkept t.scriptId).idleQueue.modify ht
          (by simp [isOf, BatchTask.waitsIdle, hphase])) fun u hu => ?_
        have hu := (isOf_iff.mp hu).2
        simp only [BatchTask.waitsIdle, Bool.and_eq_true, decide_eq_true_eq] at hu
        simp [through, hu.2]
      · exact h.setPhase ht (by simp [through, hphase])
  | @dropTotal i t ht hphase =>
      unfold dropTotal
      have hmoved : ((s.setTotal t.scriptId ((s.sems t.scriptId).total.release i)).setPhase i
          .done).AnsweredOnce :=
        AnsweredOnce.setPhase (s := s.setTotal _ _) h ht (by simp [through, hphase])
      refine hmoved.wake ((hkept t.scriptId).queue.modify ht
        (by simp [isOf, waitsTotal, hphase])) fun u hu => ?_
      have hu := (isOf_iff.mp hu).2
      simp only [waitsTotal, Bool.and_eq_true, decide_eq_true_eq] at hu
      simp [through, hu.2]

/-! ## Second requests -/

/-- A task that has not sent its batch has no results. -/
structure Paced (c : Client) (t : BatchTask Reply) : Prop where
  fresh : t.early = true → t.history = []
  resent : ResentSafely c t

variable {c c' : Client}

theorem Paced.mono (h : Paced c t) (hheard : ∀ x ∈ c.heard, x ∈ c'.heard) : Paced c' t := by
  refine ⟨h.fresh, h.resent.1, fun hsent => ?_⟩
  obtain ⟨hsafe, hambiguous, caps, hmem, hbit⟩ := h.resent.2 hsent
  exact ⟨hsafe, hambiguous, caps, hheard _ hmem, hbit⟩

theorem paced_of_nil (h : t.history = []) : Paced c t := by
  have hsent : t.sent ≤ 1 := by
    simp only [sent, h, List.length_nil]
    split_ifs <;> omega
  exact ⟨fun _ => h, hsent.trans (by decide), fun h2 => absurd (h2.trans hsent) (by decide)⟩

theorem Paced.leave (h : Paced c t) (ht : t.through = true)
    (hphase : phase = .leaving ∨ phase = .done) : Paced c (BatchTask.setPhase phase t) := by
  have hsent : (BatchTask.setPhase phase t).sent = t.sent := by
    have hrunning : t.phase ≠ .running := by
      intro hr
      simp [through, hr] at ht
    simp only [sent, phase_setPhase, if_neg hrunning]
    rcases hphase with rfl | rfl <;> rfl
  refine ⟨fun he => ?_, ?_⟩
  · rcases hphase with rfl | rfl <;> simp [early] at he
  · unfold ResentSafely
    rw [hsent]
    exact h.resent

theorem heard_learn {x : String × UInt8} (hx : x ∈ c.heard) (scriptId : String)
    (zc : Option UInt8) : x ∈ (c.learn scriptId zc).heard := by
  cases zc with
  | none => exact hx
  | some caps => exact List.mem_append_left _ hx

theorem paced_result (h : Paced c t) (hphase : t.phase = .running) (r : Attempt)
    (hheard : ∀ x ∈ c.heard, x ∈ c'.heard) : Paced c' (BatchTask.setResult .answered r t) := by
  have hold := (h.mono hheard).resent
  have hsent : (BatchTask.setResult .answered r t).sent = t.sent := by
    simp [sent, BatchTask.setResult, hphase]
  refine ⟨fun he => by simp [early] at he, hsent ▸ hold.1, fun h2 => ?_⟩
  obtain ⟨hsafe, hambiguous, hadvertised⟩ := hold.2 (hsent ▸ h2)
  refine ⟨hsafe, ?_, hadvertised⟩
  cases hh : t.history with
  | nil => simp [hh] at hambiguous
  | cons r₀ rs => simpa [BatchTask.setResult, hh] using hambiguous

theorem paced_retry (hhistory : t.history = []) {r : Attempt}
    (hsafe : batchIsReplaySafe t.dataOps = true) (hambiguous : ambiguousBatchFailure r = true)
    (hadvertised : ∃ caps, (t.scriptId, caps) ∈ c.heard ∧ caps &&& 2 ≠ 0) :
    Paced c (BatchTask.setResult .running r t) := by
  refine ⟨fun he => by simp [early] at he, ?_, fun _ => ⟨hsafe, ?_, hadvertised⟩⟩
  · simp [sent, BatchTask.setResult, hhistory]
  · simpa [BatchTask.setResult, hhistory] using hambiguous

/-- A deployment that is taken to support replays has said so itself. -/
theorem advertised_of_recorded (h : Recorded c) (hd : c.deploymentSupportsBatchReplay d = true) :
    ∃ caps, (d, caps) ∈ c.heard ∧ caps &&& 2 ≠ 0 := by
  obtain ⟨caps, hlookup, hbit⟩ := (Option.any_eq_true _ _).mp hd
  exact ⟨caps, h d caps hlookup, of_decide_eq_true hbit⟩

def AllPaced (s : Dispatcher Reply) : Prop :=
  ∀ (i : Nat) (t : BatchTask Reply), s.tasks[i]? = some t → Paced s.client t

theorem AllPaced.modify (h : s.AllPaced) (ht : s.tasks[i]? = some t) (hf : Paced s.client (f t))
    (hclient : s'.client = s.client) (htasks : s'.tasks = s.tasks.modify i f) : s'.AllPaced := by
  intro j u hu
  rw [htasks] at hu
  rw [hclient]
  rcases task_modify hu with ⟨rfl, v, hv, rfl⟩ | hsame
  · cases hv.symm.trans ht
    exact hf
  · exact h j u hsame

theorem AllPaced.wake (h : s.AllPaced) {waiters : List Nat} {p : BatchTask Reply → Bool}
    (hline : Roster waiters s.tasks (isOf d p))
    (hearly : ∀ u : BatchTask Reply, u.isOf d p = true → u.early = true) :
    (s.wake waiters phase).AllPaced := by
  cases waiters with
  | nil => exact h
  | cons j rest =>
      obtain ⟨u, hu, hkind⟩ := (hline.mem j).mp List.mem_cons_self
      exact h.modify hu (paced_of_nil ((h j u hu).fresh (hearly u hkind))) rfl rfl

theorem step_allPaced {e : BatchStep Reply} (hkept : ∀ d, s.Kept d) (hrecorded : Recorded s.client)
    (h : s.AllPaced) (hstep : Stepped s e s') : s'.AllPaced := by
  cases hstep with
  | @fire d fired =>
      intro i t ht
      rcases Nat.lt_or_ge i s.tasks.length with hlt | hge
      · rw [List.getElem?_append_left hlt] at ht
        exact h i t ht
      · have hmem := List.mem_of_getElem? (List.getElem?_append_right hge ▸ ht)
        cases List.mem_singleton.mp hmem
        exact paced_of_nil rfl
  | enter ht hphase =>
      -- a task that comes in has sent nothing yet
      have hfresh := (h _ _ ht).fresh (by simp [early, hphase])
      unfold enter
      split
      · exact h.modify ht (paced_of_nil hfresh) rfl rfl
      · exact h.modify ht (paced_of_nil hfresh) rfl rfl
  | tryTotal ht hphase htry =>
      exact h.modify ht (paced_of_nil ((h _ _ ht).fresh (by simp [early, hphase]))) rfl rfl
  | @result i t ht hphase r zc =>
      have hheard : ∀ x ∈ s.client.heard, x ∈ (s.client.learn t.scriptId zc).heard :=
        fun x hx => heard_learn hx t.scriptId zc
      have hlearnt : AllPaced { s with client := s.client.learn t.scriptId zc } :=
        fun j u hu => (h j u hu).mono hheard
      -- the batch is sent once more, or its answer is taken
      rcases s.result_cases i t r zc with
        ⟨⟨⟨hhistory, hsafe⟩, hsupports, hambiguous⟩, heq⟩ | heq <;> rw [heq]
      · have hadvertised := advertised_of_recorded
          (recorded_learn hrecorded t.scriptId zc) hsupports
        exact hlearnt.modify ht (paced_retry hhistory hsafe hambiguous hadvertised) rfl rfl
      · exact hlearnt.modify ht (paced_result (h i t ht) hphase r hheard) rfl rfl
  | @dropIdle i t ht hphase =>
      have hleft := (h i t ht).leave (by simp [through, hphase]) (Or.inl rfl)
      unfold dropIdle
      split
      · have hmoved : AllPaced ((s.setIdle t.scriptId ((s.sems t.scriptId).idle.release i)).setPhase
            i .leaving) := h.modify ht hleft rfl rfl
        refine hmoved.wake ((hkept t.scriptId).idleQueue.modify ht
          (by simp [isOf, BatchTask.waitsIdle, hphase])) fun u hu => ?_
        have hu := (isOf_iff.mp hu).2
        simp only [BatchTask.waitsIdle, Bool.and_eq_true, decide_eq_true_eq] at hu
        simp [early, hu.2]
      · exact h.modify ht hleft rfl rfl
  | @dropTotal i t ht hphase =>
      have hleft := (h i t ht).leave (by simp [through, hphase]) (Or.inr rfl)
      have hmoved : AllPaced ((s.setTotal t.scriptId ((s.sems t.scriptId).total.release i)).setPhase
          i .done) := h.modify ht hleft rfl rfl
      unfold dropTotal
      refine hmoved.wake ((hkept t.scriptId).queue.modify ht
        (by simp [isOf, waitsTotal, hphase])) fun u hu => ?_
      have hu := (isOf_iff.mp hu).2
      simp only [waitsTotal, Bool.and_eq_true, decide_eq_true_eq] at hu
      simp [early, hu.2]

theorem step_recorded {e : BatchStep Reply} (h : Recorded s.client) (hstep : Stepped s e s') :
    Recorded s'.client := by
  have hwake : ∀ {s₁ : Dispatcher Reply} (waiters : List Nat) (ph : BatchPhase),
      (s₁.wake waiters ph).client = s₁.client := fun waiters ph => by cases waiters <;> rfl
  cases hstep with
  | fire => exact h
  | enter ht hphase =>
      unfold enter
      split <;> exact h
  | tryTotal ht hphase htry => exact h
  | @result i t ht hphase r zc =>
      rcases s.result_cases i t r zc with ⟨-, heq⟩ | heq <;> rw [heq] <;>
        exact recorded_learn h t.scriptId zc
  | dropIdle ht hphase =>
      unfold dropIdle
      split
      · rw [hwake]
        exact h
      · exact h
  | dropTotal ht hphase =>
      unfold dropTotal
      rw [hwake]
      exact h

/-! ## Runs -/

/-- What holds between two steps. -/
structure Inv (s : Dispatcher Reply) : Prop where
  kept : ∀ d, s.Kept d
  answered : s.AnsweredOnce
  recorded : Recorded s.client
  paced : s.AllPaced

theorem start_inv (scriptIds : List String) :
    (start scriptIds ⟨false, ∅, []⟩ : Dispatcher Reply).Inv where
  kept _ := ⟨Roster.nil, Roster.nil, Roster.nil, Roster.nil⟩
  answered := List.Perm.refl _
  recorded d caps h := by cases h
  paced i t h := by cases h

theorem step_inv {e : BatchStep Reply} (h : s.Inv) (hstep : s.step e = some s') : s'.Inv := by
  have hs := Stepped.of_step hstep
  exact ⟨step_kept h.kept hs, step_answeredOnce h.kept h.answered hs,
    step_recorded h.recorded hs, step_allPaced h.kept h.recorded h.paced hs⟩

/-- **The slots of every deployment, over a run**: they are kept, and active batches come first. -/
theorem slots_kept (scriptIds : List String) (es : List (BatchStep Reply)) :
    StepRun.AllStates step (fun s => ∀ d, s.SlotsKept d) (start scriptIds ⟨false, ∅, []⟩) es ∧
      StepRun.AllSteps step ActiveFirst (start scriptIds ⟨false, ∅, []⟩) es :=
  ⟨StepRun.allStates_of_inv (fun _ _ _ h hstep => step_inv h hstep)
      (fun _ h d => (h.kept d).slotsKept) (start_inv scriptIds) es,
    StepRun.allSteps_imp (C := fun _ _ => True) (fun _ _ _ h hstep => step_inv h hstep)
      (fun _ e h _ => step_activeFirst h.kept e) (start_inv scriptIds)
      (StepRun.allSteps_of_forall (fun _ _ => trivial) _ es)⟩

/-- **Answers and second requests, over a run.** -/
theorem answered_once (scriptIds : List String) (es : List (BatchStep Reply)) :
    StepRun.AllStates step
      (fun s => s.AnsweredOnce ∧ ∀ t ∈ s.tasks, ResentSafely s.client t)
      (start scriptIds ⟨false, ∅, []⟩) es := by
  refine StepRun.allStates_of_inv (fun _ _ _ h hstep => step_inv h hstep)
    (fun s h => ⟨h.answered, fun t ht => ?_⟩) (start_inv scriptIds) es
  obtain ⟨i, hi⟩ := List.mem_iff_getElem?.mp ht
  exact (h.paced i t hi).resent

/-- A batch whose request times out. -/
example : (StepRun.run step (start ["d"] ⟨false, ∅, []⟩)
    [.fire "d" ⟨[closePendingOp "s"], [(0, ())]⟩, .enter 0, .result 0 .elapsed none, .dropIdle 0,
      .dropTotal 0]).map answers = some [((), .error "batch timed out")] := rfl

end Dispatcher

end Rahgozar.Tunnel
