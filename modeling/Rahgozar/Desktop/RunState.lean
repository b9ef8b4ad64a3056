import Rahgozar.Lib.Run

set_option autoImplicit false

/-! # The run state of the desktop app (`desktop/src-tauri/src/commands.rs`)

`start_proxy` looks at the flag, builds a proxy, spawns its task, and writes the fields of `Inner`,
under two acquisitions of the lock with the spawn between them. `stop_proxy` takes the shutdown
handle out, and a task that comes to its end clears the fields. The calls and the tasks have
numbers; a step is what is done under one acquisition of the lock, or between two of them.
-/

namespace Rahgozar.Desktop

/-- `Inner`. A handle is named after the run it belongs to. -/
structure Inner where
  running : Bool
  shutdownTx : Option Nat
  startedAt : Option Nat
  lastError : Option String
  runningState : Option Nat
deriving DecidableEq

/-- Where a call of `start_proxy` is. -/
inductive StartPhase where
  | idle
  /-- The flag was down. -/
  | checked
  /-- The task has been spawned, and the call has its shutdown handle. -/
  | spawned (run : Nat)
deriving DecidableEq

/-- The run whose handle the call has. -/
def StartPhase.run? : StartPhase → Option Nat
  | spawned run => some run
  | _ => none

theorem StartPhase.run?_eq_some {phase : StartPhase} {run : Nat} :
    phase.run? = some run ↔ phase = .spawned run := by
  cases phase <;> simp [run?]

/-- Where a spawned task is. -/
inductive TaskPhase where
  | absent
  /-- In `proxy.run`. -/
  | serving
  /-- `proxy.run` has returned, and the task is about to clear the fields. -/
  | leaving
  | ended
deriving DecidableEq

/-- The app. `told run` says that the shutdown handle of `run` has been fired or dropped. -/
structure App where
  inner : Inner
  calls : Nat → StartPhase
  tasks : Nat → TaskPhase
  told : Nat → Bool
  nextRun : Nat

namespace App

def new : App :=
  ⟨⟨false, none, none, none, none⟩, fun _ => .idle, fun _ => .absent, fun _ => false, 0⟩

/-- The parked handle goes out of its place: it is fired, or another value is written over it. -/
def releaseTx (a : App) : App :=
  match a.inner.shutdownTx with
  | none => a
  | some run => { a with
      told := Function.update a.told run true, inner := { a.inner with shutdownTx := none } }

/-- The first lock block of `start_proxy`. -/
def checkRunning (a : App) (call : Nat) : App :=
  if a.inner.running then a else { a with calls := Function.update a.calls call .checked }

/-- The configuration, the certificates and the proxy, and the spawn; each of the first three can
fail. -/
def spawnProxy (a : App) (call : Nat) (built : Bool) : App :=
  if built then
    { a with
      calls := Function.update a.calls call (.spawned a.nextRun)
      tasks := Function.update a.tasks a.nextRun .serving
      nextRun := a.nextRun + 1 }
  else { a with calls := Function.update a.calls call .idle }

/-- The last lock block of `start_proxy`. -/
def markRunning (a : App) (call run now : Nat) : App :=
  { a.releaseTx with
    calls := Function.update a.calls call .idle
    inner := ⟨true, some run, some now, none, some run⟩ }

/-- The handle is fired or dropped, and the other fields go down with it. -/
def clearFields (a : App) : App :=
  { a.releaseTx with inner := ⟨false, none, none, a.inner.lastError, none⟩ }

/-- The lock block of the task. -/
def taskEnd (a : App) (run : Nat) : App :=
  { a.clearFields with tasks := Function.update a.tasks run .ended }

def stopProxy (a : App) : App := if a.inner.running then a.clearFields else a

inductive Event where
  | checkRunning (call : Nat)
  | spawnProxy (call : Nat) (built : Bool)
  | markRunning (call now : Nat)
  | stopProxy
  /-- `proxy.run` returns: it could not bind, or crashed, or was told to stop. -/
  | runReturns (run : Nat)
  | taskEnd (run : Nat)

def step (a : App) : Event → Option App
  | .checkRunning call => if a.calls call = .idle then some (a.checkRunning call) else none
  | .spawnProxy call built =>
      if a.calls call = .checked then some (a.spawnProxy call built) else none
  | .markRunning call now =>
      (a.calls call).run?.map fun run => a.markRunning call run now
  | .stopProxy => some a.stopProxy
  | .runReturns run =>
      if a.tasks run = .serving then
        some { a with tasks := Function.update a.tasks run .leaving }
      else none
  | .taskEnd run => if a.tasks run = .leaving then some (a.taskEnd run) else none

/-! ## What is to hold -/

/-- The task of `run` has been spawned and has neither ended nor been told to stop. -/
def Up (a : App) (run : Nat) : Prop :=
  (a.tasks run = .serving ∨ a.tasks run = .leaving) ∧ a.told run = false

/-- No call of `start_proxy` is between its spawn and its last lock block. -/
def Quiet (a : App) : Prop := ∀ call run, a.calls call ≠ .spawned run

/-- The flag is up exactly while a task is, there is one such task at most, and both handles are
its. -/
structure Truthful (a : App) : Prop where
  running : a.inner.running = true ↔ ∃ run, a.Up run
  unique : ∀ i j, a.Up i → a.Up j → i = j
  shutdownTx : ∀ run, a.inner.shutdownTx = some run ↔ a.Up run
  runningState : ∀ run, a.inner.runningState = some run ↔ a.Up run

/-- The end of a task leaves the flag and the handles of every other run as they are. -/
def EndSpares (a : App) (e : Event) : Prop :=
  ∀ b run other, a.step e = some b → e = .taskEnd run → other ≠ run →
    (a.inner.shutdownTx = some other →
      b.inner.shutdownTx = some other ∧ b.told other = a.told other ∧
        b.inner.running = a.inner.running) ∧
    (a.inner.runningState = some other → b.inner.runningState = some other)

/-- No task clears the fields while the handle of another run is parked, and none has done so when
the call that spawned it comes to its last lock block. -/
def Orderly (a : App) : Event → Prop
  | .taskEnd run => ∀ other ∈ a.inner.shutdownTx, other = run
  | .markRunning call _ => ∀ run ∈ (a.calls call).run?, a.tasks run ≠ .ended
  | _ => True

instance decidableOrderly (a : App) : (e : Event) → Decidable (a.Orderly e)
  | .taskEnd run => inferInstanceAs (Decidable (∀ other ∈ a.inner.shutdownTx, other = run))
  | .markRunning call _ =>
      inferInstanceAs (Decidable (∀ run ∈ (a.calls call).run?, a.tasks run ≠ .ended))
  | .checkRunning _ => isTrue trivial
  | .spawnProxy _ _ => isTrue trivial
  | .stopProxy => isTrue trivial
  | .runReturns _ => isTrue trivial

/-! ## The parked handle -/

variable {a b : App}

@[simp] theorem releaseTx_calls (a : App) : a.releaseTx.calls = a.calls := by
  unfold releaseTx
  split <;> rfl

@[simp] theorem releaseTx_tasks (a : App) : a.releaseTx.tasks = a.tasks := by
  unfold releaseTx
  split <;> rfl

@[simp] theorem releaseTx_nextRun (a : App) : a.releaseTx.nextRun = a.nextRun := by
  unfold releaseTx
  split <;> rfl

/-- Its run is told to stop, and no other. -/
theorem releaseTx_told (a : App) (run : Nat) :
    a.releaseTx.told run = (a.told run || decide (a.inner.shutdownTx = some run)) := by
  unfold releaseTx
  split
  · rename_i h
    simp [h]
  · rename_i parked h
    dsimp only
    by_cases hrun : run = parked
    · simp [h, hrun]
    · rw [Function.update_of_ne hrun, h]
      simp [Ne.symm hrun]

theorem releaseTx_told_of_ne {run : Nat} (h : a.inner.shutdownTx ≠ some run) :
    a.releaseTx.told run = a.told run := by
  rw [releaseTx_told, decide_eq_false h, Bool.or_false]

/-! ## The invariant -/

/-- Runs are numbered in the order of their spawns. A handle is with the call that spawned the run,
or parked, or it has been released; a parked one belongs to a task that is up, and the other fields
say the same as it. -/
structure Inv (a : App) : Prop where
  fresh : ∀ run, a.nextRun ≤ run → a.tasks run = .absent ∧ a.told run = false
  held : ∀ call run, a.calls call = .spawned run →
    run < a.nextRun ∧ a.tasks run ≠ .absent ∧ a.told run = false ∧ a.inner.shutdownTx ≠ some run
  one : ∀ c d run, a.calls c = .spawned run → a.calls d = .spawned run → c = d
  parked : ∀ run, a.inner.shutdownTx = some run → a.Up run
  owned : ∀ run, a.Up run → a.inner.shutdownTx = some run ∨ ∃ call, a.calls call = .spawned run
  running : a.inner.running = a.inner.shutdownTx.isSome
  state : a.inner.runningState = a.inner.shutdownTx

theorem Up.lt_nextRun {run : Nat} (hinv : a.Inv) (h : a.Up run) : run < a.nextRun := by
  by_contra hle
  have habsent := (hinv.fresh run (Nat.le_of_not_lt hle)).1
  rcases h.1 with h | h
  · rw [h] at habsent
    cases habsent
  · rw [h] at habsent
    cases habsent

theorem new_inv : new.Inv where
  fresh _ _ := ⟨rfl, rfl⟩
  held _ _ h := nomatch h
  one _ _ _ h := nomatch h
  parked _ h := nomatch h
  owned _ h := h.1.elim nofun nofun
  running := rfl
  state := rfl

/-- In a quiet state the invariant is the truth of the fields. -/
theorem Inv.truthful (h : a.Inv) (hquiet : a.Quiet) : a.Truthful := by
  have htx : ∀ run, a.inner.shutdownTx = some run ↔ a.Up run := by
    intro run
    refine ⟨h.parked run, fun hup => ?_⟩
    rcases h.owned run hup with hparked | ⟨call, hcall⟩
    · exact hparked
    · exact absurd hcall (hquiet call run)
  constructor
  · rw [h.running, Option.isSome_iff_exists]
    exact exists_congr htx
  · intro i j hi hj
    have hsame := ((htx i).mpr hi).symm.trans ((htx j).mpr hj)
    exact Option.some.inj hsame
  · exact htx
  · intro run
    rw [h.state]
    exact htx run

/-! ## One step -/

/-- A call that holds a run once `call` has moved: it is `call`, or held it before. -/
theorem spawned_of_update {calls : Nat → StartPhase} {phase : StartPhase} {call c run : Nat}
    (h : Function.update calls call phase c = .spawned run) :
    (c = call ∧ phase = .spawned run) ∨ (c ≠ call ∧ calls c = .spawned run) := by
  rcases eq_or_ne c call with rfl | hne
  · rw [Function.update_self] at h
    exact Or.inl ⟨rfl, h⟩
  · rw [Function.update_of_ne hne] at h
    exact Or.inr ⟨hne, h⟩

/-- A call that is not between its spawn and its last lock block moves. -/
theorem Inv.setCall (h : a.Inv) {call : Nat} {phase : StartPhase}
    (hbefore : ∀ run, a.calls call ≠ .spawned run) (hafter : ∀ run, phase ≠ .spawned run) :
    Inv { a with calls := Function.update a.calls call phase } := by
  have hback : ∀ c run, Function.update a.calls call phase c = .spawned run →
      a.calls c = .spawned run := by
    intro c run hc
    rcases spawned_of_update hc with ⟨-, hphase⟩ | ⟨-, hc'⟩
    · exact absurd hphase (hafter run)
    · exact hc'
  refine ⟨h.fresh, fun c run hc => h.held c run (hback c run hc),
    fun c d run hc hd => h.one c d run (hback c run hc) (hback d run hd), h.parked, ?_, h.running,
    h.state⟩
  intro run hup
  rcases h.owned run hup with hparked | ⟨c, hc⟩
  · exact .inl hparked
  · refine .inr ⟨c, ?_⟩
    have hne : c ≠ call := fun heq => hbefore run (heq ▸ hc)
    exact (Function.update_of_ne hne _ _).trans hc

theorem checkRunning_inv (h : a.Inv) {call : Nat} (hidle : a.calls call = .idle) :
    (a.checkRunning call).Inv := by
  unfold checkRunning
  split
  · exact h
  · refine h.setCall (fun run hrun => ?_) nofun
    rw [hidle] at hrun
    cases hrun

theorem spawnProxy_inv (h : a.Inv) {call : Nat} (hchecked : a.calls call = .checked)
    (built : Bool) : (a.spawnProxy call built).Inv := by
  have hbefore : ∀ run, a.calls call ≠ .spawned run := by
    intro run hrun
    rw [hchecked] at hrun
    cases hrun
  unfold spawnProxy
  split
  · -- the new run is the call's, and its number was free
    have hfree := h.fresh a.nextRun le_rfl
    have hother : ∀ run, run ≠ a.nextRun →
        Function.update a.tasks a.nextRun .serving run = a.tasks run :=
      fun run hne => Function.update_of_ne hne _ _
    have hnext : a.inner.shutdownTx ≠ some a.nextRun :=
      fun hp => absurd ((h.parked _ hp).lt_nextRun h) (lt_irrefl _)
    refine ⟨?_, ?_, ?_, ?_, ?_, h.running, h.state⟩
    · intro run (hle : a.nextRun + 1 ≤ run)
      obtain ⟨habsent, htold⟩ := h.fresh run (by omega)
      exact ⟨(hother run (by omega)).trans habsent, htold⟩
    · intro c run hc
      rcases spawned_of_update hc with ⟨rfl, hrun⟩ | ⟨-, hc'⟩
      · cases hrun
        refine ⟨Nat.lt_succ_self _, ?_, hfree.2, hnext⟩
        show Function.update a.tasks a.nextRun .serving a.nextRun ≠ .absent
        rw [Function.update_self]
        exact nofun
      · obtain ⟨hlt, htask, hrest⟩ := h.held c run hc'
        refine ⟨Nat.lt_succ_of_lt hlt, ?_, hrest⟩
        show Function.update a.tasks a.nextRun .serving run ≠ .absent
        rwa [hother run (Nat.ne_of_lt hlt)]
    · intro c d run hc hd
      rcases spawned_of_update hc with ⟨rfl, hrun⟩ | ⟨-, hc'⟩
      · rcases spawned_of_update hd with ⟨rfl, -⟩ | ⟨-, hd'⟩
        · rfl
        · cases hrun
          exact absurd (h.held d _ hd').1 (lt_irrefl _)
      · rcases spawned_of_update hd with ⟨rfl, hrun⟩ | ⟨-, hd'⟩
        · cases hrun
          exact absurd (h.held c _ hc').1 (lt_irrefl _)
        · exact h.one c d run hc' hd'
    · intro run hp
      obtain ⟨htask, htold⟩ := h.parked run hp
      have hne : run ≠ a.nextRun := fun heq => hnext (heq ▸ hp)
      refine ⟨?_, htold⟩
      show Function.update a.tasks a.nextRun .serving run = _
        ∨ Function.update a.tasks a.nextRun .serving run = _
      rwa [hother run hne]
    · rintro run ⟨htask, htold⟩
      rcases eq_or_ne run a.nextRun with rfl | hne
      · exact .inr ⟨call, Function.update_self ..⟩
      · have hup : a.Up run := ⟨by rw [← hother run hne]; exact htask, htold⟩
        rcases h.owned run hup with hparked | ⟨c, hc⟩
        · exact .inl hparked
        · refine .inr ⟨c, ?_⟩
          have hcne : c ≠ call := fun heq => hbefore run (heq ▸ hc)
          exact (Function.update_of_ne hcne _ _).trans hc
  · exact h.setCall hbefore nofun

/-- Nothing is parked any more, and the run whose handle it was has been told to stop. -/
theorem clearFields_inv (h : a.Inv) : a.clearFields.Inv := by
  have htasks : a.clearFields.tasks = a.tasks := a.releaseTx_tasks
  have hcalls : a.clearFields.calls = a.calls := a.releaseTx_calls
  have hnext : a.clearFields.nextRun = a.nextRun := a.releaseTx_nextRun
  have htold : ∀ run, a.inner.shutdownTx ≠ some run → a.clearFields.told run = a.told run :=
    fun run hne => releaseTx_told_of_ne hne
  refine ⟨?_, ?_, ?_, nofun, ?_, rfl, rfl⟩
  · intro run hle
    rw [hnext] at hle
    obtain ⟨htask, hfree⟩ := h.fresh run hle
    have hne : a.inner.shutdownTx ≠ some run :=
      fun hp => absurd ((h.parked _ hp).lt_nextRun h) (Nat.not_lt.mpr hle)
    exact ⟨by rw [htasks, htask], by rw [htold run hne, hfree]⟩
  · intro c run hc
    rw [hcalls] at hc
    obtain ⟨hlt, htask, hfree, htx⟩ := h.held c run hc
    exact ⟨by rwa [hnext], by rwa [htasks], by rw [htold run htx, hfree], nofun⟩
  · intro c d run hc hd
    rw [hcalls] at hc hd
    exact h.one c d run hc hd
  · rintro run ⟨htask, hup⟩
    rw [htasks] at htask
    rw [show a.clearFields.told run = _ from releaseTx_told a run, Bool.or_eq_false_iff,
      decide_eq_false_iff_not] at hup
    rcases h.owned run ⟨htask, hup.1⟩ with hparked | hheld
    · exact absurd hparked hup.2
    · rw [hcalls]
      exact .inr hheld

/-- A call parks the handle of its run, whose task has not ended. -/
theorem Inv.park (h : a.Inv) (hfree : a.inner.shutdownTx = none) (call run : Nat)
    (hcall : a.calls call = .spawned run) (hended : a.tasks run ≠ .ended) (now : Nat) :
    Inv { a with calls := Function.update a.calls call .idle,
                 inner := ⟨true, some run, some now, none, some run⟩ } := by
  obtain ⟨hlt, habsent, htold, -⟩ := h.held call run hcall
  have hback : ∀ c i, Function.update a.calls call .idle c = .spawned i →
      c ≠ call ∧ a.calls c = .spawned i := by
    intro c i hc
    rcases spawned_of_update hc with ⟨-, hphase⟩ | hc'
    · cases hphase
    · exact hc'
  have hup : a.Up run := by
    refine ⟨?_, htold⟩
    cases htask : a.tasks run with
    | absent => exact absurd htask habsent
    | serving => exact .inl rfl
    | leaving => exact .inr rfl
    | ended => exact absurd htask hended
  refine ⟨h.fresh, ?_, ?_, ?_, ?_, rfl, rfl⟩
  · intro c i hc
    obtain ⟨hne, hc⟩ := hback c i hc
    obtain ⟨hilt, hitask, hitold, -⟩ := h.held c i hc
    refine ⟨hilt, hitask, hitold, fun hsame => ?_⟩
    cases hsame
    exact hne (h.one c call run hc hcall)
  · intro c d i hc hd
    exact h.one c d i (hback c i hc).2 (hback d i hd).2
  · intro i hi
    cases hi
    exact hup
  · intro i hi
    rcases h.owned i hi with hparked | ⟨c, hc⟩
    · rw [hfree] at hparked
      cases hparked
    · rcases eq_or_ne c call with rfl | hne
      · rw [hcall] at hc
        cases hc
        exact .inl rfl
      · exact .inr ⟨c, (Function.update_of_ne hne _ _).trans hc⟩

theorem markRunning_inv (h : a.Inv) {call run : Nat} (hcall : a.calls call = .spawned run)
    (hended : a.tasks run ≠ .ended) (now : Nat) : (a.markRunning call run now).Inv := by
  have hclear := clearFields_inv h
  have hcalls : a.clearFields.calls = a.calls := a.releaseTx_calls
  have htasks : a.clearFields.tasks = a.tasks := a.releaseTx_tasks
  have hpark := hclear.park rfl call run (by rw [hcalls, hcall])
    (by rwa [htasks]) now
  rwa [hcalls] at hpark

/-- A task whose handle is not parked moves on. -/
theorem Inv.setTask (h : a.Inv) (run : Nat) (phase : TaskPhase) (hlt : a.tasks run ≠ .absent)
    (hphase : phase ≠ .absent)
    (hup : phase = .ended → a.inner.shutdownTx ≠ some run)
    (hkeep : phase = .serving ∨ phase = .leaving →
      a.tasks run = .serving ∨ a.tasks run = .leaving) :
    Inv { a with tasks := Function.update a.tasks run phase } := by
  have hother : ∀ i, i ≠ run → Function.update a.tasks run phase i = a.tasks i :=
    fun i hne => Function.update_of_ne hne _ _
  refine ⟨?_, ?_, h.one, ?_, ?_, h.running, h.state⟩
  · intro i hle
    obtain ⟨htask, hfree⟩ := h.fresh i hle
    have hne : i ≠ run := fun heq => hlt (heq ▸ htask)
    exact ⟨(hother i hne).trans htask, hfree⟩
  · intro c i hc
    obtain ⟨hilt, hitask, hrest⟩ := h.held c i hc
    refine ⟨hilt, ?_, hrest⟩
    show Function.update a.tasks run phase i ≠ .absent
    rcases eq_or_ne i run with rfl | hne
    · rw [Function.update_self]
      exact hphase
    · rw [hother i hne]
      exact hitask
  · intro i hp
    obtain ⟨htask, htold⟩ := h.parked i hp
    refine ⟨?_, htold⟩
    show Function.update a.tasks run phase i = _ ∨ Function.update a.tasks run phase i = _
    rcases eq_or_ne i run with rfl | hne
    · rw [Function.update_self]
      cases phase with
      | absent => exact absurd rfl hphase
      | serving => exact .inl rfl
      | leaving => exact .inr rfl
      | ended => exact absurd hp (hup rfl)
    · rw [hother i hne]
      exact htask
  · rintro i ⟨htask, htold⟩
    replace htask : Function.update a.tasks run phase i = .serving
      ∨ Function.update a.tasks run phase i = .leaving := htask
    refine h.owned i ⟨?_, htold⟩
    rcases eq_or_ne i run with rfl | hne
    · rw [Function.update_self] at htask
      exact hkeep htask
    · rwa [hother i hne] at htask

theorem taskEnd_inv (h : a.Inv) {run : Nat} (htask : a.tasks run = .leaving) :
    (a.taskEnd run).Inv := by
  have htasks : a.clearFields.tasks = a.tasks := a.releaseTx_tasks
  have hend := (clearFields_inv h).setTask run .ended
    (by rw [htasks, htask]; exact nofun) nofun (fun _ => nofun)
    (fun hphase => hphase.elim nofun nofun)
  rwa [htasks] at hend

theorem stopProxy_inv (h : a.Inv) : a.stopProxy.Inv := by
  unfold stopProxy
  split
  · exact clearFields_inv h
  · exact h

/-- **One step.** -/
theorem step_inv {e : Event} (h : a.Inv) (hOrderly : a.Orderly e) (hs : a.step e = some b) :
    b.Inv := by
  cases e with
  | checkRunning call =>
      obtain ⟨hidle, hb⟩ := Option.ite_none_right_eq_some.mp hs
      cases hb
      exact checkRunning_inv h hidle
  | spawnProxy call built =>
      obtain ⟨hchecked, hb⟩ := Option.ite_none_right_eq_some.mp hs
      cases hb
      exact spawnProxy_inv h hchecked built
  | markRunning call now =>
      obtain ⟨run, hrun, rfl⟩ := Option.map_eq_some_iff.mp hs
      exact markRunning_inv h (StartPhase.run?_eq_some.mp hrun) (hOrderly run hrun) now
  | stopProxy =>
      cases hs
      exact stopProxy_inv h
  | runReturns run =>
      obtain ⟨htask, hb⟩ := Option.ite_none_right_eq_some.mp hs
      cases hb
      exact h.setTask run .leaving (by rw [htask]; exact nofun) nofun nofun (fun _ => .inl htask)
  | taskEnd run =>
      obtain ⟨htask, hb⟩ := Option.ite_none_right_eq_some.mp hs
      cases hb
      exact taskEnd_inv h htask

/-- The end of a task spares the others when nothing of theirs is parked. -/
theorem endSpares_of_orderly {e : Event} (h : a.Inv) (hOrderly : a.Orderly e) : a.EndSpares e := by
  rintro b run other - rfl hne
  refine ⟨fun htx => absurd (hOrderly other htx) hne, fun hstate => ?_⟩
  rw [h.state] at hstate
  exact absurd (hOrderly other hstate) hne

/-! ## Whole runs -/

/-- **The run state tells the truth** in every quiet state of a run, and the end of a task spares
the other runs, as long as no task ends while the handle of another is parked or before the call
that spawned it has parked its own. -/
theorem runState_truthful (es : List Event) (h : StepRun.AllSteps step Orderly new es) :
    StepRun.AllStates step (fun a => a.Quiet → a.Truthful) new es ∧
      StepRun.AllSteps step EndSpares new es :=
  ⟨StepRun.allStates_of_allSteps (fun _ _ _ => step_inv) (fun _ => Inv.truthful) new_inv h,
    StepRun.allSteps_of_inv (fun _ _ _ => step_inv)
      (fun _ _ _ hp hc _ => endSpares_of_orderly hp hc) new_inv h⟩

/-- A start, a stop, and a second start once the first run has come to its end. -/
theorem runState_truthful_restart :
    let es : List Event := [.checkRunning 0, .spawnProxy 0 true, .markRunning 0 5, .stopProxy,
      .runReturns 0, .taskEnd 0, .checkRunning 1, .spawnProxy 1 true, .markRunning 1 9]
    StepRun.AllSteps step Orderly new es ∧
      (StepRun.AllStates step (fun a => a.Quiet → a.Truthful) new es ∧
        StepRun.AllSteps step EndSpares new es) :=
  ⟨by decide, runState_truthful _ (by decide)⟩

/-- A run that cannot bind: its task ends before the call has put up the flag. -/
def bindFails : List Event :=
  [.checkRunning 0, .spawnProxy 0 true, .runReturns 0, .taskEnd 0, .markRunning 0 5]

/-- A second run is up when the task of the first, which has been stopped, gets the lock. -/
def endsLate : List Event :=
  [.checkRunning 0, .spawnProxy 0 true, .markRunning 0 5, .stopProxy, .checkRunning 0,
    .spawnProxy 0 true, .markRunning 0 6, .runReturns 0]

/-- The flag of `bindFails` stays up without a task, and the first task of `endsLate` takes the
handle of the second run with it. -/
theorem runState_lies :
    ¬ StepRun.AllStates step (fun a => a.Quiet → a.Truthful) new bindFails ∧
      ¬ StepRun.AllSteps step EndSpares new (endsLate ++ [.taskEnd 0]) := by
  constructor
  · intro h
    have hlast := StepRun.allStates_last h rfl
    have hquiet := hlast fun call run hcall => by
      match call with
      | 0 => cases hcall
      | _ + 1 => cases hcall
    obtain ⟨hphase, -⟩ := (hquiet.shutdownTx 0).mp rfl
    exact hphase.elim nofun nofun
  · intro h
    have hlast := StepRun.allSteps_last h rfl rfl
    have hspared := (hlast _ 0 1 rfl rfl (by decide)).1 rfl
    exact absurd hspared.1 (by decide)

end App

end Rahgozar.Desktop
