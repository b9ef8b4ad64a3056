import Rahgozar.Lib.Run

set_option autoImplicit false

/-! # The lifecycle of the VPN service (`RahgozarVpnService.kt`)

The main thread handles the intents: it asks `VpnLifecycleGuards` and spawns a worker. The workers
of Stop (and `onDestroy`, on the main thread), Pause and Connect or Resume work on the native state
under `lifecycleLock`.

A step is one access to an atomic flag, or what a thread does to the native state between two of
them; the threads' steps come in any order, and a worker may come to its first one arbitrarily late.
The lock is a place for one thread. A thread that has no more steps is gone.
-/

namespace Rahgozar.Android

inductive Intent where
  | connect
  | pause
  | resume
  | stop
deriving DecidableEq

/-- `VpnLifecycleGuards`. -/
structure VpnLifecycleGuards where
  pausedFlag : Bool
  startingFlag : Bool
  stopRequestedFlag : Bool
deriving DecidableEq

/-- What the main thread does next. -/
inductive MainThread where
  | idle
  -- `tryPause`
  | pauseStopRequested
  | pauseCas
  -- `tryResume`
  | resumeStopRequested
  | resumePaused
  -- `spawnStart` and `tryStart`, for Connect or Resume
  | startIsRunning (action : Intent)
  | startStopRequested (action : Intent) (isRunning : Bool)
  | startWasPaused (action : Intent) (isRunning : Bool)
  | startCas (action : Intent) (wasPaused : Bool)
  | startClearPaused (action : Intent)
  -- in the teardown of `onDestroy`
  | destroying
deriving DecidableEq

/-- Who tears down for good: the worker of Stop, or `onDestroy`. -/
inductive Stopper where
  | worker
  | onDestroy
deriving DecidableEq

/-- What a thread that does not hold `lifecycleLock` does next. -/
inductive Outside where
  -- `runTeardown` of a stopper: the claim of the flag, the lock, and the release of the flag
  | teardownCas (stopper : Stopper)
  | teardownEnter (stopper : Stopper)
  | teardownReset (stopper : Stopper)
  | pauseEnter
  | startEnter
  | finishStart
deriving DecidableEq

/-- What the thread that holds `lifecycleLock` does next. -/
inductive Inside where
  | teardownNative (stopper : Stopper)
  | teardownRunning (stopper : Stopper)
  -- the pause worker, with `tornDownAnything`
  | pauseCas
  | pauseNative
  | pauseRunning (tornDown : Bool)
  | pauseReset (tornDown : Bool)
  | pauseStopRequested (tornDown : Bool)
  | pausePaused (tornDown : Bool)
  | pauseCancel
  -- `startEverything`
  | startStopRequested
  | startCas
  | startNative
  | startRunning
  | startReset
  | startRecheck
  | startProxy
  | startTun
  | startPublish
deriving DecidableEq

/-- The service. `stopped` and `last` are history: the calls of `Native.stopProxy`, and the last
action that no try-decision ignored. -/
structure VpnService where
  guards : VpnLifecycleGuards
  teardownInProgress : Bool
  main : MainThread
  inside : Option Inside
  outside : List Outside
  proxyHandle : Nat
  tun : Bool
  tun2proxyThread : Bool
  isRunning : Bool
  handleCounter : Nat
  stopped : List Nat
  last : Option Intent
deriving DecidableEq

inductive LifecycleEvent where
  | intent (action : Intent)
  | destroy
  | main
  | outside (t : Outside)
  /-- `vpn` is the connection mode of the configuration, where it is asked for. -/
  | inside (vpn : Bool)
deriving DecidableEq

namespace VpnService

def init : VpnService where
  guards := ⟨false, false, false⟩
  teardownInProgress := false
  main := .idle
  inside := none
  outside := []
  proxyHandle := 0
  tun := false
  tun2proxyThread := false
  isRunning := false
  handleCounter := 1
  stopped := []
  last := none

def stopRequested (s : VpnService) : Bool := s.guards.stopRequestedFlag

def setPaused (s : VpnService) (b : Bool) : VpnService :=
  { s with guards := { s.guards with pausedFlag := b } }

def setStarting (s : VpnService) (b : Bool) : VpnService :=
  { s with guards := { s.guards with startingFlag := b } }

def spawn (s : VpnService) (t : Outside) (action : Intent) : VpnService :=
  { s with main := .idle, outside := t :: s.outside, last := some action }

/-- `requestStop`, and the thread that tears down. -/
def requestStop (s : VpnService) (stopper : Stopper) (next : MainThread) : VpnService :=
  { s with
    guards := { s.guards with stopRequestedFlag := true }
    main := next
    outside := .teardownCas stopper :: s.outside
    last := some .stop }

def onStartCommand (s : VpnService) : Intent → VpnService
  | .stop => s.requestStop .worker .idle
  | .pause => { s with main := .pauseStopRequested }
  | .resume => { s with main := .resumeStopRequested }
  | .connect => { s with main := .startIsRunning .connect }

def mainStep (s : VpnService) : Option VpnService :=
  match s.main with
  | .idle => none
  | .destroying => none
  | .pauseStopRequested =>
      some { s with main := if s.stopRequested then .idle else .pauseCas }
  | .pauseCas =>
      if s.guards.pausedFlag then some { s with main := .idle }
      else some ((s.setPaused true).spawn .pauseEnter .pause)
  | .resumeStopRequested =>
      some { s with main := if s.stopRequested then .idle else .resumePaused }
  | .resumePaused =>
      some { s with main := if s.guards.pausedFlag then .startIsRunning .resume else .idle }
  | .startIsRunning action => some { s with main := .startStopRequested action s.isRunning }
  | .startStopRequested action isRunning =>
      some { s with main := if s.stopRequested then .idle else .startWasPaused action isRunning }
  | .startWasPaused action isRunning =>
      let wasPaused := s.guards.pausedFlag
      some { s with main := if isRunning && !wasPaused then .idle else .startCas action wasPaused }
  | .startCas action wasPaused =>
      if s.guards.startingFlag then some { s with main := .idle }
      else if wasPaused then some { s.setStarting true with main := .startClearPaused action }
      else some ((s.setStarting true).spawn .startEnter action)
  | .startClearPaused action => some ((s.setPaused false).spawn .startEnter action)

/-- A stopper has no more steps. -/
def stopperDone (s : VpnService) : Stopper → VpnService
  | .worker => s
  | .onDestroy => { s with main := .idle }

/-- The lock is free and the thread takes it. -/
def enter (s : VpnService) (i : Inside) : Option VpnService :=
  if s.inside.isNone then some { s with inside := some i } else none

def outsideStep (s : VpnService) (t : Outside) : Option VpnService :=
  if t ∈ s.outside then
    let s := { s with outside := s.outside.erase t }
    match t with
    | .teardownCas stopper =>
        if s.teardownInProgress then some (s.stopperDone stopper)
        else some { s with
          teardownInProgress := true, outside := .teardownEnter stopper :: s.outside }
    | .teardownEnter stopper => s.enter (.teardownNative stopper)
    | .teardownReset stopper => some ({ s with teardownInProgress := false }.stopperDone stopper)
    | .pauseEnter => s.enter .pauseCas
    | .startEnter => s.enter .startStopRequested
    | .finishStart => some (s.setStarting false)
  else none

def hasNativeState (s : VpnService) : Bool :=
  s.proxyHandle ≠ 0 || s.tun || s.tun2proxyThread

/-- `runTeardownLocked` up to the flip of the UI state. -/
def clearNative (s : VpnService) : VpnService :=
  { s with
    proxyHandle := 0
    tun := false
    tun2proxyThread := false
    stopped := if s.proxyHandle = 0 then s.stopped else s.proxyHandle :: s.stopped }

def goto (s : VpnService) (i : Inside) : VpnService := { s with inside := some i }

/-- The thread lets the lock go and has the steps `next` still to do. -/
def leave (s : VpnService) (next : List Outside) : VpnService :=
  { s with inside := none, outside := next ++ s.outside }

def insideStep (s : VpnService) (vpn : Bool) (i : Inside) : VpnService :=
  match i with
  | .teardownNative stopper => s.clearNative.goto (.teardownRunning stopper)
  | .teardownRunning stopper => { s with isRunning := false }.leave [.teardownReset stopper]
  | .pauseCas =>
      if s.teardownInProgress then s.goto (.pauseStopRequested false)
      else { s with teardownInProgress := true }.goto .pauseNative
  | .pauseNative => s.clearNative.goto (.pauseRunning s.hasNativeState)
  | .pauseRunning tornDown => { s with isRunning := false }.goto (.pauseReset tornDown)
  | .pauseReset tornDown =>
      { s with teardownInProgress := false }.goto (.pauseStopRequested tornDown)
  | .pauseStopRequested tornDown =>
      if s.stopRequested then s.leave [] else s.goto (.pausePaused tornDown)
  | .pausePaused tornDown =>
      if s.guards.pausedFlag && !tornDown then s.goto .pauseCancel else s.leave []
  | .pauseCancel => (s.setPaused false).leave []
  | .startStopRequested =>
      if s.stopRequested then s.leave [.finishStart]
      else if s.hasNativeState then s.goto .startCas
      else s.goto .startProxy
  | .startCas =>
      if s.teardownInProgress then s.goto .startRecheck
      else { s with teardownInProgress := true }.goto .startNative
  | .startNative => s.clearNative.goto .startRunning
  | .startRunning => { s with isRunning := false }.goto .startReset
  | .startReset => { s with teardownInProgress := false }.goto .startRecheck
  | .startRecheck =>
      if s.stopRequested then s.leave [.finishStart] else s.goto .startProxy
  | .startProxy =>
      { s with proxyHandle := s.handleCounter, handleCounter := s.handleCounter + 1 }.goto .startTun
  | .startTun =>
      if vpn then { s with tun := true, tun2proxyThread := true }.goto .startPublish
      else s.goto .startPublish
  | .startPublish => { s with isRunning := true }.leave [.finishStart]

def step (s : VpnService) : LifecycleEvent → Option VpnService
  | .intent action => if s.main = .idle then some (s.onStartCommand action) else none
  | .destroy => if s.main = .idle then some (s.requestStop .onDestroy .destroying) else none
  | .main => s.mainStep
  | .outside t => s.outsideStep t
  | .inside vpn => s.inside.map (s.insideStep vpn)

/-! ## What is asked for -/

/-- All workers have finished. -/
def Finished (s : VpnService) : Prop := s.inside = none ∧ s.outside = []

/-- Does the action bring the proxy up? -/
def brings : Option Intent → Bool
  | some .connect => true
  | some .resume => true
  | _ => false

def StopWins (s : VpnService) : Prop :=
  Finished s → s.stopRequested = true →
    s.proxyHandle = 0 ∧ s.tun = false ∧ s.tun2proxyThread = false ∧ s.isRunning = false

def LastActionWins (s : VpnService) : Prop :=
  Finished s → s.stopRequested = false → (s.proxyHandle ≠ 0 ↔ brings s.last = true)

/-- The handles `Native.startProxy` has returned and nobody has stopped. -/
def live (s : VpnService) : List Nat :=
  (List.range' 1 (s.handleCounter - 1)).filter (· ∉ s.stopped)

structure HandlesSafe (s : VpnService) : Prop where
  once : s.stopped.Nodup
  returned : ∀ h ∈ s.stopped, 1 ≤ h ∧ h < s.handleCounter
  live : s.live.length ≤ 1

def RunningAgrees (s : VpnService) : Prop :=
  s.inside = none → (s.isRunning = true ↔ s.proxyHandle ≠ 0)

/-- A thread that has been spawned to bring the proxy up or down, and has not come to the lock. -/
def waits : Outside → Bool
  | .pauseEnter => true
  | .startEnter => true
  | _ => false

/-- Unless a stop has been requested, the worker that comes to the lock as the last of those that
wait does what the last action asks for. -/
def LastEntersLast (s : VpnService) : LifecycleEvent → Prop
  | .outside t =>
      s.stopRequested = false → waits t = true → (∀ u ∈ s.outside.erase t, waits u = false) →
        (t = .startEnter ↔ brings s.last = true)
  | _ => True

/-! ## The proof outline

What holds at each place inside the lock. Only the thread inside changes the native state, and the
stop flag never goes down, so no other thread's step breaks it.
-/

/-- The UI state says what is there. -/
def Agrees (s : VpnService) : Prop := s.isRunning = true ↔ s.proxyHandle ≠ 0

/-- The native state is down, or a stop has been requested. -/
def DownOrStop (s : VpnService) : Prop := s.proxyHandle = 0 ∨ s.stopRequested = true

def Outline (s : VpnService) : Option Inside → Prop
  | none => Agrees s
  | some (.teardownNative _) => Agrees s ∧ s.stopRequested = true
  | some (.teardownRunning _) => s.proxyHandle = 0 ∧ s.stopRequested = true
  | some .pauseCas => Agrees s
  | some .pauseNative => Agrees s
  | some (.pauseRunning _) => s.proxyHandle = 0
  | some (.pauseReset _) => Agrees s ∧ s.proxyHandle = 0
  | some (.pauseStopRequested _) => Agrees s ∧ DownOrStop s
  | some (.pausePaused _) => Agrees s ∧ DownOrStop s
  | some .pauseCancel => Agrees s ∧ DownOrStop s
  | some .startStopRequested => Agrees s
  | some .startCas => Agrees s
  | some .startNative => Agrees s
  | some .startRunning => s.proxyHandle = 0
  | some .startReset => Agrees s ∧ s.proxyHandle = 0
  | some .startRecheck => Agrees s ∧ DownOrStop s
  | some .startProxy => Agrees s ∧ s.proxyHandle = 0
  | some .startTun => s.proxyHandle ≠ 0
  | some .startPublish => s.proxyHandle ≠ 0

/-- The handles: what is stopped has been returned, and what is not stopped is `proxyHandle`. -/
structure NativeInv (s : VpnService) : Prop where
  counter : s.proxyHandle < s.handleCounter
  stopped : ∀ h ∈ s.stopped, 1 ≤ h ∧ h < s.handleCounter
  once : s.stopped.Nodup
  notStopped : s.proxyHandle ∉ s.stopped
  live : ∀ h, 1 ≤ h → h < s.handleCounter → h ∉ s.stopped → h = s.proxyHandle
  empty : s.proxyHandle = 0 → s.tun = false ∧ s.tun2proxyThread = false

/-- The thread is in the teardown of a stopper. -/
def stops : Outside → Bool
  | .teardownCas _ => true
  | .teardownEnter _ => true
  | .teardownReset _ => true
  | _ => false

/-- The thread inside has set `teardownInProgress` and will reset it. -/
def claims : Inside → Bool
  | .teardownNative _ => true
  | .teardownRunning _ => true
  | .pauseNative => true
  | .pauseRunning _ => true
  | .pauseReset _ => true
  | .startNative => true
  | .startRunning => true
  | .startReset => true
  | _ => false

/-- The thread inside takes the native state down next, and does not bring it up again. -/
def clears : Inside → Bool
  | .teardownNative _ => true
  | .pauseNative => true
  | .startNative => true
  | _ => false

/-- There is no native state, and no thread is about to make one. -/
def Down (s : VpnService) : Prop := s.proxyHandle = 0 ∧ s.inside ≠ some .startProxy

/-- A thread has set `teardownInProgress`. -/
def Claimed (s : VpnService) : Prop :=
  (∃ stopper, .teardownEnter stopper ∈ s.outside) ∨
    (∃ stopper, .teardownReset stopper ∈ s.outside) ∨ ∃ i, s.inside = some i ∧ claims i = true

/-- A teardown is still to come. -/
def Pending (s : VpnService) : Prop :=
  (∃ stopper, .teardownCas stopper ∈ s.outside) ∨
    (∃ stopper, .teardownEnter stopper ∈ s.outside) ∨ ∃ i, s.inside = some i ∧ clears i = true

structure Inv (s : VpnService) : Prop where
  native : NativeInv s
  outline : Outline s s.inside
  stoppers : ∀ t ∈ s.outside, stops t = true → s.stopRequested = true
  claimed : s.teardownInProgress = true → Claimed s
  resetting : ∀ stopper, .teardownReset stopper ∈ s.outside → Down s
  covered : s.stopRequested = true → Down s ∨ Pending s

variable {s t : VpnService} {i j : Inside} {e : LifecycleEvent}

theorem init_inv : Inv init where
  native := ⟨by decide, nofun, List.nodup_nil, nofun, by
    intro h h1 h2
    have hlt : h < 1 := h2
    omega, fun _ => ⟨rfl, rfl⟩⟩
  outline := ⟨nofun, fun h => absurd rfl h⟩
  stoppers := nofun
  claimed := nofun
  resetting := nofun
  covered := nofun

/-! ### The thread inside -/

/-- A thread that sees the flag up without having claimed it is in the lock beside a stopper. -/
theorem Inv.stopRequested_of_claimed (h : Inv s) (hi : s.inside = some i)
    (hclaims : claims i = false) (hprogress : s.teardownInProgress = true) :
    s.stopRequested = true := by
  rcases h.claimed hprogress with ⟨k, hk⟩ | ⟨k, hk⟩ | ⟨i', hi', hc⟩
  · exact h.stoppers _ hk rfl
  · exact h.stoppers _ hk rfl
  · rw [hi] at hi'
    cases hi'
    rw [hclaims] at hc
    cases hc

theorem Down.goto (h : Down s) (hj : j ≠ .startProxy) : Down (s.goto j) := by
  refine ⟨h.1, fun hstart => hj ?_⟩
  exact Option.some.inj hstart

theorem Pending.goto (h : Pending s) (hi : s.inside = some i) (hclears : clears i = false) :
    Pending (s.goto j) := by
  rcases h with hcas | henter | ⟨i', hi', hc⟩
  · exact .inl hcas
  · exact .inr (.inl henter)
  · rw [hi] at hi'
    cases hi'
    rw [hclears] at hc
    cases hc

theorem Claimed.goto (h : Claimed s) (hi : s.inside = some i)
    (hclaims : claims i = true → claims j = true) : Claimed (s.goto j) := by
  rcases h with henter | hreset | ⟨i', hi', hc⟩
  · exact .inl henter
  · exact .inr (.inl hreset)
  · rw [hi] at hi'
    cases hi'
    exact .inr (.inr ⟨j, rfl, hclaims hc⟩)

/-- A step of the thread inside that leaves the native state alone. -/
theorem Inv.goto (h : Inv s) (hi : s.inside = some i) (hclears : clears i = false)
    (hclaims : s.teardownInProgress = true → claims i = true → claims j = true)
    (hstart : j = .startProxy → s.stopRequested = false) (houtline : Outline s (some j)) :
    Inv (s.goto j) := by
  have hne : s.stopRequested = true → j ≠ .startProxy := by
    rintro hstop rfl
    rw [hstart rfl] at hstop
    cases hstop
  exact {
    native := { h.native with }
    outline := houtline
    stoppers := h.stoppers
    claimed := fun hp => (h.claimed hp).goto hi (hclaims hp)
    resetting := fun k hk => (h.resetting k hk).goto (hne (h.stoppers _ hk rfl))
    covered := fun hstop => (h.covered hstop).imp (·.goto (hne hstop)) (·.goto hi hclears) }

/-- The thread inside lets the lock go. -/
theorem Inv.leave {next : List Outside} (h : Inv s) (hi : s.inside = some i)
    (hclears : clears i = false) (hclaims : claims i = false) (hagrees : Agrees s)
    (hnext : ∀ u ∈ next, stops u = false) : Inv (s.leave next) where
  native := { h.native with }
  outline := hagrees
  stoppers u hu hstops := by
    rcases List.mem_append.mp hu with hu | hu
    · rw [hnext u hu] at hstops
      cases hstops
    · exact h.stoppers u hu hstops
  claimed hp := by
    rcases h.claimed hp with ⟨k, hk⟩ | ⟨k, hk⟩ | ⟨i', hi', hc⟩
    · exact .inl ⟨k, List.mem_append_right _ hk⟩
    · exact .inr (.inl ⟨k, List.mem_append_right _ hk⟩)
    · rw [hi] at hi'
      cases hi'
      rw [hclaims] at hc
      cases hc
  resetting k hk := by
    rcases List.mem_append.mp hk with hk | hk
    · cases hnext _ hk
    · exact ⟨(h.resetting k hk).1, nofun⟩
  covered hstop := by
    rcases h.covered hstop with hdown | ⟨k, hk⟩ | ⟨k, hk⟩ | ⟨i', hi', hc⟩
    · exact .inl ⟨hdown.1, nofun⟩
    · exact .inr (.inl ⟨k, List.mem_append_right _ hk⟩)
    · exact .inr (.inr (.inl ⟨k, List.mem_append_right _ hk⟩))
    · rw [hi] at hi'
      cases hi'
      rw [hclears] at hc
      cases hc

/-- The flip of the UI state. -/
theorem Inv.setRunning {b : Bool} (h : Inv s)
    (houtline : Outline { s with isRunning := b } s.inside) :
    Inv { s with isRunning := b } where
  native := { h.native with }
  outline := houtline
  stoppers := h.stoppers
  claimed := h.claimed
  resetting := h.resetting
  covered := h.covered

/-- `teardownInProgress.set(false)`. -/
theorem Inv.reset (h : Inv s) : Inv { s with teardownInProgress := false } where
  native := { h.native with }
  outline := h.outline
  stoppers := h.stoppers
  claimed := nofun
  resetting := h.resetting
  covered := h.covered

/-- The thread inside has claimed the teardown. -/
theorem Inv.claim (h : Inv s) (hclaims : claims j = true) (hclears : clears j = true)
    (houtline : Outline s (some j)) : Inv ({ s with teardownInProgress := true }.goto j) where
  native := { h.native with }
  outline := houtline
  stoppers := h.stoppers
  claimed _ := .inr (.inr ⟨j, rfl, hclaims⟩)
  resetting k hk := by
    have hdown : Down s := h.resetting k hk
    refine ⟨hdown.1, ?_⟩
    rintro hj
    cases hj
    cases hclears
  covered _ := .inr (.inr (.inr ⟨j, rfl, hclears⟩))

theorem NativeInv.clear (h : NativeInv s) : NativeInv s.clearNative := by
  by_cases hzero : s.proxyHandle = 0
  · have hstopped : s.clearNative.stopped = s.stopped := if_pos hzero
    refine ⟨?_, ?_, ?_, ?_, ?_, fun _ => ⟨rfl, rfl⟩⟩
    · exact Nat.zero_lt_of_lt h.counter
    · rw [hstopped]
      exact h.stopped
    · rw [hstopped]
      exact h.once
    · rw [hstopped]
      intro hmem
      exact absurd (h.stopped 0 hmem).1 (by decide)
    · rw [hstopped]
      intro n h1 h2 hn
      exact (h.live n h1 h2 hn).trans hzero
  · have hstopped : s.clearNative.stopped = s.proxyHandle :: s.stopped := if_neg hzero
    refine ⟨?_, ?_, ?_, ?_, ?_, fun _ => ⟨rfl, rfl⟩⟩
    · exact Nat.zero_lt_of_lt h.counter
    · rw [hstopped]
      intro n hn
      rcases List.mem_cons.mp hn with rfl | hn
      · exact ⟨Nat.one_le_iff_ne_zero.mpr hzero, h.counter⟩
      · exact h.stopped n hn
    · rw [hstopped]
      exact List.nodup_cons.mpr ⟨h.notStopped, h.once⟩
    · rw [hstopped]
      intro hmem
      rcases List.mem_cons.mp hmem with heq | hmem
      · exact hzero heq.symm
      · exact absurd (h.stopped 0 hmem).1 (by decide)
    · rw [hstopped]
      intro n h1 h2 hn
      -- a handle that was not stopped before would be the one that is stopped now
      have hmem : n ∉ s.stopped := fun hmem => hn (List.mem_cons_of_mem _ hmem)
      exact absurd (h.live n h1 h2 hmem) (fun heq => hn (heq ▸ List.mem_cons_self))

/-- The body of a teardown. -/
theorem Inv.clear (h : Inv s) (hclaims : claims j = true) (hj : j ≠ .startProxy)
    (houtline : Outline s.clearNative (some j)) : Inv (s.clearNative.goto j) := by
  have hdown : Down (s.clearNative.goto j) := ⟨rfl, fun hstart => hj (Option.some.inj hstart)⟩
  exact {
    native := { h.native.clear with }
    outline := houtline
    stoppers := h.stoppers
    claimed := fun _ => .inr (.inr ⟨j, rfl, hclaims⟩)
    resetting := fun _ _ => hdown
    covered := fun _ => .inl hdown }

/-- `Native.startProxy`. A stop that has come in the meantime is still to do its teardown. -/
theorem Inv.startProxy (h : Inv s) (hi : s.inside = some .startProxy) :
    Inv ({ s with proxyHandle := s.handleCounter,
                  handleCounter := s.handleCounter + 1 }.goto .startTun) := by
  have hzero : s.proxyHandle = 0 := by
    have houtline := h.outline
    rw [hi] at houtline
    exact houtline.2
  have hnotDown : ¬Down s := fun hdown => hdown.2 hi
  have hpos : 0 < s.handleCounter := hzero ▸ h.native.counter
  refine ⟨⟨?_, ?_, h.native.once, ?_, ?_, ?_⟩, ?_, h.stoppers, ?_, ?_, ?_⟩
  · exact Nat.lt_succ_self _
  · intro n hn
    exact ⟨(h.native.stopped n hn).1, Nat.lt_succ_of_lt (h.native.stopped n hn).2⟩
  · intro hmem
    exact absurd (h.native.stopped _ hmem).2 (lt_irrefl _)
  · intro n h1 h2 hn
    by_contra hne
    have hlt : n < s.handleCounter := lt_of_le_of_ne (Nat.lt_succ_iff.mp h2) hne
    have hn0 : n = 0 := (h.native.live n h1 hlt hn).trans hzero
    omega
  · intro h0
    exact absurd h0 hpos.ne'
  · exact hpos.ne'
  · exact fun hp => (h.claimed hp).goto hi nofun
  · exact fun k hk => absurd (h.resetting k hk) hnotDown
  · intro hstop
    rcases h.covered hstop with hdown | hpending
    · exact absurd hdown hnotDown
    · exact .inr (hpending.goto hi rfl)

/-- The TUN and its worker. -/
theorem Inv.startTun (h : Inv s) (hi : s.inside = some .startTun) (hne : s.proxyHandle ≠ 0) :
    Inv { s with tun := true, tun2proxyThread := true } where
  native := { h.native with empty := fun h0 => absurd h0 hne }
  outline := by
    rw [hi]
    exact hne
  stoppers := h.stoppers
  claimed := h.claimed
  resetting := h.resetting
  covered := h.covered

/-- A step on the two flags that no invariant mentions. -/
theorem Inv.frame {out : List Outside} (h : Inv s) (main : MainThread) (paused starting : Bool)
    (last : Option Intent) (hout : ∀ u, stops u = true → (u ∈ out ↔ u ∈ s.outside)) :
    Inv { s with main := main, guards := ⟨paused, starting, s.guards.stopRequestedFlag⟩,
                 outside := out, last := last } where
  native := { h.native with }
  outline := h.outline
  stoppers u hu hstops := h.stoppers u ((hout u hstops).mp hu) hstops
  claimed hp := by
    rcases h.claimed hp with ⟨k, hk⟩ | ⟨k, hk⟩ | hi
    · exact .inl ⟨k, (hout _ rfl).mpr hk⟩
    · exact .inr (.inl ⟨k, (hout _ rfl).mpr hk⟩)
    · exact .inr (.inr hi)
  resetting k hk := h.resetting k ((hout _ rfl).mp hk)
  covered hstop := by
    rcases h.covered hstop with hdown | ⟨k, hk⟩ | ⟨k, hk⟩ | hi
    · exact .inl hdown
    · exact .inr (.inl ⟨k, (hout _ rfl).mpr hk⟩)
    · exact .inr (.inr (.inl ⟨k, (hout _ rfl).mpr hk⟩))
    · exact .inr (.inr (.inr hi))

theorem agrees_zero (s : VpnService) (h : s.proxyHandle = 0) :
    Agrees { s with isRunning := false } :=
  ⟨nofun, fun hne => absurd h hne⟩

theorem hasNativeState_eq_false (h : s.hasNativeState = false) : s.proxyHandle = 0 := by
  simp only [hasNativeState, ne_eq, Bool.or_eq_false_iff, decide_eq_false_iff_not, not_not] at h
  exact h.1.1

theorem insideStep_inv {vpn : Bool} (h : Inv s) (hi : s.inside = some i) :
    Inv (s.insideStep vpn i) := by
  have houtline : Outline s (some i) := hi ▸ h.outline
  unfold insideStep
  cases i with
  | teardownNative stopper => exact h.clear rfl nofun ⟨rfl, houtline.2⟩
  | teardownRunning stopper =>
      have hset : Inv { s with isRunning := false } := h.setRunning (by rw [hi]; exact houtline)
      refine ⟨{ hset.native with }, agrees_zero s houtline.1, ?_, ?_, ?_, ?_⟩
      · intro _ _ _
        exact houtline.2
      · exact fun _ => .inr (.inl ⟨stopper, List.mem_cons_self⟩)
      · exact fun _ _ => ⟨houtline.1, nofun⟩
      · exact fun _ => .inl ⟨houtline.1, nofun⟩
  | pauseCas =>
      dsimp only
      split_ifs with hp
      · -- the teardown is claimed by somebody else, and a stop has been asked for
        have hstop : s.stopRequested = true := h.stopRequested_of_claimed hi rfl hp
        exact h.goto hi rfl nofun nofun ⟨houtline, .inr hstop⟩
      · exact h.claim rfl rfl houtline
  | pauseNative => exact h.clear rfl nofun rfl
  | pauseRunning tornDown =>
      have hset : Inv { s with isRunning := false } := h.setRunning (by rw [hi]; exact houtline)
      exact hset.goto hi rfl (fun _ _ => rfl) nofun ⟨agrees_zero s houtline, houtline⟩
  | pauseReset tornDown =>
      exact h.reset.goto hi rfl nofun nofun ⟨houtline.1, .inl houtline.2⟩
  | pauseStopRequested tornDown =>
      dsimp only
      split_ifs with hstop
      · exact h.leave hi rfl rfl houtline.1 nofun
      · exact h.goto hi rfl nofun nofun houtline
  | pausePaused tornDown =>
      dsimp only
      split_ifs with hcancel
      · exact h.goto hi rfl nofun nofun houtline
      · exact h.leave hi rfl rfl houtline.1 nofun
  | pauseCancel =>
      have hset : Inv (s.setPaused false) :=
        h.frame s.main false s.guards.startingFlag s.last (fun _ _ => Iff.rfl)
      exact hset.leave hi rfl rfl houtline.1 nofun
  | startStopRequested =>
      dsimp only
      split_ifs with hstop hnative
      · refine h.leave hi rfl rfl houtline ?_
        simp [stops]
      · exact h.goto hi rfl nofun nofun houtline
      · -- without native state there is no proxy either
        have hzero : s.proxyHandle = 0 := hasNativeState_eq_false (Bool.eq_false_iff.mpr hnative)
        exact h.goto hi rfl nofun (fun _ => Bool.eq_false_iff.mpr hstop) ⟨houtline, hzero⟩
  | startCas =>
      dsimp only
      split_ifs with hp
      · have hstop : s.stopRequested = true := h.stopRequested_of_claimed hi rfl hp
        exact h.goto hi rfl nofun nofun ⟨houtline, .inr hstop⟩
      · exact h.claim rfl rfl houtline
  | startNative => exact h.clear rfl nofun rfl
  | startRunning =>
      have hset : Inv { s with isRunning := false } := h.setRunning (by rw [hi]; exact houtline)
      exact hset.goto hi rfl (fun _ _ => rfl) nofun ⟨agrees_zero s houtline, houtline⟩
  | startReset =>
      exact h.reset.goto hi rfl nofun nofun ⟨houtline.1, .inl houtline.2⟩
  | startRecheck =>
      dsimp only
      split_ifs with hstop
      · refine h.leave hi rfl rfl houtline.1 ?_
        simp [stops]
      · -- nobody has asked for a stop, so there is no proxy left
        have hzero : s.proxyHandle = 0 := houtline.2.resolve_right hstop
        exact h.goto hi rfl nofun (fun _ => Bool.eq_false_iff.mpr hstop) ⟨houtline.1, hzero⟩
  | startProxy => exact h.startProxy hi
  | startTun =>
      dsimp only
      split_ifs
      · exact (h.startTun hi houtline).goto hi rfl nofun nofun houtline
      · exact h.goto hi rfl nofun nofun houtline
  | startPublish =>
      have hset : Inv { s with isRunning := true } := h.setRunning (by rw [hi]; exact houtline)
      refine hset.leave hi rfl rfl ⟨fun _ => houtline, fun _ => rfl⟩ ?_
      simp [stops]

/-! ### The threads outside -/

/-- A worker that is no stopper takes the lock. -/
theorem Inv.enter {v : Outside} (h : Inv s)
    (ht : { s with outside := s.outside.erase v }.enter i = some t) (hstops : stops v = false)
    (hi : i ≠ .startProxy) (houtline : Agrees s → Outline s (some i)) : Inv t := by
  unfold VpnService.enter at ht
  split_ifs at ht with hnone
  cases ht
  have hinside : s.inside = none := Option.isNone_iff_eq_none.mp hnone
  have hmem : ∀ u, stops u = true → (u ∈ s.outside.erase v ↔ u ∈ s.outside) := by
    intro u hu
    refine List.mem_erase_of_ne ?_
    rintro rfl
    rw [hstops] at hu
    cases hu
  have hframe := h.frame s.main s.guards.pausedFlag s.guards.startingFlag s.last hmem
  have hagrees : Agrees s := by
    have hout := h.outline
    rw [hinside] at hout
    exact hout
  refine ⟨{ h.native with }, houtline hagrees, hframe.stoppers, ?_, ?_, ?_⟩
  · intro hp
    rcases hframe.claimed hp with henter | hreset | ⟨i', hi', -⟩
    · exact .inl henter
    · exact .inr (.inl hreset)
    · cases hinside.symm.trans hi'
  · exact fun k hk => ⟨(hframe.resetting k hk).1, fun hstart => hi (Option.some.inj hstart)⟩
  · intro hstop
    rcases hframe.covered hstop with hdown | hcas | henter | ⟨i', hi', -⟩
    · exact .inl ⟨hdown.1, fun hstart => hi (Option.some.inj hstart)⟩
    · exact .inr (.inl hcas)
    · exact .inr (.inr (.inl henter))
    · cases hinside.symm.trans hi'

/-- A stopper is done. -/
theorem Inv.stopperDone (h : Inv s) (stopper : Stopper) : Inv (s.stopperDone stopper) := by
  cases stopper with
  | worker => exact h
  | onDestroy =>
      exact h.frame .idle s.guards.pausedFlag s.guards.startingFlag s.last (fun _ _ => Iff.rfl)

/-- A stopper that finds the flag up: who has set it takes the native state down, or has done so. -/
theorem Inv.stopperSkips {stopper : Stopper} (h : Inv s) (hp : s.teardownInProgress = true) :
    Inv { s with outside := s.outside.erase (.teardownCas stopper) } := by
  have henter : ∀ k, .teardownEnter k ∈ s.outside.erase (.teardownCas stopper) ↔
      .teardownEnter k ∈ s.outside := fun k => List.mem_erase_of_ne nofun
  have hreset : ∀ k, .teardownReset k ∈ s.outside.erase (.teardownCas stopper) ↔
      .teardownReset k ∈ s.outside := fun k => List.mem_erase_of_ne nofun
  refine ⟨{ h.native with }, h.outline, ?_, ?_, ?_, ?_⟩
  · exact fun u hu => h.stoppers u (List.mem_of_mem_erase hu)
  · intro _
    rcases h.claimed hp with ⟨k, hk⟩ | ⟨k, hk⟩ | hi
    · exact .inl ⟨k, (henter k).mpr hk⟩
    · exact .inr (.inl ⟨k, (hreset k).mpr hk⟩)
    · exact .inr (.inr hi)
  · exact fun k hk => h.resetting k ((hreset k).mp hk)
  · intro _
    rcases h.claimed hp with ⟨k, hk⟩ | ⟨k, hk⟩ | ⟨i, hi, hclaims⟩
    · exact .inr (.inr (.inl ⟨k, (henter k).mpr hk⟩))
    · exact .inl (h.resetting k hk)
    · have houtline : Outline s (some i) := hi ▸ h.outline
      -- the thread inside has the native state still to take down, or has taken it down
      have hdown : i ≠ .startProxy → s.proxyHandle = 0 →
          Down { s with outside := s.outside.erase (.teardownCas stopper) } := by
        intro hne hzero
        exact ⟨hzero, fun hstart => hne (Option.some.inj (hi.symm.trans hstart))⟩
      cases i with
      | teardownNative k => exact .inr (.inr (.inr ⟨_, hi, rfl⟩))
      | pauseNative => exact .inr (.inr (.inr ⟨_, hi, rfl⟩))
      | startNative => exact .inr (.inr (.inr ⟨_, hi, rfl⟩))
      | teardownRunning k => exact .inl (hdown nofun houtline.1)
      | pauseRunning tornDown => exact .inl (hdown nofun houtline)
      | pauseReset tornDown => exact .inl (hdown nofun houtline.2)
      | startRunning => exact .inl (hdown nofun houtline)
      | startReset => exact .inl (hdown nofun houtline.2)
      | _ => cases hclaims

theorem Inv.stopperClaims {stopper : Stopper} (h : Inv s)
    (hmem : .teardownCas stopper ∈ s.outside) :
    Inv { s with teardownInProgress := true,
                 outside := .teardownEnter stopper :: s.outside.erase (.teardownCas stopper) } where
  native := { h.native with }
  outline := h.outline
  stoppers _ _ _ := h.stoppers _ hmem rfl
  claimed _ := .inl ⟨stopper, List.mem_cons_self⟩
  resetting k hk := by
    rcases List.mem_cons.mp hk with heq | hk
    · cases heq
    · exact h.resetting k (List.mem_of_mem_erase hk)
  covered _ := .inr (.inr (.inl ⟨stopper, List.mem_cons_self⟩))

theorem Inv.stopperEnters {stopper : Stopper} (h : Inv s)
    (hmem : .teardownEnter stopper ∈ s.outside)
    (ht : { s with outside := s.outside.erase (.teardownEnter stopper) }.enter
      (.teardownNative stopper) = some t) : Inv t := by
  unfold VpnService.enter at ht
  split_ifs at ht with hnone
  cases ht
  have hagrees : Agrees s := by
    have hout := h.outline
    rw [Option.isNone_iff_eq_none.mp hnone] at hout
    exact hout
  refine ⟨{ h.native with }, ⟨hagrees, h.stoppers _ hmem rfl⟩, ?_, ?_, ?_, ?_⟩
  · exact fun u hu => h.stoppers u (List.mem_of_mem_erase hu)
  · exact fun _ => .inr (.inr ⟨_, rfl, rfl⟩)
  · exact fun k hk => ⟨(h.resetting k (List.mem_of_mem_erase hk)).1, nofun⟩
  · exact fun _ => .inr (.inr (.inr ⟨_, rfl, rfl⟩))

theorem Inv.stopperResets {stopper : Stopper} (h : Inv s) :
    Inv { s with teardownInProgress := false,
                 outside := s.outside.erase (.teardownReset stopper) } where
  native := { h.native with }
  outline := h.outline
  stoppers u hu := h.stoppers u (List.mem_of_mem_erase hu)
  claimed := nofun
  resetting k hk := h.resetting k (List.mem_of_mem_erase hk)
  covered hstop := by
    rcases h.covered hstop with hdown | ⟨k, hk⟩ | ⟨k, hk⟩ | hi
    · exact .inl hdown
    · exact .inr (.inl ⟨k, (List.mem_erase_of_ne (by nofun)).mpr hk⟩)
    · exact .inr (.inr (.inl ⟨k, (List.mem_erase_of_ne (by nofun)).mpr hk⟩))
    · exact .inr (.inr (.inr hi))

theorem outsideStep_inv {u : Outside} (h : Inv s) (ht : s.outsideStep u = some t) : Inv t := by
  unfold outsideStep at ht
  split_ifs at ht with hmem
  cases u with
  | teardownCas stopper =>
      dsimp only at ht
      split_ifs at ht with hp
      · cases ht
        exact (h.stopperSkips hp).stopperDone stopper
      · cases ht
        exact h.stopperClaims hmem
  | teardownEnter stopper => exact h.stopperEnters hmem ht
  | teardownReset stopper =>
      cases ht
      exact h.stopperResets.stopperDone stopper
  | pauseEnter => exact h.enter ht rfl nofun (fun hagrees => hagrees)
  | startEnter => exact h.enter ht rfl nofun (fun hagrees => hagrees)
  | finishStart =>
      cases ht
      refine h.frame s.main s.guards.pausedFlag false s.last ?_
      intro u hu
      refine List.mem_erase_of_ne ?_
      rintro rfl
      cases hu

/-! ### The main thread -/

theorem Inv.spawn {u : Outside} (h : Inv s) (paused starting : Bool) (action : Intent)
    (hu : stops u = false) :
    Inv ({ s with guards := ⟨paused, starting, s.guards.stopRequestedFlag⟩ }.spawn u action) := by
  refine h.frame .idle paused starting (some action) ?_
  intro v hv
  rw [List.mem_cons]
  refine or_iff_right ?_
  rintro rfl
  rw [hu] at hv
  cases hv

/-- A step of the main thread that only moves it on. -/
theorem Inv.mainGoto (h : Inv s) (main : MainThread) : Inv { s with main := main } :=
  h.frame main s.guards.pausedFlag s.guards.startingFlag s.last (fun _ _ => Iff.rfl)

/-- A step of the main thread moves it on, or spawns a worker that waits for the lock. -/
theorem mainStep_cases (ht : s.mainStep = some t) :
    (∃ main starting, t = { s with
      main := main, guards := ⟨s.guards.pausedFlag, starting, s.guards.stopRequestedFlag⟩ }) ∨
    ∃ paused starting u action, waits u = true ∧
      t = { s with guards := ⟨paused, starting, s.guards.stopRequestedFlag⟩ }.spawn u action := by
  unfold mainStep at ht
  cases hm : s.main with
  | idle => simp [hm] at ht
  | destroying => simp [hm] at ht
  | pauseCas =>
      simp only [hm] at ht
      split_ifs at ht
      · cases ht
        exact .inl ⟨_, _, rfl⟩
      · cases ht
        exact .inr ⟨true, _, _, _, rfl, rfl⟩
  | startCas action wasPaused =>
      simp only [hm] at ht
      split_ifs at ht
      · cases ht
        exact .inl ⟨_, _, rfl⟩
      · cases ht
        exact .inl ⟨_, true, rfl⟩
      · cases ht
        exact .inr ⟨_, true, _, _, rfl, rfl⟩
  | startClearPaused action =>
      simp only [hm] at ht
      cases ht
      exact .inr ⟨false, _, _, _, rfl, rfl⟩
  | _ =>
      simp only [hm] at ht
      cases ht
      exact .inl ⟨_, _, rfl⟩

theorem stops_of_waits {u : Outside} (h : waits u = true) : stops u = false := by
  cases u <;> first | rfl | cases h

theorem mainStep_inv (h : Inv s) (ht : s.mainStep = some t) : Inv t := by
  rcases mainStep_cases ht with ⟨main, starting, rfl⟩ | ⟨paused, starting, u, action, hu, rfl⟩
  · exact h.frame main s.guards.pausedFlag starting s.last (fun _ _ => Iff.rfl)
  · exact h.spawn paused starting action (stops_of_waits hu)

theorem Inv.requestStop (h : Inv s) (stopper : Stopper) (next : MainThread) :
    Inv (s.requestStop stopper next) where
  native := { h.native with }
  outline := by
    have houtline := h.outline
    show Outline _ s.inside
    match hi : s.inside with
    | none => rw [hi] at houtline; exact houtline
    | some i =>
        rw [hi] at houtline
        cases i with
        | teardownNative k => exact ⟨houtline.1, rfl⟩
        | teardownRunning k => exact ⟨houtline.1, rfl⟩
        | pauseStopRequested tornDown => exact ⟨houtline.1, .inr rfl⟩
        | pausePaused tornDown => exact ⟨houtline.1, .inr rfl⟩
        | pauseCancel => exact ⟨houtline.1, .inr rfl⟩
        | startRecheck => exact ⟨houtline.1, .inr rfl⟩
        | _ => exact houtline
  stoppers _ _ _ := rfl
  claimed hp := by
    rcases h.claimed hp with ⟨k, hk⟩ | ⟨k, hk⟩ | hi
    · exact .inl ⟨k, List.mem_cons_of_mem _ hk⟩
    · exact .inr (.inl ⟨k, List.mem_cons_of_mem _ hk⟩)
    · exact .inr (.inr hi)
  resetting k hk := by
    rcases List.mem_cons.mp hk with heq | hk
    · cases heq
    · exact h.resetting k hk
  covered _ := .inr (.inl ⟨stopper, List.mem_cons_self⟩)

theorem step_inv (h : Inv s) (ht : s.step e = some t) : Inv t := by
  cases e with
  | intent action =>
      simp only [step] at ht
      split_ifs at ht
      cases ht
      cases action with
      | stop => exact h.requestStop .worker .idle
      | _ => exact h.mainGoto _
  | destroy =>
      simp only [step] at ht
      split_ifs at ht
      cases ht
      exact h.requestStop .onDestroy .destroying
  | main => exact mainStep_inv h ht
  | outside u => exact outsideStep_inv h ht
  | inside vpn =>
      obtain ⟨i, hi, rfl⟩ := Option.map_eq_some_iff.mp ht
      exact insideStep_inv h hi

/-! ## What holds in every run -/

theorem Inv.stopWins (h : Inv s) : StopWins s := by
  rintro ⟨hinside, houtside⟩ hstop
  have hagrees : Agrees s := by
    have hout := h.outline
    rw [hinside] at hout
    exact hout
  have hzero : s.proxyHandle = 0 := by
    rcases h.covered hstop with hdown | ⟨k, hk⟩ | ⟨k, hk⟩ | ⟨i, hi, -⟩
    · exact hdown.1
    · rw [houtside] at hk
      cases hk
    · rw [houtside] at hk
      cases hk
    · cases hinside.symm.trans hi
  obtain ⟨htun, hthread⟩ := h.native.empty hzero
  exact ⟨hzero, htun, hthread, Bool.eq_false_iff.mpr fun hr => hagrees.mp hr hzero⟩

theorem Inv.handlesSafe (h : Inv s) : HandlesSafe s := by
  refine ⟨h.native.once, h.native.stopped, ?_⟩
  -- the live handles are distinct, and each of them is `proxyHandle`
  have hsub : s.live ⊆ [s.proxyHandle] := by
    intro n hn
    obtain ⟨hrange, hnot⟩ := List.mem_filter.mp hn
    obtain ⟨h1, h2⟩ := List.mem_range'_1.mp hrange
    have hlt : n < s.handleCounter := by omega
    exact List.mem_singleton.mpr (h.native.live n h1 hlt (of_decide_eq_true hnot))
  have hnodup : s.live.Nodup := List.Nodup.filter _ List.nodup_range'
  exact (hnodup.subperm hsub).length_le

theorem Inv.runningAgrees (h : Inv s) : RunningAgrees s := by
  intro hinside
  have hout := h.outline
  rw [hinside] at hout
  exact hout

/-! ## The last action -/

/-- Does the thread inside leave the proxy up? -/
def leavesUp : Inside → Bool
  | .startStopRequested => true
  | .startCas => true
  | .startNative => true
  | .startRunning => true
  | .startReset => true
  | .startRecheck => true
  | .startProxy => true
  | .startTun => true
  | .startPublish => true
  | _ => false

/-- Is the proxy up when the thread inside is through? -/
def WillBeUp (s : VpnService) : Prop :=
  match s.inside with
  | none => s.proxyHandle ≠ 0
  | some i => leavesUp i = true

/-- When no worker waits for the lock, the thread inside does what the last action asks for. -/
def LastInside (s : VpnService) : Prop :=
  s.stopRequested = false → (∀ u ∈ s.outside, waits u = false) →
    (WillBeUp s ↔ brings s.last = true)

theorem init_lastInside : LastInside init := by
  intro _ _
  exact ⟨fun h => absurd rfl h, nofun⟩

theorem LastInside.lastActionWins (h : LastInside s) : LastActionWins s := by
  rintro ⟨hinside, houtside⟩ hstop
  have hup := h hstop (by rw [houtside]; nofun)
  unfold WillBeUp at hup
  rw [hinside] at hup
  exact hup

theorem willBeUp_some (hi : s.inside = some i) : WillBeUp s ↔ leavesUp i = true := by
  unfold WillBeUp
  rw [hi]

/-- What a step of the thread inside does not change. -/
theorem insideStep_last (s : VpnService) (vpn : Bool) (i : Inside) :
    (s.insideStep vpn i).last = s.last ∧
      (s.insideStep vpn i).stopRequested = s.stopRequested ∧
      ∀ u, waits u = true → (u ∈ (s.insideStep vpn i).outside ↔ u ∈ s.outside) := by
  have hcons : ∀ (v : Outside), waits v = false → ∀ u, waits u = true →
      (u ∈ [v] ++ s.outside ↔ u ∈ s.outside) := by
    intro v hv u hu
    rw [List.singleton_append, List.mem_cons]
    refine or_iff_right ?_
    rintro rfl
    rw [hv] at hu
    cases hu
  unfold insideStep
  cases i with
  | teardownRunning stopper => exact ⟨rfl, rfl, hcons _ rfl⟩
  | startPublish => exact ⟨rfl, rfl, hcons _ rfl⟩
  | startStopRequested =>
      dsimp only
      split_ifs
      · exact ⟨rfl, rfl, hcons _ rfl⟩
      · exact ⟨rfl, rfl, fun _ _ => Iff.rfl⟩
      · exact ⟨rfl, rfl, fun _ _ => Iff.rfl⟩
  | startRecheck =>
      dsimp only
      split_ifs
      · exact ⟨rfl, rfl, hcons _ rfl⟩
      · exact ⟨rfl, rfl, fun _ _ => Iff.rfl⟩
  | pauseCas => dsimp only; split_ifs <;> exact ⟨rfl, rfl, fun _ _ => Iff.rfl⟩
  | pauseStopRequested tornDown =>
      dsimp only; split_ifs <;> exact ⟨rfl, rfl, fun _ _ => Iff.rfl⟩
  | pausePaused tornDown => dsimp only; split_ifs <;> exact ⟨rfl, rfl, fun _ _ => Iff.rfl⟩
  | startCas => dsimp only; split_ifs <;> exact ⟨rfl, rfl, fun _ _ => Iff.rfl⟩
  | startTun => dsimp only; split_ifs <;> exact ⟨rfl, rfl, fun _ _ => Iff.rfl⟩
  | _ => exact ⟨rfl, rfl, fun _ _ => Iff.rfl⟩

/-- Without a stop the thread inside ends as it was going to. -/
theorem insideStep_willBeUp {vpn : Bool} (h : Inv s) (hi : s.inside = some i)
    (hstop : s.stopRequested = false) : WillBeUp (s.insideStep vpn i) ↔ WillBeUp s := by
  have houtline : Outline s (some i) := hi ▸ h.outline
  have hnot : ¬s.stopRequested = true := Bool.eq_false_iff.mp hstop
  rw [willBeUp_some hi]
  unfold insideStep
  cases i with
  | teardownNative stopper => exact absurd houtline.2 hnot
  | teardownRunning stopper => exact absurd houtline.2 hnot
  | pauseCas => dsimp only; split_ifs <;> exact Iff.rfl
  | pauseStopRequested tornDown =>
      dsimp only
      rw [if_neg hnot]
      exact Iff.rfl
  | pausePaused tornDown =>
      have hzero : s.proxyHandle = 0 := houtline.2.resolve_right hnot
      dsimp only
      split_ifs
      · exact Iff.rfl
      · exact ⟨fun hne => absurd hzero hne, nofun⟩
  | pauseCancel =>
      have hzero : s.proxyHandle = 0 := houtline.2.resolve_right hnot
      exact ⟨fun hne => absurd hzero hne, nofun⟩
  | startStopRequested =>
      dsimp only
      rw [if_neg hnot]
      split_ifs <;> exact Iff.rfl
  | startCas => dsimp only; split_ifs <;> exact Iff.rfl
  | startRecheck =>
      dsimp only
      rw [if_neg hnot]
      exact Iff.rfl
  | startTun => dsimp only; split_ifs <;> exact Iff.rfl
  | startPublish => exact ⟨fun _ => rfl, fun _ => houtline⟩
  | _ => exact Iff.rfl

theorem LastInside.insideStep {vpn : Bool} (hlast : LastInside s) (h : Inv s)
    (hi : s.inside = some i) : LastInside (s.insideStep vpn i) := by
  obtain ⟨hsame, hstopped, hwaits⟩ := insideStep_last s vpn i
  intro hstop hnone
  rw [hstopped] at hstop
  rw [insideStep_willBeUp h hi hstop, hsame]
  refine hlast hstop fun u hu => ?_
  by_contra hw
  have hw : waits u = true := Bool.eq_true_of_not_eq_false hw
  have hfalse := hnone u ((hwaits u hw).mpr hu)
  rw [hw] at hfalse
  cases hfalse

/-- A spawned worker waits, and nothing is asked yet. -/
theorem lastInside_spawn {u : Outside} (hu : waits u = true) (action : Intent) :
    LastInside (s.spawn u action) := by
  intro _ hnone
  have hfalse := hnone u List.mem_cons_self
  rw [hu] at hfalse
  cases hfalse

theorem LastInside.mainStep (hlast : LastInside s) (ht : s.mainStep = some t) : LastInside t := by
  rcases mainStep_cases ht with ⟨main, starting, rfl⟩ | ⟨paused, starting, u, action, hu, rfl⟩
  · exact hlast
  · exact lastInside_spawn hu action

/-- The worker that takes the lock. -/
theorem lastInside_enter {u : Outside} (hcond : LastEntersLast s (.outside u))
    (ht : { s with outside := s.outside.erase u }.enter i = some t) (hu : waits u = true)
    (hup : leavesUp i = true ↔ u = .startEnter) : LastInside t := by
  unfold enter at ht
  split_ifs at ht
  cases ht
  intro hstop hnone
  rw [willBeUp_some rfl, hup]
  exact hcond hstop hu hnone

theorem lastInside_of_stop (hstop : t.stopRequested = true) : LastInside t := by
  intro hfalse
  rw [hstop] at hfalse
  cases hfalse

theorem LastInside.outsideStep {u : Outside} (hlast : LastInside s) (h : Inv s)
    (hcond : LastEntersLast s (.outside u)) (ht : s.outsideStep u = some t) : LastInside t := by
  unfold VpnService.outsideStep at ht
  split_ifs at ht with hmem
  cases u with
  | teardownCas stopper =>
      have hstop : s.stopRequested = true := h.stoppers _ hmem rfl
      dsimp only at ht
      split_ifs at ht with hp
      · cases ht
        cases stopper <;> exact lastInside_of_stop hstop
      · cases ht
        exact lastInside_of_stop hstop
  | teardownEnter stopper =>
      have hstop : s.stopRequested = true := h.stoppers _ hmem rfl
      dsimp only [enter] at ht
      split_ifs at ht
      cases ht
      exact lastInside_of_stop hstop
  | teardownReset stopper =>
      have hstop : s.stopRequested = true := h.stoppers _ hmem rfl
      cases ht
      cases stopper <;> exact lastInside_of_stop hstop
  | pauseEnter => exact lastInside_enter hcond ht rfl ⟨nofun, nofun⟩
  | startEnter => exact lastInside_enter hcond ht rfl ⟨fun _ => rfl, fun _ => rfl⟩
  | finishStart =>
      cases ht
      intro hstop hnone
      refine hlast hstop fun u hu => ?_
      by_cases hne : u = .finishStart
      · rw [hne]
        rfl
      · exact hnone u ((List.mem_erase_of_ne hne).mpr hu)

theorem step_lastInside (h : Inv s) (hlast : LastInside s) (hcond : LastEntersLast s e)
    (ht : s.step e = some t) : LastInside t := by
  cases e with
  | intent action =>
      simp only [step] at ht
      split_ifs at ht
      cases ht
      cases action with
      | stop => exact lastInside_of_stop rfl
      | _ => exact hlast
  | destroy =>
      simp only [step] at ht
      split_ifs at ht
      cases ht
      exact lastInside_of_stop rfl
  | main => exact hlast.mainStep ht
  | outside u => exact hlast.outsideStep h hcond ht
  | inside vpn =>
      obtain ⟨i, hi, rfl⟩ := Option.map_eq_some_iff.mp ht
      exact hlast.insideStep h hi

/-- What holds in every state, whatever the order of the threads. -/
structure Safe (s : VpnService) : Prop where
  stopWins : StopWins s
  handles : HandlesSafe s
  running : RunningAgrees s

/-- **Stop wins, and otherwise the last action wins.** In every run Stop wins and the handles are
safe; the last action wins in every run in which the worker that comes last to the lock is of its
kind. -/
theorem lifecycle_runs (es : List LifecycleEvent) :
    StepRun.AllStates step Safe init es ∧
      (StepRun.AllSteps step LastEntersLast init es →
        StepRun.AllStates step LastActionWins init es) := by
  constructor
  · exact StepRun.allStates_of_inv (fun _ _ _ => step_inv)
      (fun _ h => ⟨h.stopWins, h.handlesSafe, h.runningAgrees⟩) init_inv es
  · intro hcond
    refine StepRun.allStates_of_allSteps (I := fun s => Inv s ∧ LastInside s) ?_ ?_
      ⟨init_inv, init_lastInside⟩ hcond
    · intro s e t h hc ht
      exact ⟨step_inv h.1 ht, step_lastInside h.1 h.2 hc ht⟩
    · exact fun s h => h.2.lastActionWins

/-- Connect; Pause, whose worker is late; Resume, whose worker comes to the lock first. -/
def latePause : List LifecycleEvent :=
  ([.intent .connect, .main, .main, .main, .main, .outside .startEnter] : List LifecycleEvent) ++
    List.replicate 4 (LifecycleEvent.inside true) ++
    ([.outside .finishStart, .intent .pause, .main, .main, .intent .resume] :
      List LifecycleEvent) ++
    List.replicate 7 LifecycleEvent.main ++ ([.outside .startEnter] : List LifecycleEvent) ++
    List.replicate 9 (LifecycleEvent.inside true) ++
    ([.outside .finishStart, .outside .pauseEnter] : List LifecycleEvent) ++
    List.replicate 6 (LifecycleEvent.inside true)

/-- The pause worker takes down what Resume has brought up, and nobody has asked for a stop. -/
theorem latePause_down : ¬StepRun.AllStates step LastActionWins init latePause := by
  intro h
  have hend := StepRun.allStates_last (t := {
    guards := ⟨false, false, false⟩, teardownInProgress := false, main := .idle, inside := none,
    outside := [], proxyHandle := 0, tun := false, tun2proxyThread := false, isRunning := false,
    handleCounter := 3, stopped := [2, 1], last := some .resume }) h (by decide)
  exact (hend ⟨rfl, rfl⟩ rfl).mpr rfl rfl

end VpnService

end Rahgozar.Android
