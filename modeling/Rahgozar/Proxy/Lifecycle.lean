import Rahgozar.Lib.Run
import Rahgozar.Proxy.Routing

set_option autoImplicit false

/-! # Start, switch and stop (`RuntimeState` of `src/proxy_server.rs`)

One call of `run` and any number of calls of `switch_mode` share the state of a started proxy. Each
of them is a party that goes on from one lock or `await` to the next; an event lets one party go on,
and says what the thing it waited for has come to. `mode_tasks` is locked by whoever holds
`switch_lock` only, and never over an `await`: taking it is a point where the others may go on, and
nothing else.
-/

namespace Rahgozar.Proxy

/-! ## Configuration -/

/-- `rest` is what only the fronter, the fronting groups, the Drive client and the health task
read. -/
structure Config (ρ : Type) where
  mode : String
  passthroughHosts : List (List Char)
  bypassDohHosts : List (List Char)
  blockDoh : Bool
  tunnelDoh : Bool
  coalesceStepMs : Nat
  coalesceMaxMs : Nat
  rest : ρ

variable {ρ : Type}

def resolveCoalesce (config : Config ρ) : Nat × Nat :=
  (if 0 < config.coalesceStepMs then config.coalesceStepMs else 10,
    if 0 < config.coalesceMaxMs then config.coalesceMaxMs else 1000)

/-- `build_mode_state`. A fronter is the number it was made as; `ok` says whether
`DomainFronter::new`, where it is called, and the fronting groups accept the configuration. -/
def buildModeState (config : Config ρ) (fronter : Nat) (ok : Bool) :
    Option (Option Nat × RewriteCtx × Mode) :=
  match Mode.fromStr config.mode with
  | none => none
  | some mode =>
      if ok then
        some (if mode.usesAppsScriptRelay then some fronter else none,
          ⟨mode, config.passthroughHosts, config.bypassDohHosts, config.blockDoh,
            !config.tunnelDoh⟩,
          mode)
      else none

/-! ## The live state -/

structure TunnelMux where
  fronter : Nat
  coalesceStep : Nat
  coalesceMax : Nat

structure DriveMux (ρ : Type) where
  config : Config ρ

/-- `config` is not a field of the source: the configuration the bundle was built from. -/
structure ModeBundle (ρ : Type) where
  rewriteCtx : RewriteCtx
  fronter : Option Nat
  tunnelMux : Option TunnelMux
  driveMux : Option (DriveMux ρ)
  config : Config ρ

/-- `TunnelMux::start` for a new bundle, where its mode is the full one. -/
def ModeBundle.startTunnelMux (b : ModeBundle ρ) (step max : Nat) : ModeBundle ρ :=
  { b with
    tunnelMux :=
      if b.rewriteCtx.mode = .full then b.fronter.map fun f => ⟨f, step, max⟩ else none }

/-- The handles of `ModeTasks`, in the order in which the tasks are spawned. -/
inductive TaskKind where
  | warm
  | keepalive
  | refill
  | probe
  | health
  | stats
deriving DecidableEq

def TaskKind.all : List TaskKind := [.warm, .keepalive, .refill, .probe, .health, .stats]

/-- A spawned task, with what it has captured. -/
structure Task (ρ : Type) where
  id : Nat
  kind : TaskKind
  fronter : Nat
  config : Option (Config ρ)

/-- What the parties change. Beside the fields of the source: the tasks that run (spawned, not
asked to abort) and those that have come to their end. -/
structure Live (ρ : Type) where
  bundle : ModeBundle ρ
  config : Config ρ
  coalesceStep : Nat
  coalesceMax : Nat
  modeTasks : TaskKind → Option (Task ρ)
  running : List (Task ρ)
  ended : List (Task ρ)
  nextTask : Nat

namespace Live

/-- `ModeTasks::is_empty` -/
def isEmpty (l : Live ρ) : Bool := TaskKind.all.all fun kind => (l.modeTasks kind).isNone

/-- `ModeTasks::abort_all` -/
def abortAll (l : Live ρ) : Live ρ :=
  { l with
    modeTasks := fun _ => none
    running := l.running.filter fun t =>
      TaskKind.all.all fun kind => (l.modeTasks kind).map Task.id ≠ some t.id }

def spawn (l : Live ρ) (kind : TaskKind) (fronter : Nat) (config : Option (Config ρ)) : Live ρ :=
  { l with
    modeTasks := Function.update l.modeTasks kind (some ⟨l.nextTask, kind, fronter, config⟩)
    running := l.running ++ [⟨l.nextTask, kind, fronter, config⟩]
    nextTask := l.nextTask + 1 }

def spawnModeTasks (l : Live ρ) (fronter : Nat) (config : Config ρ) : Live ρ :=
  let l := l.abortAll
  let l := l.spawn .warm fronter none
  let l := l.spawn .keepalive fronter none
  let l := l.spawn .refill fronter none
  let l := l.spawn .probe fronter none
  let l := l.spawn .health fronter (some config)
  l.spawn .stats fronter none

/-- A task comes to its end: the prewarm when it is done, the others where there is nothing for
them to do. -/
def endTask (l : Live ρ) (id : Nat) : Live ρ :=
  { l with
    running := l.running.filter fun t => t.id ≠ id
    ended := l.ended ++ l.running.filter fun t => t.id = id }

/-- The tunnel mux, in the startup block of `run_inner`. -/
def startupTunnelMux (l : Live ρ) : Live ρ :=
  match l.bundle.fronter with
  | some f =>
      if l.bundle.rewriteCtx.mode = .full ∧ l.bundle.tunnelMux.isNone then
        { l with bundle.tunnelMux := some ⟨f, l.coalesceStep, l.coalesceMax⟩ }
      else l
  | none => l

/-- The Drive mux there, from the candidate: there may be none, or it may have failed to start. -/
def startupDriveMux (l : Live ρ) (candidate : Option (Option (DriveMux ρ))) : Option (Live ρ) :=
  if l.bundle.rewriteCtx.mode = .drive ∧ l.bundle.driveMux.isNone then
    match candidate with
    | some (some mux) => some { l with bundle.driveMux := some mux }
    | some none => none
    | none => none
  else some l

/-- The end of `run`. -/
def clearMuxes (l : Live ρ) : Live ρ :=
  if l.bundle.tunnelMux.isSome ∨ l.bundle.driveMux.isSome then
    { l with bundle.tunnelMux := none, bundle.driveMux := none }
  else l

end Live

/-! ## The parties -/

/-- Where the call of `run` is. -/
inductive RunPhase (ρ : Type) where
  | notCalled
  | binding
  | bound
  /-- The bundle was in Drive mode without a mux. -/
  | loadingConfig
  | startingDrive (config : Config ρ)
  /-- Before the startup block. -/
  | startupWaiting (candidate : Option (Option (DriveMux ρ)))
  /-- In the startup block, before `mode_tasks` is locked. -/
  | startupSpawning (fronter : Nat)
  | serving
  /-- `run_inner` has returned: with the startup block behind it, or not. -/
  | leaving (started : Bool)
  /-- In the last block of `run`, before `mode_tasks` is locked. -/
  | stopping
  | returned

/-- Where a call of `switch_mode` is. -/
inductive SwitchPhase (ρ : Type) where
  | notCalled
  | serialWaiting (config : Config ρ)
  /-- Before the first look at `stopped`. -/
  | checking (config : Config ρ)
  | building (config : Config ρ)
  | startingDrive (new : ModeBundle ρ)
  /-- Before `switch_lock` is taken for the installation. -/
  | installWaiting (new : ModeBundle ρ)
  /-- With the lock, before `mode_tasks` is locked: the first time and the second. -/
  | aborting (new : ModeBundle ρ)
  | spawning (fronter : Nat) (config : Config ρ)
  | succeeded
  | failed

inductive Party where
  | run
  | switch (k : Nat)
deriving DecidableEq

structure RuntimeState (ρ : Type) where
  live : Live ρ
  stopped : Bool
  switchLock : Option Party
  switchSerialLock : Option Nat
  run : RunPhase ρ
  switches : Nat → SwitchPhase ρ
  nextFronter : Nat

inductive RuntimeEvent (ρ : Type) where
  /-- `run` is called, or goes on. `ok`: the listeners are bound, the Drive mux has started. -/
  | run (ok : Bool)
  | callSwitch (k : Nat) (config : Config ρ)
  /-- `ok`: the new state could be built, the Drive mux has started. -/
  | switch (k : Nat) (ok : Bool)
  | endTask (id : Nat)

namespace RuntimeState

/-- `RuntimeState::new` -/
def new (config : Config ρ) (ok : Bool) : Option (RuntimeState ρ) :=
  match buildModeState config 0 ok with
  | none => none
  | some (fronter, ctx, _) =>
      some
        { live :=
            { bundle := ⟨ctx, fronter, none, none, config⟩
              config := config
              coalesceStep := (resolveCoalesce config).1
              coalesceMax := (resolveCoalesce config).2
              modeTasks := fun _ => none
              running := []
              ended := []
              nextTask := 0 }
          stopped := false
          switchLock := none
          switchSerialLock := none
          run := .notCalled
          switches := fun _ => .notCalled
          nextFronter := 1 }

def setSwitch (s : RuntimeState ρ) (k : Nat) (phase : SwitchPhase ρ) : RuntimeState ρ :=
  { s with switches := Function.update s.switches k phase }

/-- A switch returns, and lets go of the locks it holds. -/
def returnSwitch (s : RuntimeState ρ) (k : Nat) (phase : SwitchPhase ρ) : RuntimeState ρ :=
  { s.setSwitch k phase with
    switchSerialLock := none
    switchLock := if s.switchLock = some (.switch k) then none else s.switchLock }

/-- `run` and `run_inner`. -/
def runStep (s : RuntimeState ρ) (ok : Bool) : Option (RuntimeState ρ) :=
  match s.run with
  | .notCalled => some { s with run := .binding }
  | .binding => some { s with run := if ok then .bound else .leaving false }
  | .bound =>
      if s.live.bundle.rewriteCtx.mode = .drive ∧ s.live.bundle.driveMux.isNone then
        some { s with run := .loadingConfig }
      else some { s with run := .startupWaiting none }
  | .loadingConfig => some { s with run := .startingDrive s.live.config }
  | .startingDrive config =>
      some { s with run := .startupWaiting (some (if ok then some ⟨config⟩ else none)) }
  | .startupWaiting candidate =>
      if s.switchLock.isSome then none
      else
        let l := s.live.startupTunnelMux
        match l.startupDriveMux candidate with
        | none => some { s with live := l, run := .leaving false }
        | some l =>
            match l.bundle.fronter with
            | some f =>
                some { s with live := l, switchLock := some .run, run := .startupSpawning f }
            | none => some { s with live := l, run := .serving }
  | .startupSpawning f =>
      some { s with
        live := if s.live.isEmpty then s.live.spawnModeTasks f s.live.config else s.live
        switchLock := none
        run := .serving }
  -- the shutdown signal, or the end of an accept loop
  | .serving => some { s with run := .leaving true }
  | .leaving _ =>
      if s.switchLock.isSome then none
      else some { s with stopped := true, switchLock := some .run, run := .stopping }
  | .stopping =>
      some { s with live := s.live.abortAll.clearMuxes, switchLock := none, run := .returned }
  | .returned => none

/-- `switch_mode` -/
def switchStep (s : RuntimeState ρ) (k : Nat) (ok : Bool) : Option (RuntimeState ρ) :=
  match s.switches k with
  | .notCalled => none
  | .serialWaiting config =>
      if s.switchSerialLock.isSome then none
      else some { s.setSwitch k (.checking config) with switchSerialLock := some k }
  | .checking config =>
      if s.switchLock.isSome then none
      else if s.stopped then some (s.returnSwitch k .failed)
      else some (s.setSwitch k (.building config))
  | .building config =>
      match buildModeState config s.nextFronter ok with
      | none => some (s.returnSwitch k .failed)
      | some (fronter, ctx, mode) =>
          let new := ⟨ctx, fronter, none, none, config⟩
          some { s.setSwitch k (if mode = .drive then .startingDrive new else .installWaiting new)
            with nextFronter := s.nextFronter + 1 }
  | .startingDrive new =>
      if ok then
        some (s.setSwitch k (.installWaiting { new with driveMux := some ⟨new.config⟩ }))
      else some (s.returnSwitch k .failed)
  | .installWaiting new =>
      if s.switchLock.isSome then none
      else if s.stopped then some (s.returnSwitch k .failed)
      else
        let (step, max) := resolveCoalesce new.config
        some { s.setSwitch k (.aborting (new.startTunnelMux step max)) with
          live := { s.live with coalesceStep := step, coalesceMax := max }
          switchLock := some (.switch k) }
  | .aborting new =>
      let s := { s with live := { s.live.abortAll with bundle := new, config := new.config } }
      match new.fronter with
      | some f => some (s.setSwitch k (.spawning f new.config))
      | none => some (s.returnSwitch k .succeeded)
  | .spawning f config =>
      some (returnSwitch { s with live := s.live.spawnModeTasks f config } k .succeeded)
  | .succeeded => none
  | .failed => none

def step (s : RuntimeState ρ) : RuntimeEvent ρ → Option (RuntimeState ρ)
  | .run ok => s.runStep ok
  | .callSwitch k config =>
      match s.switches k with
      | .notCalled => some (s.setSwitch k (.serialWaiting config))
      | _ => none
  | .switch k ok => s.switchStep k ok
  | .endTask id =>
      if s.live.running.any fun t => t.id = id then some { s with live := s.live.endTask id }
      else none

end RuntimeState

end Rahgozar.Proxy
