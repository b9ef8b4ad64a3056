import Rahgozar.Proxy.LiveState

set_option autoImplicit false

/-! # Switching the mode of a running proxy

All that is stored is stored under `switch_lock`, and a switch that gets it after `stopped` was set
gives up. So whoever holds the lock can complete the bundle and its tasks undisturbed, and the one
who finds it free finds them complete.
-/

namespace Rahgozar.Proxy

variable {ρ : Type}

/-! ## The phases -/

/-- After the startup block of `run_inner`, and before the last block of `run`. -/
def RunPhase.isUp : RunPhase ρ → Bool
  | .serving => true
  | .leaving started => started
  | _ => false

def RunPhase.holdsLock : RunPhase ρ → Bool
  | .startupSpawning _ => true
  | .stopping => true
  | _ => false

def RunPhase.isStopping : RunPhase ρ → Bool
  | .stopping => true
  | .returned => true
  | _ => false

/-- What `run` may rely on. As long as the bundle is in Drive mode without a mux, no switch has
stored anything. -/
def RunPhase.Ok (l : Live ρ) : RunPhase ρ → Prop
  | .startingDrive config =>
      l.bundle.rewriteCtx.mode = .drive → l.bundle.driveMux = none → config = l.config
  | .startupWaiting candidate =>
      l.bundle.rewriteCtx.mode = .drive → l.bundle.driveMux = none →
        ∀ m, candidate = some (some m) → m.config = l.config
  | .startupSpawning f => l.bundle.Complete ∧ l.bundle.fronter = some f
  | .serving => l.bundle.Complete
  | .leaving started => started = true → l.bundle.Complete
  | .returned =>
      l.bundle.tunnelMux = none ∧ l.bundle.driveMux = none ∧ ∀ kind, l.modeTasks kind = none
  | _ => True

namespace SwitchPhase

def holdsLock : SwitchPhase ρ → Bool
  | .aborting _ => true
  | .spawning _ _ => true
  | _ => false

/-- A switch that has got so far does not fail any more. -/
def isInstalling : SwitchPhase ρ → Bool
  | .aborting _ => true
  | .spawning _ _ => true
  | .succeeded => true
  | _ => false

/-- What a switch may rely on. -/
def Ok (l : Live ρ) : SwitchPhase ρ → Prop
  | .startingDrive new => new.Built ∧ new.rewriteCtx.mode = .drive
  | .installWaiting new => new.Built ∧ (new.rewriteCtx.mode = .drive → new.driveMux.isSome)
  | .aborting new => new.Built ∧ new.Complete
  | .spawning f _ => l.bundle.Complete ∧ l.bundle.fronter = some f
  | _ => True

/-- Without the lock nothing is known of what is live. -/
theorem Ok.of_not_holdsLock {l l' : Live ρ} {p : SwitchPhase ρ} (h : p.Ok l)
    (hlock : p.holdsLock = false) : p.Ok l' := by
  cases p with
  | spawning f config => cases hlock
  | _ => exact h

end SwitchPhase

/-- What a switch has stored is good for `run`. -/
theorem RunPhase.ok_of_complete {l : Live ρ} {p : RunPhase ρ} (h : l.bundle.Complete)
    (hlock : p.holdsLock = false) (hstop : p.isStopping = false) : p.Ok l := by
  have hmux : l.bundle.rewriteCtx.mode = .drive → l.bundle.driveMux ≠ none := by
    intro hmode hnone
    have hsome := h.driveMux hmode
    rw [hnone] at hsome
    cases hsome
  cases p with
  | startingDrive config => exact fun hmode hnone => absurd hnone (hmux hmode)
  | startupWaiting candidate => exact fun hmode hnone => absurd hnone (hmux hmode)
  | startupSpawning f => cases hlock
  | serving => exact h
  | leaving started => exact fun _ => h
  | returned => cases hstop
  | _ => trivial

namespace RuntimeState

/-! ## What one step can do -/

/-- A step of the switch `k` that changes nothing but its own phase. -/
structure Moved (s t : RuntimeState ρ) (k : Nat) (p : SwitchPhase ρ) : Prop where
  live : t.live = s.live
  stopped : t.stopped = s.stopped
  switchLock : s.switchLock ≠ some (.switch k) → t.switchLock = s.switchLock
  run : t.run = s.run
  switches : t.switches = Function.update s.switches k p

theorem moved_setSwitch (s : RuntimeState ρ) (k : Nat) (p : SwitchPhase ρ) (serial : Option Nat)
    (next : Nat) :
    Moved s { s.setSwitch k p with switchSerialLock := serial, nextFronter := next } k p :=
  ⟨rfl, rfl, fun _ => rfl, rfl, rfl⟩

theorem moved_returnSwitch (s : RuntimeState ρ) (k : Nat) (p : SwitchPhase ρ) :
    Moved s (s.returnSwitch k p) k p :=
  ⟨rfl, rfl, fun h => if_neg h, rfl, rfl⟩

/-- What a switch has built is good for the live state, in Drive mode after the start of a mux. -/
theorem switchStep_building {s t : RuntimeState ρ} {k : Nat} {ok : Bool} {config : Config ρ}
    (hphase : s.switches k = .building config) (ht : s.switchStep k ok = some t) :
    ∃ p, p.isInstalling = false ∧ p.Ok s.live ∧ Moved s t k p := by
  simp only [switchStep, hphase] at ht
  split at ht
  · cases ht
    exact ⟨.failed, rfl, trivial, moved_returnSwitch s k _⟩
  · rename_i fronter ctx mode hbuild
    cases ht
    have hmode : ctx.mode = mode := (buildModeState_eq_some hbuild).1
    have hbuilt := built_of_buildModeState hbuild
    refine ⟨_, ?_, ?_, moved_setSwitch s k _ _ _⟩
    · split_ifs <;> rfl
    · split_ifs with hdrive
      · exact ⟨hbuilt, hmode.trans hdrive⟩
      · exact ⟨hbuilt, fun hd => absurd (hmode.symm.trans hd) hdrive⟩

theorem switchStep_startingDrive {s t : RuntimeState ρ} {k : Nat} {ok : Bool}
    {new : ModeBundle ρ} (hphase : s.switches k = .startingDrive new)
    (ht : s.switchStep k ok = some t) :
    ∃ p, p.isInstalling = false ∧ ((s.switches k).Ok s.live → p.Ok s.live) ∧ Moved s t k p := by
  simp only [switchStep, hphase] at ht
  rw [hphase]
  split_ifs at ht <;> cases ht
  · refine ⟨.installWaiting { new with driveMux := some ⟨new.config⟩ }, rfl, ?_,
      moved_setSwitch s k _ _ _⟩
    rintro ⟨hbuilt, hdrive⟩
    refine ⟨⟨hbuilt.fronter, hbuilt.tunnelMux, ?_⟩, fun _ => rfl⟩
    intro m hm
    cases hm
    exact ⟨hdrive, rfl⟩
  · exact ⟨.failed, rfl, fun _ => trivial, moved_returnSwitch s k _⟩

/-- Before the installation a switch moves by itself; from then on it holds the lock. -/
theorem switchStep_cases {s t : RuntimeState ρ} {k : Nat} {ok : Bool}
    (ht : s.switchStep k ok = some t) :
    (∃ p, (s.switches k).isInstalling = false ∧ p.isInstalling = false ∧
        ((s.switches k).Ok s.live → p.Ok s.live) ∧ Moved s t k p) ∨
      (∃ new, s.switches k = .installWaiting new ∧ s.switchLock = none ∧ s.stopped = false ∧
        ∃ step max, t = { s.setSwitch k (.aborting (new.startTunnelMux step max)) with
          live := { s.live with coalesceStep := step, coalesceMax := max }
          switchLock := some (.switch k) }) ∨
      (∃ new f, s.switches k = .aborting new ∧ new.fronter = some f ∧
        t = setSwitch { s with
          live := { s.live.abortAll with bundle := new, config := new.config } } k
            (.spawning f new.config)) ∨
      (∃ new, s.switches k = .aborting new ∧ new.fronter = none ∧
        t = returnSwitch { s with
          live := { s.live.abortAll with bundle := new, config := new.config } } k .succeeded) ∨
      (∃ f config, s.switches k = .spawning f config ∧
        t = returnSwitch { s with live := s.live.spawnModeTasks f config } k .succeeded) := by
  have hstep := ht
  unfold switchStep at ht
  cases hphase : s.switches k with
  | notCalled | succeeded | failed => simp [hphase] at ht
  -- up to the installation a switch only moves on, or fails
  | serialWaiting config =>
      simp only [hphase] at ht
      split_ifs at ht
      cases ht
      exact .inl ⟨.checking config, rfl, rfl, fun _ => trivial, moved_setSwitch s k _ _ _⟩
  | checking config =>
      simp only [hphase] at ht
      split_ifs at ht <;> cases ht
      · exact .inl ⟨.failed, rfl, rfl, fun _ => trivial, moved_returnSwitch s k _⟩
      · exact .inl ⟨.building config, rfl, rfl, fun _ => trivial, moved_setSwitch s k _ _ _⟩
  | building config =>
      obtain ⟨p, hp, hok, hmoved⟩ := switchStep_building hphase hstep
      exact .inl ⟨p, rfl, hp, fun _ => hok, hmoved⟩
  | startingDrive new =>
      obtain ⟨p, hp, hok, hmoved⟩ := switchStep_startingDrive hphase hstep
      exact .inl ⟨p, rfl, hp, hphase ▸ hok, hmoved⟩
  -- from here on it holds the lock
  | installWaiting new =>
      simp only [hphase] at ht
      split_ifs at ht with hheld hstopped <;> cases ht
      · exact .inl ⟨.failed, rfl, rfl, fun _ => trivial, moved_returnSwitch s k _⟩
      · exact .inr (.inl ⟨new, rfl, Option.not_isSome_iff_eq_none.mp hheld,
          Bool.eq_false_of_not_eq_true hstopped, _, _, rfl⟩)
  | aborting new =>
      simp only [hphase] at ht
      split at ht <;> cases ht
      · rename_i f hf
        exact .inr (.inr (.inl ⟨new, f, rfl, hf, rfl⟩))
      · rename_i hnone
        exact .inr (.inr (.inr (.inl ⟨new, rfl, hnone, rfl⟩)))
  | spawning f config =>
      simp only [hphase] at ht
      cases ht
      exact .inr (.inr (.inr (.inr ⟨f, config, rfl, rfl⟩)))

/-! ## The invariant -/

structure Inv (s : RuntimeState ρ) : Prop where
  live : s.live.Ok
  runLock : s.switchLock = some .run ↔ s.run.holdsLock = true
  switchLock : ∀ k, s.switchLock = some (.switch k) ↔ (s.switches k).holdsLock = true
  stopped : s.stopped = s.run.isStopping
  quiet : s.stopped = true → ∀ k, (s.switches k).holdsLock = false
  run : s.run.Ok s.live
  switches : ∀ k, (s.switches k).Ok s.live
  tasks : s.run.isUp = true → s.switchLock = none → s.live.bundle.fronter.isSome →
    s.live.HasTasks

theorem inv_new {config : Config ρ} {ok : Bool} {s : RuntimeState ρ}
    (h : new config ok = some s) : Inv s := by
  unfold new at h
  split at h
  · cases h
  · rename_i fronter ctx mode hbuild
    cases h
    refine ⟨⟨built_of_buildModeState hbuild, rfl, fun t ht => (by cases ht), .inl fun _ => rfl⟩,
      ?_, ?_, rfl, ?_, trivial, fun _ => trivial, ?_⟩
    · exact ⟨fun h => (by cases h), fun h => (by cases h)⟩
    · exact fun k => ⟨fun h => (by cases h), fun h => (by cases h)⟩
    · intro h
      cases h
    · intro h
      cases h

theorem Inv.run_unlocked {s : RuntimeState ρ} (h : Inv s) (hlock : s.switchLock ≠ some .run) :
    s.run.holdsLock = false := by
  rw [← Bool.not_eq_true, ← h.runLock]
  exact hlock

theorem Inv.switch_unlocked {s : RuntimeState ρ} {k : Nat} (h : Inv s)
    (hlock : s.switchLock ≠ some (.switch k)) : (s.switches k).holdsLock = false := by
  rw [← Bool.not_eq_true, ← h.switchLock k]
  exact hlock

theorem Inv.free {s : RuntimeState ρ} (h : Inv s) (hlock : s.switchLock = none) :
    s.run.holdsLock = false ∧ ∀ k, (s.switches k).holdsLock = false := by
  constructor
  · apply h.run_unlocked
    simp [hlock]
  · intro k
    apply h.switch_unlocked
    simp [hlock]

/-- While the switch `k` holds the lock, nobody else does, and `run` is not at its end. -/
theorem Inv.alone {s : RuntimeState ρ} (h : Inv s) {k : Nat}
    (hk : (s.switches k).holdsLock = true) :
    s.run.holdsLock = false ∧ s.run.isStopping = false ∧
      ∀ j, j ≠ k → (s.switches j).holdsLock = false := by
  have hlock := (h.switchLock k).mpr hk
  refine ⟨?_, ?_, fun j hj => ?_⟩
  · apply h.run_unlocked
    simp [hlock]
  · rw [← h.stopped, ← Bool.not_eq_true]
    intro hstopped
    rw [h.quiet hstopped k] at hk
    cases hk
  · apply h.switch_unlocked
    simp [hlock, Ne.symm hj]

/-! ## The steps of a switch -/

theorem Inv.moved {s t : RuntimeState ρ} {k : Nat} {p : SwitchPhase ρ} (h : Inv s)
    (hm : Moved s t k p) (hbefore : (s.switches k).holdsLock = false)
    (hafter : p.holdsLock = false) (hok : p.Ok s.live) : Inv t := by
  have hphase : ∀ j, (t.switches j).holdsLock = (s.switches j).holdsLock := by
    intro j
    rw [hm.switches]
    by_cases hj : j = k
    · rw [hj, Function.update_self, hafter, hbefore]
    · rw [Function.update_of_ne hj]
  have hlock : t.switchLock = s.switchLock := by
    refine hm.switchLock fun hheld => ?_
    rw [(h.switchLock k).mp hheld] at hbefore
    cases hbefore
  refine ⟨?_, ?_, fun j => ?_, ?_, ?_, ?_, fun j => ?_, ?_⟩
  · rw [hm.live]
    exact h.live
  · rw [hlock, hm.run]
    exact h.runLock
  · rw [hlock, hphase]
    exact h.switchLock j
  · rw [hm.stopped, hm.run]
    exact h.stopped
  · intro hstopped j
    rw [hphase]
    exact h.quiet (hm.stopped ▸ hstopped) j
  · rw [hm.run, hm.live]
    exact h.run
  · rw [hm.switches, hm.live]
    by_cases hj : j = k
    · rw [hj, Function.update_self]
      exact hok
    · rw [Function.update_of_ne hj]
      exact h.switches j
  · rw [hm.run, hlock, hm.live]
    exact h.tasks

/-- A step of the switch `k` with the lock: it takes it, keeps it, or lets go of it. -/
theorem Inv.locked {s t : RuntimeState ρ} {k : Nat} {p : SwitchPhase ρ} (h : Inv s)
    (halone : s.run.holdsLock = false ∧ s.run.isStopping = false ∧
      ∀ j, j ≠ k → (s.switches j).holdsLock = false)
    (hrun : t.run = s.run) (hstopped : t.stopped = s.stopped)
    (hswitches : t.switches = Function.update s.switches k p)
    (hlock : t.switchLock = if p.holdsLock then some (.switch k) else none)
    (hlive : t.live.Ok) (hrunOk : s.run.Ok t.live) (hok : p.Ok t.live)
    (htasks : p.holdsLock = false → t.live.bundle.fronter.isSome → t.live.HasTasks) : Inv t := by
  obtain ⟨hnotRun, hnotStopping, hothers⟩ := halone
  have hother : ∀ j, j ≠ k → t.switches j = s.switches j := by
    intro j hj
    rw [hswitches, Function.update_of_ne hj]
  have hself : t.switches k = p := by rw [hswitches, Function.update_self]
  refine ⟨hlive, ?_, fun j => ?_, ?_, ?_, ?_, fun j => ?_, ?_⟩
  · rw [hlock, hrun, hnotRun]
    cases p.holdsLock <;> simp
  · rw [hlock]
    by_cases hj : j = k
    · rw [hj, hself]
      cases p.holdsLock <;> simp
    · rw [hother j hj, hothers j hj]
      cases p.holdsLock <;> simp [Ne.symm hj]
  · rw [hstopped, hrun]
    exact h.stopped
  · intro hs
    rw [hstopped, h.stopped, hnotStopping] at hs
    cases hs
  · rw [hrun]
    exact hrunOk
  · by_cases hj : j = k
    · rw [hj, hself]
      exact hok
    · rw [hother j hj]
      exact (h.switches j).of_not_holdsLock (hothers j hj)
  · intro _ hfree
    rw [hlock] at hfree
    split_ifs at hfree with hp
    exact htasks (Bool.eq_false_of_not_eq_true hp)

theorem Inv.switchStep {s t : RuntimeState ρ} {k : Nat} {ok : Bool} (h : Inv s)
    (ht : s.switchStep k ok = some t) : Inv t := by
  have hok := h.switches k
  rcases switchStep_cases ht with
    ⟨p, hbefore, hafter, hp, hmoved⟩ | ⟨new, hphase, hfree, hgoing, step, max, rfl⟩ |
    ⟨new, f, hphase, hf, rfl⟩ | ⟨new, hphase, hnone, rfl⟩ | ⟨f, config, hphase, rfl⟩
  · have hnot : ∀ q : SwitchPhase ρ, q.isInstalling = false → q.holdsLock = false := by
      intro q hq
      cases q <;> first | rfl | cases hq
    exact h.moved hmoved (hnot _ hbefore) (hnot _ hafter) (hp hok)
  -- the lock is taken: of what is live only the coalesce values change
  · obtain ⟨hrun, hswitches⟩ := h.free hfree
    rw [hphase] at hok
    refine h.locked ⟨hrun, h.stopped ▸ hgoing, fun j _ => hswitches j⟩ rfl rfl rfl rfl
      ⟨h.live.built, h.live.config, h.live.tracked, h.live.tasks⟩ h.run
      ⟨hok.1.startTunnelMux step max, hok.1.complete step max hok.2⟩ fun hp => (by cases hp)
  · have hheld : (s.switches k).holdsLock = true := by
      rw [hphase]
      rfl
    have halone := h.alone hheld
    have hlock := (h.switchLock k).mpr hheld
    rw [hphase] at hok
    refine h.locked halone rfl rfl rfl hlock (h.live.store hok.1)
      (RunPhase.ok_of_complete hok.2 halone.1 halone.2.1) ⟨hok.2, hf⟩ fun hp => (by cases hp)
  · have hheld : (s.switches k).holdsLock = true := by
      rw [hphase]
      rfl
    have halone := h.alone hheld
    have hlock := (h.switchLock k).mpr hheld
    rw [hphase] at hok
    refine h.locked halone rfl rfl rfl (if_pos hlock) (h.live.store hok.1)
      (RunPhase.ok_of_complete hok.2 halone.1 halone.2.1) trivial fun _ hsome => ?_
    have hsome' : new.fronter.isSome = true := hsome
    rw [hnone] at hsome'
    cases hsome'
  · have hheld : (s.switches k).holdsLock = true := by
      rw [hphase]
      rfl
    have halone := h.alone hheld
    have hlock := (h.switchLock k).mpr hheld
    rw [hphase] at hok
    have hlive := h.live.spawnModeTasks config hok.2
    have htasks := Live.hasTasks_spawnModeTasks config h.live hok.2
    have hcomplete : (s.live.spawnModeTasks f config).bundle.Complete := by
      rw [Live.spawnModeTasks_bundle]
      exact hok.1
    -- what the spawned state looks like inside is of no use from here on
    generalize s.live.spawnModeTasks f config = l at hlive htasks hcomplete ⊢
    exact h.locked halone rfl rfl rfl (if_pos hlock) hlive
      (RunPhase.ok_of_complete hcomplete halone.1 halone.2.1) trivial fun _ _ => htasks

/-! ## The steps of `run` -/

/-- A step without the lock. -/
theorem Inv.runMoved {s : RuntimeState ρ} {p q : RunPhase ρ} (h : Inv s) (hphase : s.run = p)
    (hbefore : p.holdsLock = false) (hafter : q.holdsLock = false)
    (hstopping : q.isStopping = p.isStopping) (hup : q.isUp = true → p.isUp = true)
    (hok : q.Ok s.live) : Inv { s with run := q } := by
  subst hphase
  refine ⟨h.live, ?_, h.switchLock, h.stopped.trans hstopping.symm, h.quiet, hok, h.switches,
    fun hq => h.tasks (hup hq)⟩
  have hlock := h.runLock
  rw [hbefore] at hlock
  show s.switchLock = some .run ↔ q.holdsLock = true
  rw [hafter]
  exact hlock

/-- A step with the lock: `run` takes it, keeps it, or lets go of it. -/
theorem Inv.runLocked {s t : RuntimeState ρ} (h : Inv s)
    (halone : ∀ k, (s.switches k).holdsLock = false) (hswitches : t.switches = s.switches)
    (hlock : t.switchLock = if t.run.holdsLock then some .run else none)
    (hstopped : t.stopped = t.run.isStopping) (hlive : t.live.Ok) (hok : t.run.Ok t.live)
    (htasks : t.run.isUp = true → t.live.bundle.fronter.isSome → t.live.HasTasks) : Inv t where
  live := hlive
  runLock := by
    rw [hlock]
    cases t.run.holdsLock <;> simp
  switchLock k := by
    rw [hlock, hswitches, halone k]
    cases t.run.holdsLock <;> simp
  stopped := hstopped
  quiet _ k := by
    rw [hswitches]
    exact halone k
  run := hok
  switches k := by
    rw [hswitches]
    exact (h.switches k).of_not_holdsLock (halone k)
  tasks hup _ := htasks hup

theorem Inv.switches_free {s : RuntimeState ρ} (h : Inv s) (hrun : s.run.holdsLock = true)
    (k : Nat) : (s.switches k).holdsLock = false := by
  apply h.switch_unlocked
  simp [h.runLock.mpr hrun]

/-- The startup block, up to the tasks. -/
theorem Inv.startup {s : RuntimeState ρ} {candidate : Option (Option (DriveMux ρ))} (h : Inv s)
    (hphase : s.run = .startupWaiting candidate) {l : Live ρ}
    (hl : s.live.startupTunnelMux.startupDriveMux candidate = some l) :
    l.Ok ∧ l.bundle.Complete := by
  have hcandidate := h.run
  rw [hphase] at hcandidate
  constructor
  · refine h.live.startupTunnelMux.startupDriveMux ?_ hl
    obtain ⟨mux, hmux⟩ := s.live.startupTunnelMux_eq
    rw [hmux]
    exact hcandidate
  · exact Live.startupDriveMux_complete (Live.startupTunnelMux_complete h.live.built) hl

/-- The startup block finds the lock free: it gives up, goes on to the tasks, or is done. -/
theorem Inv.startupWaiting {s t : RuntimeState ρ} {ok : Bool}
    {candidate : Option (Option (DriveMux ρ))} (h : Inv s)
    (hphase : s.run = .startupWaiting candidate) (ht : s.runStep ok = some t) : Inv t := by
  have hstopped := h.stopped
  simp only [RuntimeState.runStep, hphase] at ht
  rw [hphase] at hstopped
  split_ifs at ht with hheld
  have hnone : s.switchLock = none := Option.not_isSome_iff_eq_none.mp hheld
  have hfree := h.free hnone
  split at ht
  · -- the Drive mux could not be had
    cases ht
    exact h.runLocked hfree.2 rfl hnone hstopped h.live.startupTunnelMux
      (fun hstarted => (by cases hstarted)) fun hup => (by cases hup)
  · rename_i l hl
    obtain ⟨hlive, hcomplete⟩ := h.startup hphase hl
    split at ht <;> cases ht
    · rename_i f hf
      exact h.runLocked hfree.2 rfl rfl hstopped hlive ⟨hcomplete, hf⟩ fun hup => (by cases hup)
    · rename_i hfronter
      refine h.runLocked hfree.2 rfl hnone hstopped hlive hcomplete fun _ hsome => ?_
      have hsome' : l.bundle.fronter.isSome = true := hsome
      rw [hfronter] at hsome'
      cases hsome'

/-- The tasks are spawned, unless a switch has been first. -/
theorem Inv.startupSpawning {s t : RuntimeState ρ} {ok : Bool} {f : Nat} (h : Inv s)
    (hphase : s.run = .startupSpawning f) (ht : s.runStep ok = some t) : Inv t := by
  have hok := h.run
  have hstopped := h.stopped
  have halone := h.switches_free (show s.run.holdsLock = true by rw [hphase]; rfl)
  simp only [RuntimeState.runStep, hphase] at ht
  rw [hphase] at hok hstopped
  obtain ⟨hlive, htasks, hbundle⟩ := h.live.spawn_of_isEmpty hok.2 rfl
  generalize (if s.live.isEmpty then s.live.spawnModeTasks f s.live.config else s.live) = l
    at ht hlive htasks hbundle
  cases ht
  refine h.runLocked halone rfl rfl hstopped hlive ?_ fun _ _ => htasks
  show l.bundle.Complete
  rw [hbundle]
  exact hok.1

/-- The last block of `run`. -/
theorem Inv.stopping {s t : RuntimeState ρ} {ok : Bool} (h : Inv s) (hphase : s.run = .stopping)
    (ht : s.runStep ok = some t) : Inv t := by
  have hstopped := h.stopped
  have halone := h.switches_free (show s.run.holdsLock = true by rw [hphase]; rfl)
  simp only [RuntimeState.runStep, hphase] at ht
  rw [hphase] at hstopped
  cases ht
  refine h.runLocked halone rfl rfl hstopped h.live.abortAll.clearMuxes ?_
    fun hup => (by cases hup)
  rw [Live.clearMuxes_eq]
  exact ⟨rfl, rfl, fun _ => rfl⟩

theorem Inv.runStep {s t : RuntimeState ρ} {ok : Bool} (h : Inv s)
    (ht : s.runStep ok = some t) : Inv t := by
  have hok := h.run
  have hstep := ht
  unfold RuntimeState.runStep at ht
  cases hphase : s.run with
  | returned => simp [hphase] at ht
  | startupWaiting candidate => exact h.startupWaiting hphase hstep
  | startupSpawning f => exact h.startupSpawning hphase hstep
  | stopping => exact h.stopping hphase hstep
  | notCalled =>
      simp only [hphase] at ht
      cases ht
      exact h.runMoved hphase rfl rfl rfl id trivial
  | binding =>
      simp only [hphase] at ht
      cases ht
      cases ok with
      | true => exact h.runMoved hphase rfl rfl rfl id trivial
      | false => exact h.runMoved hphase rfl rfl rfl id fun hstarted => (by cases hstarted)
  | bound =>
      simp only [hphase] at ht
      split_ifs at ht <;> cases ht
      · exact h.runMoved hphase rfl rfl rfl id trivial
      · exact h.runMoved hphase rfl rfl rfl id fun _ _ m hm => (by cases hm)
  | loadingConfig =>
      simp only [hphase] at ht
      cases ht
      exact h.runMoved hphase rfl rfl rfl id fun _ _ => rfl
  | startingDrive config =>
      simp only [hphase] at ht
      rw [hphase] at hok
      cases ht
      refine h.runMoved hphase rfl rfl rfl id fun hmode hnone m hm => ?_
      cases ok with
      | true =>
          cases hm
          exact hok hmode hnone
      | false => cases hm
  | serving =>
      simp only [hphase] at ht
      rw [hphase] at hok
      cases ht
      exact h.runMoved hphase rfl rfl rfl id fun _ => hok
  | leaving started =>
      simp only [hphase] at ht
      split_ifs at ht with hheld
      -- the lock is free, so no switch is installing
      have hfree := h.free (Option.not_isSome_iff_eq_none.mp hheld)
      cases ht
      exact h.runLocked hfree.2 rfl rfl rfl h.live trivial fun hup => (by cases hup)

theorem Inv.settled {s : RuntimeState ρ} (h : Inv s) (hlock : s.switchLock = none)
    (hup : s.run.isUp = true) : s.live.Settled := by
  refine h.live.settled ?_ (h.tasks hup hlock)
  have hok := h.run
  cases hphase : s.run with
  | serving =>
      rw [hphase] at hok
      exact hok
  | leaving started =>
      rw [hphase] at hok hup
      exact hok hup
  | _ =>
      rw [hphase] at hup
      cases hup

theorem Inv.stopped_of_returned {s : RuntimeState ρ} (h : Inv s) (hrun : s.run = .returned) :
    s.live.Stopped := by
  have hok := h.run
  rw [hrun] at hok
  obtain ⟨htunnel, hdrive, hnone⟩ := hok
  refine ⟨htunnel, hdrive, List.eq_nil_iff_forall_not_mem.mpr fun t ht => ?_⟩
  obtain ⟨kind, hkind⟩ := h.live.tracked t ht
  rw [hnone kind] at hkind
  cases hkind

theorem Inv.step {s t : RuntimeState ρ} {e : RuntimeEvent ρ} (h : Inv s)
    (ht : s.step e = some t) : Inv t := by
  cases e with
  | run ok => exact h.runStep ht
  | switch k ok => exact h.switchStep ht
  | callSwitch k config =>
      simp only [RuntimeState.step] at ht
      split at ht
      · rename_i hphase
        cases ht
        exact h.moved (moved_setSwitch s k _ _ _) (by rw [hphase]; rfl) rfl trivial
      · cases ht
  | endTask id =>
      simp only [RuntimeState.step] at ht
      split_ifs at ht
      cases ht
      refine ⟨h.live.endTask id, h.runLock, h.switchLock, h.stopped, h.quiet, h.run, h.switches,
        fun hup hlock hsome => ?_⟩
      exact Live.HasTasks.endTask (h.tasks hup hlock hsome) id

/-! ## A failed switch, and a switch after the end -/

/-- Of the phases only that of the switch itself changes, for good once it installs; until then
nothing that is live does. -/
theorem switchStep_switches {s t : RuntimeState ρ} {k : Nat} {ok : Bool}
    (ht : s.switchStep k ok = some t) :
    ∃ p, t.switches = Function.update s.switches k p ∧
      (p.isInstalling = false → (s.switches k).isInstalling = false ∧ t.live = s.live) := by
  rcases switchStep_cases ht with
    ⟨p, hbefore, -, -, hmoved⟩ | ⟨new, -, -, -, step, max, rfl⟩ | ⟨new, f, -, -, rfl⟩ |
    ⟨new, -, -, rfl⟩ | ⟨f, config, -, rfl⟩
  · exact ⟨p, hmoved.switches, fun _ => ⟨hbefore, hmoved.live⟩⟩
  all_goals exact ⟨_, rfl, fun hp => (by cases hp)⟩

theorem runStep_switches {s t : RuntimeState ρ} {ok : Bool} (ht : s.runStep ok = some t) :
    t.switches = s.switches := by
  unfold runStep at ht
  cases hphase : s.run with
  | startupWaiting candidate =>
      simp only [hphase] at ht
      split_ifs at ht
      split at ht
      · cases ht
        rfl
      · split at ht <;> cases ht <;> rfl
  | returned => simp [hphase] at ht
  | _ =>
      simp only [hphase] at ht
      first
        | (cases ht; rfl)
        | (split_ifs at ht <;> cases ht <;> rfl)

/-- The event is not a step of the switch `k` that changes what is live. -/
def Untouched (k : Nat) (s : RuntimeState ρ) (e : RuntimeEvent ρ) : Prop :=
  ∀ ok t, e = .switch k ok → s.step e = some t → t.live = s.live

/-- Where a switch does not install, it has not installed before, and leaves alone what is live. -/
theorem untouched_of_not_installing {s t : RuntimeState ρ} {e : RuntimeEvent ρ} (k : Nat)
    (ht : s.step e = some t) (hk : (t.switches k).isInstalling = false) :
    (s.switches k).isInstalling = false ∧ Untouched k s e := by
  cases e with
  | run ok =>
      rw [runStep_switches ht] at hk
      exact ⟨hk, fun _ _ he => (by cases he)⟩
  | endTask id =>
      simp only [step] at ht
      split_ifs at ht
      cases ht
      exact ⟨hk, fun _ _ he => (by cases he)⟩
  | callSwitch j config =>
      simp only [step] at ht
      split at ht
      · rename_i hphase
        cases ht
        refine ⟨?_, fun _ _ he => (by cases he)⟩
        by_cases hj : k = j
        · rw [hj, hphase]
          rfl
        · simpa [setSwitch, Function.update_of_ne hj] using hk
      · cases ht
  | switch j ok =>
      obtain ⟨p, hswitches, hp⟩ := switchStep_switches ht
      rw [hswitches] at hk
      by_cases hj : k = j
      · subst hj
        rw [Function.update_self] at hk
        refine ⟨(hp hk).1, fun ok' t' _ ht' => ?_⟩
        rw [ht] at ht'
        cases ht'
        exact (hp hk).2
      · rw [Function.update_of_ne hj] at hk
        refine ⟨hk, fun ok' t' he => ?_⟩
        cases he
        exact absurd rfl hj

/-- After the end of `run` a switch gives up before it stores anything. -/
theorem Inv.step_of_returned {s t : RuntimeState ρ} {e : RuntimeEvent ρ} (h : Inv s)
    (hrun : s.run = .returned) (ht : s.step e = some t) :
    t.run = .returned ∧ t.live = s.live := by
  have hstopped : s.stopped = true := by
    rw [h.stopped, hrun]
    rfl
  cases e with
  | run ok => simp [RuntimeState.step, RuntimeState.runStep, hrun] at ht
  | callSwitch k config =>
      simp only [RuntimeState.step] at ht
      split at ht
      · cases ht
        exact ⟨hrun, rfl⟩
      · cases ht
  | endTask id =>
      simp only [RuntimeState.step, (h.stopped_of_returned hrun).running] at ht
      cases ht
  | switch k ok =>
      have hfree := h.quiet hstopped k
      rcases switchStep_cases ht with
        ⟨p, -, -, -, hmoved⟩ | ⟨new, -, -, hgoing, -⟩ | ⟨new, f, hphase, -, -⟩ |
        ⟨new, hphase, -, -⟩ | ⟨f, config, hphase, -⟩
      · exact ⟨hmoved.run.trans hrun, hmoved.live⟩
      · rw [hstopped] at hgoing
        cases hgoing
      all_goals
        rw [hphase] at hfree
        cases hfree

/-- **The lifecycle of a mode.** In any interleaving of `run` with calls of `switch_mode`: whoever
finds the lock free while the proxy is up finds the live state settled; a switch that fails has
changed nothing; and after `run` there is nothing left, and nothing comes back. -/
theorem lifecycle_run {config : Config ρ} {ok : Bool} {s₀ : RuntimeState ρ}
    (h0 : new config ok = some s₀) (es : List (RuntimeEvent ρ)) :
    StepRun.AllStates step
        (fun s => s.switchLock = none → s.run.isUp = true → s.live.Settled) s₀ es ∧
      (∀ k t, StepRun.run step s₀ es = some t → t.switches k = .failed →
        StepRun.AllSteps step (Untouched k) s₀ es) ∧
      StepRun.AllStates step
        (fun s => s.run = .returned → s.live.Stopped ∧
          ∀ e t, s.step e = some t → t.run = .returned ∧ t.live = s.live) s₀ es := by
  refine ⟨?_, fun k t hrun hfailed => ?_, ?_⟩
  · exact StepRun.allStates_of_inv (I := Inv) (fun _ _ _ h ht => h.step ht)
      (fun _ h hlock hup => h.settled hlock hup) (inv_new h0) es
  · have hk : (t.switches k).isInstalling = false := by
      rw [hfailed]
      rfl
    exact (StepRun.allSteps_of_run (fun _ _ _ ht => untouched_of_not_installing k ht) hrun hk).2
  · refine StepRun.allStates_of_inv (I := Inv) (fun _ _ _ h ht => h.step ht)
      (fun s h hrun => ?_) (inv_new h0) es
    exact ⟨h.stopped_of_returned hrun, fun e t ht => h.step_of_returned hrun ht⟩

/-- A configuration in which nothing but the mode is set. -/
def inMode (mode : String) : Config Unit := ⟨mode, [], [], true, true, 0, 0, ()⟩

/-- A proxy that starts in Full mode, a switch that goes through and one whose configuration is
refused. -/
def twoSwitches : List (RuntimeEvent Unit) :=
  List.replicate 5 (.run true) ++
    (.callSwitch 0 (inMode "apps_script") :: List.replicate 6 (.switch 0 true)) ++
    [.callSwitch 1 (inMode "direct"), .switch 1 true, .switch 1 true, .switch 1 false]

/-- The live state is settled after the switches, and nothing is left once the proxy has been
stopped. -/
theorem lifecycle_full : ∃ s₀ s t : RuntimeState Unit,
    new (inMode "full") true = some s₀ ∧
      (StepRun.run step s₀ twoSwitches = some s ∧ s.live.config = inMode "apps_script" ∧
        s.live.Settled ∧ s.switches 1 = .failed ∧
        StepRun.AllSteps step (Untouched 1) s₀ twoSwitches) ∧
      StepRun.run step s₀ (twoSwitches ++ List.replicate 3 (.run true)) = some t ∧
        t.run = .returned ∧ t.live.Stopped := by
  have hsettled : ∀ s₀ s : RuntimeState Unit, new (inMode "full") true = some s₀ →
      StepRun.run step s₀ twoSwitches = some s → s.switchLock = none → s.run.isUp = true →
      s.live.Settled := by
    intro s₀ s h0 hrun
    exact StepRun.allStates_last (lifecycle_run h0 _).1 hrun
  have huntouched : ∀ s₀ s : RuntimeState Unit, new (inMode "full") true = some s₀ →
      StepRun.run step s₀ twoSwitches = some s → s.switches 1 = .failed →
      StepRun.AllSteps step (Untouched 1) s₀ twoSwitches := fun s₀ s h0 hrun =>
    (lifecycle_run h0 _).2.1 1 s hrun
  have hstopped : ∀ s₀ t : RuntimeState Unit, new (inMode "full") true = some s₀ →
      StepRun.run step s₀ (twoSwitches ++ List.replicate 3 (.run true)) = some t →
      t.run = .returned → t.live.Stopped := by
    intro s₀ t h0 hrun hreturned
    exact (StepRun.allStates_last (lifecycle_run h0 _).2.2 hrun hreturned).1
  exact ⟨_, _, _, rfl, ⟨rfl, rfl, hsettled _ _ rfl rfl rfl rfl, rfl,
    huntouched _ _ rfl rfl rfl⟩, rfl, rfl, hstopped _ _ rfl rfl rfl⟩

end RuntimeState

end Rahgozar.Proxy
