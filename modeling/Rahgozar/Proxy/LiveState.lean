import Rahgozar.Proxy.Lifecycle

set_option autoImplicit false

/-! # The live state of a proxy

What the operations on the bundle and on the tasks keep, whoever does them: a bundle has only what
its mode has, no task runs without its handle, and the tasks are those of the bundle's fronter.
-/

namespace Rahgozar.Proxy

variable {ρ : Type}

/-! ## What is to hold -/

/-- The bundle has the mux of its mode and no other, the tasks are those of its fronter (as far as
they have not come to their end), and the configuration is its own. -/
structure Live.Settled (l : Live ρ) : Prop where
  tunnelMux : l.bundle.tunnelMux.isSome ↔ l.bundle.rewriteCtx.mode = .full
  driveMux : l.bundle.driveMux.isSome ↔ l.bundle.rewriteCtx.mode = .drive
  muxFronter : ∀ m ∈ l.bundle.tunnelMux, l.bundle.fronter = some m.fronter
  muxConfig : ∀ m ∈ l.bundle.driveMux, m.config = l.config
  taskFronter : ∀ t ∈ l.running, l.bundle.fronter = some t.fronter
  tasks : ∀ f ∈ l.bundle.fronter, ∀ kind, ∃ t, l.modeTasks kind = some t ∧ t.kind = kind ∧
    t.fronter = f ∧ (t ∈ l.running ∨ t ∈ l.ended)
  config : l.config = l.bundle.config

/-- After `run`. -/
structure Live.Stopped (l : Live ρ) : Prop where
  tunnelMux : l.bundle.tunnelMux = none
  driveMux : l.bundle.driveMux = none
  running : l.running = []

namespace ModeBundle

/-- A bundle has no part that its mode does not have, and its muxes are its own. -/
structure Built (b : ModeBundle ρ) : Prop where
  fronter : b.fronter.isSome = b.rewriteCtx.mode.usesAppsScriptRelay
  tunnelMux : ∀ m ∈ b.tunnelMux, b.rewriteCtx.mode = .full ∧ b.fronter = some m.fronter
  driveMux : ∀ m ∈ b.driveMux, b.rewriteCtx.mode = .drive ∧ m.config = b.config

/-- And it has those that its mode has. -/
structure Complete (b : ModeBundle ρ) : Prop where
  tunnelMux : b.rewriteCtx.mode = .full → b.tunnelMux.isSome
  driveMux : b.rewriteCtx.mode = .drive → b.driveMux.isSome

end ModeBundle

theorem buildModeState_eq_some {config : Config ρ} {id : Nat} {ok : Bool} {fronter : Option Nat}
    {ctx : RewriteCtx} {mode : Mode} (h : buildModeState config id ok = some (fronter, ctx, mode)) :
    ctx.mode = mode ∧ fronter.isSome = mode.usesAppsScriptRelay := by
  unfold buildModeState at h
  split at h
  · cases h
  · split_ifs at h with hok hrelay
    · cases h
      exact ⟨rfl, hrelay.symm⟩
    · cases h
      exact ⟨rfl, (Bool.eq_false_of_not_eq_true hrelay).symm⟩

theorem built_of_buildModeState {config : Config ρ} {id : Nat} {ok : Bool} {fronter : Option Nat}
    {ctx : RewriteCtx} {mode : Mode} (h : buildModeState config id ok = some (fronter, ctx, mode)) :
    (⟨ctx, fronter, none, none, config⟩ : ModeBundle ρ).Built := by
  obtain ⟨hmode, hfronter⟩ := buildModeState_eq_some h
  refine ⟨?_, fun m hm => (by cases hm), fun m hm => (by cases hm)⟩
  rw [hmode]
  exact hfronter

/-! ## The tasks -/

theorem TaskKind.mem_all (kind : TaskKind) : kind ∈ TaskKind.all := by
  cases kind <;> decide

namespace Live

/-- All tasks of the bundle's fronter have been spawned, and none asked to abort. -/
def HasTasks (l : Live ρ) : Prop :=
  ∃ f, l.bundle.fronter = some f ∧ ∀ kind, ∃ t, l.modeTasks kind = some t ∧ t.kind = kind ∧
    t.fronter = f ∧ (t ∈ l.running ∨ t ∈ l.ended)

structure Ok (l : Live ρ) : Prop where
  built : l.bundle.Built
  config : l.config = l.bundle.config
  /-- No running task is without its handle. -/
  tracked : ∀ t ∈ l.running, ∃ kind, l.modeTasks kind = some t
  tasks : (∀ kind, l.modeTasks kind = none) ∨ l.HasTasks

theorem isEmpty_iff {l : Live ρ} : l.isEmpty = true ↔ ∀ kind, l.modeTasks kind = none := by
  unfold isEmpty
  rw [List.all_eq_true]
  constructor
  · intro h kind
    exact Option.isNone_iff_eq_none.mp (h kind kind.mem_all)
  · intro h kind _
    rw [h kind]
    rfl

theorem abortAll_running {l : Live ρ} (h : ∀ t ∈ l.running, ∃ kind, l.modeTasks kind = some t) :
    l.abortAll.running = [] := by
  refine List.filter_eq_nil_iff.mpr fun t ht hall => ?_
  obtain ⟨kind, hkind⟩ := h t ht
  have hne := List.all_eq_true.mp hall kind kind.mem_all
  simp [hkind] at hne

/-- The bag after a spawn: one task of each kind, and nothing else runs. -/
theorem spawnModeTasks_spec {l : Live ρ} {f : Nat} {config : Config ρ}
    (h : ∀ t ∈ l.running, ∃ kind, l.modeTasks kind = some t) :
    (∀ t ∈ (l.spawnModeTasks f config).running,
        ∃ kind, (l.spawnModeTasks f config).modeTasks kind = some t) ∧
      ∀ kind, ∃ t, (l.spawnModeTasks f config).modeTasks kind = some t ∧ t.kind = kind ∧
        t.fronter = f ∧ t ∈ (l.spawnModeTasks f config).running := by
  have hnil := abortAll_running h
  constructor
  · intro t ht
    refine ⟨t.kind, ?_⟩
    simp only [spawnModeTasks, spawn, hnil, List.nil_append, List.cons_append, List.mem_cons,
      List.not_mem_nil, or_false] at ht
    rcases ht with rfl | rfl | rfl | rfl | rfl | rfl <;> simp [spawnModeTasks, spawn]
  · intro kind
    cases kind <;> simp [spawnModeTasks, spawn]

@[simp] theorem abortAll_bundle (l : Live ρ) : l.abortAll.bundle = l.bundle := rfl

@[simp] theorem abortAll_config (l : Live ρ) : l.abortAll.config = l.config := rfl

@[simp] theorem spawn_bundle (l : Live ρ) (kind : TaskKind) (f : Nat) (c : Option (Config ρ)) :
    (l.spawn kind f c).bundle = l.bundle := rfl

@[simp] theorem spawn_config (l : Live ρ) (kind : TaskKind) (f : Nat) (c : Option (Config ρ)) :
    (l.spawn kind f c).config = l.config := rfl

@[simp] theorem spawnModeTasks_bundle (l : Live ρ) (f : Nat) (config : Config ρ) :
    (l.spawnModeTasks f config).bundle = l.bundle := by
  simp only [spawnModeTasks, spawn_bundle, abortAll_bundle]

@[simp] theorem spawnModeTasks_config (l : Live ρ) (f : Nat) (config : Config ρ) :
    (l.spawnModeTasks f config).config = l.config := by
  simp only [spawnModeTasks, spawn_config, abortAll_config]

theorem hasTasks_spawnModeTasks {l : Live ρ} {f : Nat} (config : Config ρ) (h : l.Ok)
    (hf : l.bundle.fronter = some f) : (l.spawnModeTasks f config).HasTasks := by
  refine ⟨f, by rw [spawnModeTasks_bundle]; exact hf, fun kind => ?_⟩
  obtain ⟨t, hslot, hkind, hfronter, hrunning⟩ := (spawnModeTasks_spec h.tracked).2 kind
  exact ⟨t, hslot, hkind, hfronter, .inl hrunning⟩

theorem Ok.spawnModeTasks {l : Live ρ} {f : Nat} (h : l.Ok) (config : Config ρ)
    (hf : l.bundle.fronter = some f) : (l.spawnModeTasks f config).Ok where
  built := by
    rw [spawnModeTasks_bundle]
    exact h.built
  config := by
    rw [spawnModeTasks_config, spawnModeTasks_bundle]
    exact h.config
  tracked := (spawnModeTasks_spec h.tracked).1
  tasks := .inr (hasTasks_spawnModeTasks config h hf)

/-- The tasks at startup, where a switch may have been first. -/
theorem Ok.spawn_of_isEmpty {l l' : Live ρ} {f : Nat} (h : l.Ok) (hf : l.bundle.fronter = some f)
    (hl' : l' = if l.isEmpty then l.spawnModeTasks f l.config else l) :
    l'.Ok ∧ l'.HasTasks ∧ l'.bundle = l.bundle := by
  split_ifs at hl' with hempty
  · rw [hl']
    exact ⟨h.spawnModeTasks _ hf, hasTasks_spawnModeTasks _ h hf, spawnModeTasks_bundle ..⟩
  · rw [hl']
    refine ⟨h, h.tasks.resolve_left fun hnone => ?_, rfl⟩
    exact hempty (isEmpty_iff.mpr hnone)

theorem Ok.abortAll {l : Live ρ} (h : l.Ok) : l.abortAll.Ok where
  built := h.built
  config := h.config
  tracked t ht := by
    rw [abortAll_running h.tracked] at ht
    cases ht
  tasks := .inl fun _ => rfl

theorem HasTasks.endTask {l : Live ρ} (h : l.HasTasks) (id : Nat) : (l.endTask id).HasTasks := by
  obtain ⟨f, hf, htasks⟩ := h
  refine ⟨f, hf, fun kind => ?_⟩
  obtain ⟨t, hslot, hkind, hfronter, hrun⟩ := htasks kind
  refine ⟨t, hslot, hkind, hfronter, ?_⟩
  rcases hrun with hrun | hended
  · by_cases hid : t.id = id
    · exact .inr (List.mem_append_right _ (List.mem_filter.mpr ⟨hrun, by simpa using hid⟩))
    · exact .inl (List.mem_filter.mpr ⟨hrun, by simpa using hid⟩)
  · exact .inr (List.mem_append_left _ hended)

theorem Ok.endTask {l : Live ρ} (h : l.Ok) (id : Nat) : (l.endTask id).Ok where
  built := h.built
  config := h.config
  tracked t ht := h.tracked t (List.mem_of_mem_filter ht)
  tasks := h.tasks.imp_right fun htasks => htasks.endTask id

/-- What is found where the lock is free. -/
theorem Ok.settled {l : Live ρ} (h : l.Ok) (hcomplete : l.bundle.Complete)
    (htasks : l.bundle.fronter.isSome → l.HasTasks) : l.Settled where
  tunnelMux := by
    refine ⟨fun hsome => ?_, hcomplete.tunnelMux⟩
    obtain ⟨m, hm⟩ := Option.isSome_iff_exists.mp hsome
    exact (h.built.tunnelMux m hm).1
  driveMux := by
    refine ⟨fun hsome => ?_, hcomplete.driveMux⟩
    obtain ⟨m, hm⟩ := Option.isSome_iff_exists.mp hsome
    exact (h.built.driveMux m hm).1
  muxFronter m hm := (h.built.tunnelMux m hm).2
  muxConfig m hm := (h.built.driveMux m hm).2.trans h.config.symm
  taskFronter t ht := by
    obtain ⟨kind, hkind⟩ := h.tracked t ht
    rcases h.tasks with hnone | ⟨f, hf, hslots⟩
    · rw [hnone kind] at hkind
      cases hkind
    · obtain ⟨t', hslot, -, hfronter, -⟩ := hslots kind
      rw [hkind] at hslot
      cases hslot
      rw [hf, hfronter]
  tasks f hf kind := by
    obtain ⟨f', hf', hslots⟩ := htasks (Option.isSome_of_mem hf)
    obtain ⟨t, hslot, hkind, hfronter, hrun⟩ := hslots kind
    refine ⟨t, hslot, hkind, ?_, hrun⟩
    rw [hfronter]
    exact Option.some_inj.mp (hf'.symm.trans hf)
  config := h.config

/-! ## The muxes -/

theorem Ok.startupTunnelMux {l : Live ρ} (h : l.Ok) : l.startupTunnelMux.Ok := by
  unfold Live.startupTunnelMux
  split
  · rename_i f hf
    split_ifs with hfull
    · refine ⟨⟨h.built.fronter, ?_, h.built.driveMux⟩, h.config, h.tracked, h.tasks⟩
      intro m hm
      cases hm
      exact ⟨hfull.1, hf⟩
    · exact h
  · exact h

/-- Nothing but the mux changes. -/
theorem startupTunnelMux_eq (l : Live ρ) :
    ∃ mux, l.startupTunnelMux = { l with bundle.tunnelMux := mux } := by
  unfold Live.startupTunnelMux
  split
  · split_ifs
    · exact ⟨_, rfl⟩
    · exact ⟨l.bundle.tunnelMux, rfl⟩
  · exact ⟨l.bundle.tunnelMux, rfl⟩

/-- In Full mode there is a fronter, so there is a mux. -/
theorem startupTunnelMux_complete {l : Live ρ} (h : l.bundle.Built) :
    l.startupTunnelMux.bundle.rewriteCtx.mode = .full →
      l.startupTunnelMux.bundle.tunnelMux.isSome := by
  unfold Live.startupTunnelMux
  split
  · split_ifs with hfull
    · exact fun _ => rfl
    · intro hmode
      by_contra hnone
      exact hfull ⟨hmode, by simpa using hnone⟩
  · rename_i hnone
    intro hmode
    have hrelay := h.fronter
    rw [hnone, hmode] at hrelay
    cases hrelay

theorem Ok.startupDriveMux {l l' : Live ρ} {candidate : Option (Option (DriveMux ρ))} (h : l.Ok)
    (hcandidate : l.bundle.rewriteCtx.mode = .drive → l.bundle.driveMux = none →
      ∀ m, candidate = some (some m) → m.config = l.config)
    (hl' : l.startupDriveMux candidate = some l') : l'.Ok := by
  unfold Live.startupDriveMux at hl'
  split_ifs at hl' with hdrive
  · split at hl'
    · rename_i mux
      cases hl'
      refine ⟨⟨h.built.fronter, h.built.tunnelMux, ?_⟩, h.config, h.tracked, h.tasks⟩
      intro m hm
      cases hm
      have hconfig := hcandidate hdrive.1 (Option.isNone_iff_eq_none.mp hdrive.2) mux rfl
      exact ⟨hdrive.1, hconfig.trans h.config⟩
    · cases hl'
    · cases hl'
  · cases hl'
    exact h

theorem startupDriveMux_complete {l l' : Live ρ} {candidate : Option (Option (DriveMux ρ))}
    (h : l.bundle.rewriteCtx.mode = .full → l.bundle.tunnelMux.isSome)
    (hl' : l.startupDriveMux candidate = some l') : l'.bundle.Complete := by
  unfold Live.startupDriveMux at hl'
  split_ifs at hl' with hdrive
  · split at hl'
    · cases hl'
      exact ⟨h, fun _ => rfl⟩
    · cases hl'
    · cases hl'
  · cases hl'
    refine ⟨h, fun hmode => ?_⟩
    by_contra hnone
    exact hdrive ⟨hmode, by simpa using hnone⟩

theorem clearMuxes_eq (l : Live ρ) :
    l.clearMuxes = { l with bundle.tunnelMux := none, bundle.driveMux := none } := by
  unfold clearMuxes
  split_ifs with hmux
  · rfl
  · rw [not_or, Option.not_isSome_iff_eq_none, Option.not_isSome_iff_eq_none] at hmux
    rw [← hmux.1, ← hmux.2]

theorem Ok.clearMuxes {l : Live ρ} (h : l.Ok) : l.clearMuxes.Ok := by
  rw [clearMuxes_eq]
  exact ⟨⟨h.built.fronter, fun m hm => (by cases hm), fun m hm => (by cases hm)⟩, h.config,
    h.tracked, h.tasks⟩

/-- A switch stores what it has built. -/
theorem Ok.store {l : Live ρ} (h : l.Ok) {new : ModeBundle ρ} (hnew : new.Built) :
    Ok { l.abortAll with bundle := new, config := new.config } where
  built := hnew
  config := rfl
  tracked := h.abortAll.tracked
  tasks := .inl fun _ => rfl

end Live

theorem ModeBundle.Built.startTunnelMux {b : ModeBundle ρ} (h : b.Built) (step max : Nat) :
    (b.startTunnelMux step max).Built where
  fronter := h.fronter
  tunnelMux m hm := by
    simp only [ModeBundle.startTunnelMux] at hm ⊢
    split_ifs at hm with hfull
    · obtain ⟨f, hf, rfl⟩ := Option.map_eq_some_iff.mp hm
      exact ⟨hfull, hf⟩
    · cases hm
  driveMux := h.driveMux

theorem ModeBundle.Built.complete {b : ModeBundle ρ} (h : b.Built) (step max : Nat)
    (hdrive : b.rewriteCtx.mode = .drive → b.driveMux.isSome) :
    (b.startTunnelMux step max).Complete where
  tunnelMux hfull := by
    have hfull' : b.rewriteCtx.mode = .full := hfull
    have hfronter := h.fronter
    rw [hfull'] at hfronter
    simp only [ModeBundle.startTunnelMux, if_pos hfull', Option.isSome_map]
    exact hfronter
  driveMux := hdrive

end Rahgozar.Proxy
