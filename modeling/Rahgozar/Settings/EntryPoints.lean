import Rahgozar.Lib.Run
import Rahgozar.Settings.Accepted
import Rahgozar.Settings.Android

set_option autoImplicit false

/-! # Who runs a configuration

The desktop's `start_proxy`, the JNI's `startProxy`, `RuntimeState::switch_mode`, and the profile
switches `apply_profile_with_paths` and `ProfileStore.applyProfile`. Two of them validate; the
others rely on `build_mode_state`, or on `validateRuntimeShape`, which check a part of the rules.

Files are written, certificates are made and ports are bound here without failing; a failure would
be one more way to refuse. The OAuth refresh is a parameter.
-/

namespace Rahgozar.Settings

open Drive (trim)
open Proxy (Mode toAsciiLowercase trimEndDots)
open Rahgozar.Config (trimKotlin isBlank)
open Refusal

/-- Everything the entry points ask others. -/
structure World where
  crates : Crates
  org : OrgJson
  /-- `validateDriveRelayPubkey` of `ConfigStore.kt` -/
  validateDriveRelayPubkey : Text → Option String
  /-- `TokenCache::get` with a refresh token, a client id and a client secret -/
  refresh : Text → Text → Text → Except String Unit

variable (w : World)

/-! ## The entry points -/

/-- `build_camouflage_connector` -/
def buildCamouflageConnector (verifyNames : List Text) : Except String Unit :=
  let expected := verifyNames.filter fun n =>
    let n := trimEndDots (trim n)
    !n.isEmpty && (w.crates.serverName n).isOk
  rejectIf expected.isEmpty "no valid verify_names for camouflage connector"

/-- The names `FrontingGroupResolved` keeps. -/
def FrontingGroup.resolvedVerifyNames (g : FrontingGroup) : List Text :=
  (g.verifyNames.map fun d => toAsciiLowercase (trimEndDots (trim d))).filter fun d => !d.isEmpty

/-- `FrontingGroupResolved::from_config` -/
def FrontingGroup.fromConfig (g : FrontingGroup) : Except String Unit := do
  (w.crates.serverName g.sni).mapError fun e => "invalid sni '" ++ display g.sni ++ "': " ++ e
  rejectIf (!g.forceIp && (trim g.ip).isEmpty) "ip is required unless force_ip = true"
  if g.forceIp && !g.resolvedVerifyNames.isEmpty then
    (buildCamouflageConnector w g.resolvedVerifyNames).mapError ("force_ip verify_names: " ++ ·)

/-- `build_mode_state`, as far as it can fail. -/
def buildModeState (c : Config) : Except String Mode := do
  let mode ← c.modeKind
  -- `DomainFronter::new`
  rejectIf (mode.usesAppsScriptRelay && c.scriptIdsResolved.isEmpty)
    "relay error: no script_id configured"
  checkEach (fun _ g => (g.fromConfig w).mapError
    ("fronting_groups['" ++ display g.name ++ "']: " ++ ·)) 0 c.frontingGroups
  pure mode

/-- `start_proxy` of the desktop, from `config.json`: the configuration the proxy runs with. -/
def startProxyDesktop (configJson : Object) : Except String Config := do
  let c ← Config.load w.crates configJson
  let _ ← buildModeState w c
  pure c

/-- `Native.startProxy` of Android. -/
def startProxy (configJson : Object) : Except String Config :=
  match Config.deserialize configJson with
  | none => .error "android: invalid config json"
  | some c => (buildModeState w c).map fun _ => c

/-- `DriveMux::start`. An address that is none is only logged. -/
def driveMuxStart (c : Config) : Except String Unit := do
  (w.crates.fromBech32m c.drive.relayPubkey).mapError ("drive.relay_pubkey: " ++ ·)
  (w.refresh c.drive.oauthRefreshToken c.drive.oauthClientId c.drive.oauthClientSecret).mapError
    ("drive oauth refresh: " ++ ·)

/-- `RuntimeState::switch_mode` of a proxy that runs. -/
def switchMode (c : Config) : Except String Config := do
  let mode ← buildModeState w c
  if mode = .drive then (driveMuxStart w c).mapError ("drive mux: " ++ ·)
  pure c

/-- `apply_profile_with_paths`: what `config.json` holds afterwards. -/
def applyProfileWithPaths (snapshot : Object) : Except String Object := do
  let _ ← Config.load w.crates snapshot
  pure snapshot

/-- `ProfileStore.applyProfile` -/
def applyProfile (snapshot : Object) : Except String Object :=
  match decode w.org snapshot with
  | none => .error "snapshot did not decode into RahgozarConfig"
  | some cfg =>
      ((validateRuntimeShape w.org w.validateDriveRelayPubkey snapshot cfg).mapError
        ("snapshot would not pass runtime validation: " ++ ·)).map fun _ => snapshot

/-! ## What is asked for -/

/-- No entry point takes the configuration. -/
structure RefusedEverywhere (o : Object) (c : Config) : Prop where
  startProxyDesktop : Refuses (startProxyDesktop w o)
  startProxy : Refuses (startProxy w o)
  switchMode : Refuses (switchMode w c)
  applyProfileWithPaths : Refuses (applyProfileWithPaths w o)
  applyProfile : Refuses (applyProfile w o)

/-! ## What every entry point looks at -/

/-- A group that `build_mode_state` does not take. -/
def FrontingGroup.Unusable (g : FrontingGroup) : Prop :=
  Refuses (w.crates.serverName g.sni) ∨
    (g.forceIp = false ∧ trim g.ip = []) ∨
    (g.forceIp = true ∧ g.resolvedVerifyNames ≠ [] ∧
      ∀ n ∈ g.resolvedVerifyNames, trimEndDots (trim n) = [] ∨
        Refuses (w.crates.serverName (trimEndDots (trim n))))

/-- Android misses an ID or the key of the Apps Script relay. -/
def RahgozarConfig.LacksRelay (r : RahgozarConfig) : Prop :=
  r.hasDeploymentId = false ∨ trimKotlin r.authKey = [] ∨
    trimKotlin r.authKey = "CHANGE_ME_TO_A_STRONG_SECRET".toList

/-- Android misses a part of the Drive setup. -/
def RahgozarConfig.LacksDrive (r : RahgozarConfig) : Prop :=
  isBlank r.driveOauthClientId = true ∨ isBlank r.driveOauthClientSecret = true ∨
    isBlank r.driveOauthRefreshTokenSnapshot = true ∨ isBlank r.driveFolderId = true ∨
    isBlank r.driveRelayPubkey = true ∨
    (w.validateDriveRelayPubkey r.driveRelayPubkey).isSome = true ∨
    r.drivePollIntervalMs ≤ 0 ∨ r.driveMaxConcurrentUploads ≤ 0

/-- The configuration breaks a rule that each of the entry points has. -/
def Covered (o : Object) (c : Config) : Prop :=
  match Mode.fromStr (display c.mode) with
  | none => True
  | some .appsScript | some .full =>
      (c.scriptIdsResolved = [] ∨ ∃ g ∈ c.frontingGroups, g.Unusable w) ∧
        (loadFromJson w.org o).LacksRelay
  | some .drive =>
      (∃ g ∈ c.frontingGroups, g.Unusable w) ∧ (loadFromJson w.org o).LacksDrive w
  | some .direct | some .localBypass => False

variable {w} {o : Object} {c : Config} {g : FrontingGroup} {r : RahgozarConfig}

theorem refuses_buildCamouflageConnector {names : List Text} :
    Refuses (buildCamouflageConnector w names) ↔
      ∀ n ∈ names, trimEndDots (trim n) = [] ∨
        Refuses (w.crates.serverName (trimEndDots (trim n))) := by
  simp only [buildCamouflageConnector, refuses_rejectIf, List.isEmpty_iff,
    List.filter_eq_nil_iff]
  refine forall₂_congr fun n _ => ?_
  cases hsn : w.crates.serverName (trimEndDots (trim n)) with
  | error e => simp [Except.isOk, Except.toBool]
  | ok u => simp [Except.isOk, Except.toBool]

theorem refuses_fromConfig : Refuses (g.fromConfig w) ↔ g.Unusable w := by
  unfold FrontingGroup.fromConfig FrontingGroup.Unusable
  simp only [refuses_seq, refuses_mapError, refuses_rejectIf, refuses_ite,
    refuses_buildCamouflageConnector, Bool.and_eq_true, Bool.not_eq_true', List.isEmpty_iff,
    List.isEmpty_eq_false_iff, and_assoc]

/-- What `build_mode_state` does not take. -/
theorem refuses_buildModeState :
    Refuses (buildModeState w c) ↔ ∀ mode, Mode.fromStr (display c.mode) = some mode →
      (mode.usesAppsScriptRelay = true ∧ c.scriptIdsResolved = []) ∨
        ∃ g ∈ c.frontingGroups, g.Unusable w := by
  unfold buildModeState Config.modeKind
  cases hmode : Mode.fromStr (display c.mode) with
  | none => simp [refuses_bind]
  | some mode =>
      rw [refuses_bind]
      simp only [not_refuses_ok, false_or, Except.ok.injEq, exists_eq_left', Option.some.injEq,
        forall_eq']
      simp [refuses_fromConfig]

theorem lookup_mode (h : Config.deserialize o = some c) :
    o.lookup "mode" = some (.str c.mode) := by
  obtain ⟨v, hv, hs⟩ := Option.bind_eq_some_iff.mp (Config.deserialize_iff.mp h).mode
  rw [hv, Json.asString_eq_some.mp hs]

/-- The two languages know the same modes. -/
theorem shapeMode_eq (text : Text) : shapeMode text = Mode.fromStr (display text) := by
  have hiff : ∀ s : String, display text = s ↔ text = s.toList := by
    intro s
    rw [display, ← String.ofList_inj, String.ofList_toList]
  unfold shapeMode
  by_cases h1 : text = "apps_script".toList
  · rw [if_pos h1, (hiff _).mpr h1]
    rfl
  rw [if_neg h1]
  by_cases h2 : text = "direct".toList
  · rw [if_pos (.inl h2), (hiff _).mpr h2]
    rfl
  by_cases h3 : text = "google_only".toList
  · rw [if_pos (.inr h3), (hiff _).mpr h3]
    rfl
  rw [if_neg (not_or.mpr ⟨h2, h3⟩)]
  by_cases h4 : text = "full".toList
  · rw [if_pos h4, (hiff _).mpr h4]
    rfl
  rw [if_neg h4]
  by_cases h5 : text = "local_bypass".toList
  · rw [if_pos h5, (hiff _).mpr h5]
    rfl
  rw [if_neg h5]
  by_cases h6 : text = "drive".toList
  · rw [if_pos h6, (hiff _).mpr h6]
    rfl
  rw [if_neg h6]
  unfold Mode.fromStr
  split
  · exact absurd ((hiff _).mp ‹_›) h1
  · exact absurd ((hiff _).mp ‹_›) h2
  · exact absurd ((hiff _).mp ‹_›) h3
  · exact absurd ((hiff _).mp ‹_›) h4
  · exact absurd ((hiff _).mp ‹_›) h5
  · exact absurd ((hiff _).mp ‹_›) h6
  · rfl

theorem isBlank_of_shapeMode {text : Text} {mode : Mode} (h : shapeMode text = some mode) :
    isBlank text = false := by
  unfold shapeMode at h
  split_ifs at h with h1 h2 h3 h4 h5
  · rw [h1]
    decide
  · rcases h2 with rfl | rfl <;> decide
  · rw [h3]
    decide
  · rw [h4]
    decide
  · rw [h5]
    decide

theorem refuses_validateShapeAppsScript {mode : String} :
    Refuses (validateShapeAppsScript mode r) ↔ r.LacksRelay := by
  simp only [validateShapeAppsScript, RahgozarConfig.LacksRelay, refuses_seq, refuses_rejectIf,
    Bool.not_eq_true', Bool.or_eq_true, List.isEmpty_iff, decide_eq_true_eq]

theorem refuses_pubkeyError {error : Option String} :
    Refuses (pubkeyError error) ↔ error.isSome = true := by
  cases error <;> simp [pubkeyError]

theorem refuses_validateShapeDrive {mode : String} :
    Refuses (validateShapeDrive w.validateDriveRelayPubkey mode r) ↔ r.LacksDrive w := by
  simp only [validateShapeDrive, RahgozarConfig.LacksDrive, refuses_seq, refuses_rejectIf,
    refuses_pubkeyError, decide_eq_true_eq]

/-- What the profile switch on Android does not take. -/
theorem refuses_applyProfile (h : Config.deserialize o = some c) :
    Refuses (applyProfile w o) ↔ ∀ mode, Mode.fromStr (display c.mode) = some mode →
      (mode.usesAppsScriptRelay = true ∧ (loadFromJson w.org o).LacksRelay) ∨
        (mode = .drive ∧ (loadFromJson w.org o).LacksDrive w) := by
  have hlookup := lookup_mode h
  have hshape : hasConfigShape o = true := by simp [hasConfigShape, hlookup]
  have hmode : optString w.org o "mode" [] = c.mode := by simp [optString, hlookup, asText]
  unfold applyProfile decode
  rw [if_pos hshape]
  simp only [refuses_map, refuses_mapError, validateRuntimeShape, hmode, refuses_seq,
    refuses_rejectIf, shapeMode_eq]
  cases hfrom : Mode.fromStr (display c.mode) with
  | none => simp
  | some mode =>
      have hblank : isBlank c.mode = false := isBlank_of_shapeMode ((shapeMode_eq _).trans hfrom)
      cases mode <;> simp [hblank, Mode.usesAppsScriptRelay, refuses_validateShapeAppsScript,
        refuses_validateShapeDrive]

theorem refuses_load (h : Config.deserialize o = some c) :
    Refuses (Config.load w.crates o) ↔ Refuses (c.validate w.crates) := by
  unfold Config.load
  rw [h]
  exact refuses_map

/-- **Who refuses what.** For a configuration that `validate` rejects, the five entry points all
refuse exactly if it is covered. -/
theorem refusedEverywhere_iff (h : Config.deserialize o = some c)
    (hinvalid : Refuses (c.validate w.crates)) : RefusedEverywhere w o c ↔ Covered w o c := by
  have hload : Refuses (Config.load w.crates o) := (refuses_load h).mpr hinvalid
  have hstart : Refuses (startProxy w o) ↔ Refuses (buildModeState w c) := by
    unfold startProxy
    rw [h]
    exact refuses_map
  have hcovered : Covered w o c ↔ Refuses (buildModeState w c) ∧ Refuses (applyProfile w o) := by
    rw [refuses_buildModeState, refuses_applyProfile h]
    unfold Covered
    cases hmode : Mode.fromStr (display c.mode) with
    | none => simp
    | some mode => cases mode <;> simp [Mode.usesAppsScriptRelay]
  rw [hcovered]
  constructor
  · intro hall
    exact ⟨hstart.mp hall.startProxy, hall.applyProfile⟩
  · rintro ⟨hbuild, happly⟩
    refine ⟨?_, hstart.mpr hbuild, ?_, ?_, happly⟩
    · exact refuses_bind.mpr (.inl hload)
    · exact refuses_bind.mpr (.inl hbuild)
    · exact refuses_bind.mpr (.inl hload)

/-- **No entry point runs an invalid configuration**: this holds of a configuration if and only if
it is valid, or breaks a rule that each of the entry points has. -/
theorem refused_iff (w : World) (o : Object) (c : Config) (h : Config.deserialize o = some c) :
    (Refuses (c.validate w.crates) → RefusedEverywhere w o c) ↔
      (¬Refuses (c.validate w.crates) ∨ Covered w o c) := by
  by_cases hinvalid : Refuses (c.validate w.crates)
  · rw [refusedEverywhere_iff h hinvalid]
    exact ⟨fun himp => .inr (himp hinvalid), fun hor _ => hor.resolve_left (not_not.mpr hinvalid)⟩
  · exact ⟨fun _ => .inl hinvalid, fun _ hrefuses => absurd hrefuses hinvalid⟩

/-! ### A Drive setup without a Google address -/

def sampleKey : Text := "rgdr1jxtcw0wklzug0kxfsegwh2cc4kt6y50a5ac7vwmlln0emd30sq4sd7x0sx".toList

/-- Crates that know one key and one address, and a refresh that succeeds. -/
def sampleWorld : World where
  crates := {
    serverName := fun name => if name.isEmpty then .error "invalid dns name" else .ok ()
    isIpAddr := fun text => text = "216.239.38.120".toList
    fromBech32m := fun key => if trim key = sampleKey then .ok () else .error "bad encoding"
    debug := fun text => "\"" ++ display text ++ "\"" }
  org := {
    textOf := fun _ => []
    intOf := fun _ => none
    boolOf := fun _ => none
    reprintNumber := id }
  validateDriveRelayPubkey := fun key =>
    if trimKotlin key = sampleKey then none else some "relay pubkey is not valid bech32m"
  refresh := fun _ _ _ => .ok ()

def withoutGoogleIp : Object :=
  [ ("mode", .str "drive".toList),
    ("google_ip", .str []),
    ("drive", .obj [("oauth_client_id", .str "id".toList),
      ("oauth_client_secret", .str "secret".toList), ("oauth_refresh_token", .str "1//t".toList),
      ("folder_id", .str "folder".toList), ("relay_pubkey", .str sampleKey)]) ]

theorem refused_iff_withoutGoogleIp : ∃ c, Config.deserialize withoutGoogleIp = some c ∧
    ((Refuses (c.validate sampleWorld.crates) → RefusedEverywhere sampleWorld withoutGoogleIp c) ↔
      (¬Refuses (c.validate sampleWorld.crates) ∨ Covered sampleWorld withoutGoogleIp c)) :=
  ⟨_, rfl, refused_iff sampleWorld withoutGoogleIp _ rfl⟩

/-- `validate` rejects it, as Drive would ask the provider's DNS; `startProxy` and `switch_mode`
run it, and the profile switch on Android writes it. -/
theorem withoutGoogleIp_runs : ∃ c, Config.deserialize withoutGoogleIp = some c ∧
    Refuses (c.validate sampleWorld.crates) ∧ startProxy sampleWorld withoutGoogleIp = .ok c ∧
    switchMode sampleWorld c = .ok c ∧
    applyProfile sampleWorld withoutGoogleIp = .ok withoutGoogleIp :=
  ⟨_, rfl, ⟨_, rfl⟩, rfl, rfl, rfl⟩

/-! ## What runs and what is on disk -/

structure Installed where
  running : Option Config
  configJson : Object

/-- A call of an entry point; `start_proxy` of the desktop takes what is on disk. -/
inductive Call where
  | startProxyDesktop
  | startProxy (t : Object)
  | switchMode (t : Object)
  | applyProfileWithPaths (t : Object)
  | applyProfile (t : Object)

namespace Installed

/-- The proxy runs with what the entry point has taken; a refusal leaves it alone. -/
def runWith (s : Installed) : Except String Config → Installed
  | .ok c => { s with running := some c }
  | .error _ => s

def write (s : Installed) : Except String Object → Installed
  | .ok t => { s with configJson := t }
  | .error _ => s

def step (w : World) (s : Installed) : Call → Option Installed
  | .startProxyDesktop => some (s.runWith (startProxyDesktop w s.configJson))
  | .startProxy t => some (s.runWith (startProxy w t))
  | .switchMode t =>
      -- only a proxy that runs is switched
      if s.running.isNone then none
      else (Config.deserialize t).map fun c => s.runWith (switchMode w c)
  | .applyProfileWithPaths t => some (s.write (applyProfileWithPaths w t))
  | .applyProfile t => some (s.write (applyProfile w t))

def IsValid (w : World) (o : Object) : Prop :=
  ∀ c, Config.deserialize o = some c → ¬Refuses (c.validate w.crates)

/-- Neither the proxy nor `config.json` holds an invalid configuration. -/
structure Sound (w : World) (s : Installed) : Prop where
  running : ∀ c, s.running = some c → ¬Refuses (c.validate w.crates)
  configJson : IsValid w s.configJson

/-- A text of a valid configuration, or of one that is covered, or of none. -/
def Harmless (w : World) (t : Object) : Prop :=
  ∀ c, Config.deserialize t = some c → ¬Refuses (c.validate w.crates) ∨ Covered w t c

/-- What the call of an entry point that does not validate is given is harmless. -/
def OffersHarmless (w : World) (_ : Installed) : Call → Prop
  | .startProxy t => Harmless w t
  | .switchMode t => Harmless w t
  | .applyProfile t => Harmless w t
  | _ => True

variable {s s' : Installed} {call : Call} {t : Object}

/-- A harmless text that an entry point does not refuse is valid. -/
theorem Harmless.valid (h : Harmless w t) (hc : Config.deserialize t = some c)
    (htaken : ¬RefusedEverywhere w t c) : ¬Refuses (c.validate w.crates) := by
  intro hinvalid
  rcases h c hc with hvalid | hcovered
  · exact hvalid hinvalid
  · exact htaken ((refusedEverywhere_iff hc hinvalid).mpr hcovered)

theorem startProxy_eq_ok (h : startProxy w t = .ok c) : Config.deserialize t = some c := by
  unfold startProxy at h
  cases hd : Config.deserialize t with
  | none =>
      rw [hd] at h
      cases h
  | some c' =>
      rw [hd] at h
      obtain ⟨mode, -, rfl⟩ := map_eq_ok.mp h
      rfl

theorem switchMode_eq_ok {c' : Config} (h : switchMode w c = .ok c') : c' = c := by
  obtain ⟨mode, -, hrest⟩ := bind_eq_ok.mp h
  split_ifs at hrest
  · obtain ⟨u, -, hpure⟩ := bind_eq_ok.mp hrest
    cases hpure
    rfl
  · cases hrest
    rfl

theorem applyProfile_eq_ok {t' : Object} (h : applyProfile w t = .ok t') : t' = t := by
  unfold applyProfile at h
  split at h
  · cases h
  · obtain ⟨u, -, rfl⟩ := map_eq_ok.mp h
    rfl

theorem runWith_sound {result : Except String Config} (hs : Sound w s)
    (hvalid : ∀ c, result = .ok c → ¬Refuses (c.validate w.crates)) :
    Sound w (s.runWith result) := by
  cases result with
  | error e => exact hs
  | ok c =>
      refine ⟨?_, hs.configJson⟩
      intro c' hc'
      cases hc'
      exact hvalid c rfl

theorem write_sound {result : Except String Object} (hs : Sound w s)
    (hvalid : ∀ t, result = .ok t → IsValid w t) : Sound w (s.write result) := by
  cases result with
  | error e => exact hs
  | ok t => exact ⟨hs.running, hvalid t rfl⟩

theorem step_sound (hs : Sound w s) (hcall : OffersHarmless w s call)
    (hstep : step w s call = some s') : Sound w s' := by
  cases call with
  | startProxyDesktop =>
      cases hstep
      refine runWith_sound hs ?_
      intro c hc
      obtain ⟨c', hload, hrest⟩ := bind_eq_ok.mp hc
      obtain ⟨mode, -, hpure⟩ := bind_eq_ok.mp hrest
      cases hpure
      exact (load_eq_ok_iff.mp hload).2
  | startProxy t =>
      cases hstep
      refine runWith_sound hs ?_
      intro c hc
      exact hcall.valid (startProxy_eq_ok hc) fun hall => not_refuses_of_eq_ok hc hall.startProxy
  | switchMode t =>
      simp only [step] at hstep
      split_ifs at hstep
      obtain ⟨c, hd, rfl⟩ := Option.map_eq_some_iff.mp hstep
      refine runWith_sound hs ?_
      intro c' hc'
      rw [switchMode_eq_ok hc']
      exact hcall.valid hd fun hall => not_refuses_of_eq_ok hc' hall.switchMode
  | applyProfileWithPaths t =>
      cases hstep
      refine write_sound hs ?_
      intro t' ht'
      obtain ⟨c, hload, hpure⟩ := bind_eq_ok.mp ht'
      cases hpure
      intro c' hc'
      obtain ⟨hd, hvalid⟩ := load_eq_ok_iff.mp hload
      cases hd.symm.trans hc'
      exact hvalid
  | applyProfile t =>
      cases hstep
      refine write_sound hs ?_
      intro t' ht' c hc
      rw [applyProfile_eq_ok ht'] at hc
      exact hcall.valid hc fun hall => not_refuses_of_eq_ok ht' hall.applyProfile

/-- In a run in which every text that is offered is harmless, an invalid configuration neither runs
nor gets to `config.json`. -/
theorem run_sound (hs : Sound w s) {calls : List Call}
    (h : StepRun.AllSteps (step w) (OffersHarmless w) s calls) :
    StepRun.AllStates (step w) (Sound w) s calls :=
  StepRun.allStates_of_allSteps (fun _ _ _ => step_sound) (fun _ h => h) hs h

/-! ### A valid configuration runs, an invalid one is offered -/

/-- The Drive setup with an address. -/
def withGoogleIp : Object :=
  ("google_ip", .str "216.239.38.120".toList) :: withoutGoogleIp.filter fun e => e.1 ≠ "google_ip"

def unknownMode : Object := [("mode", .str "vpn".toList)]

/-- A profile is applied and started; one of an unknown mode is refused as a profile and as a
switch. -/
def applyAndRun : List Call :=
  [.applyProfileWithPaths withGoogleIp, .startProxyDesktop, .applyProfile unknownMode,
    .switchMode unknownMode]

theorem run_sound_applyAndRun :
    (∃ c, Config.deserialize withGoogleIp = some c ∧
      StepRun.run (step sampleWorld) ⟨none, []⟩ applyAndRun = some ⟨some c, withGoogleIp⟩) ∧
    (∃ c, Config.deserialize unknownMode = some c ∧ Refuses (c.validate sampleWorld.crates)) ∧
    StepRun.AllStates (step sampleWorld) (Sound sampleWorld) ⟨none, []⟩ applyAndRun := by
  have hunknown : Harmless sampleWorld unknownMode := by
    intro c hc
    cases hc
    exact .inr trivial
  have hempty : Sound sampleWorld ⟨none, []⟩ :=
    ⟨fun c hc => absurd hc.symm (Option.some_ne_none c), fun c hc =>
      absurd (hc.symm.trans rfl) (Option.some_ne_none c)⟩
  refine ⟨⟨_, rfl, rfl⟩, ⟨_, rfl, _, rfl⟩, run_sound hempty ?_⟩
  exact fun _ _ => ⟨trivial, fun _ _ => ⟨trivial, fun _ _ => ⟨hunknown, fun _ _ =>
    ⟨hunknown, trivial⟩⟩⟩⟩

end Installed

end Rahgozar.Settings
