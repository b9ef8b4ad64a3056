import Rahgozar.Settings.Save

set_option autoImplicit false

/-! # The configuration after a save

The configuration that Rust parses from what Android has saved, for every object that Rust accepts
and Android reads alike.
-/

namespace Rahgozar.Settings

open Json
open Distinct (firstOfEach)
open Rahgozar.Config (trimKotlin isBlank)

variable {org : OrgJson} {o : Object} {c : Config} {key : String}

/-! ## The configuration after a save -/

/-- The value where the key is there, and Android's default where it is not. -/
def given {α : Type} (o : Object) (key : String) (value fallback : α) : α :=
  if (o.lookup key).isSome then value else fallback

/-- The texts that are not blank. -/
def nonBlank (texts : List Text) : List Text := texts.filter fun t => !isBlank t

/-- The keys of Android's own settings. -/
def androidKeys : List String := ["connection_mode", "split_mode", "split_apps", "ui_lang"]

namespace Config

def savedListenPort (o : Object) (c : Config) : Nat := given o "listen_port" c.listenPort 8080

def savedSocks5Port (c : Config) : Option Nat :=
  match c.socks5Port with
  | none => some 1081
  | some n => if n = 0 then none else some n

/-- A text that is optional: trimmed, and absent if nothing is left. -/
def savedText (text : Option Text) : Option Text :=
  if (trimKotlin (text.getD [])).isEmpty then none else some (trimKotlin (text.getD []))

/-- The entries that Rust reads from what is saved. -/
def savedEntries (c : Config) : List ScriptIdEntry := firstOfEach (·.id) c.reducedEntries

/-- Android's own settings, as they are saved. -/
def androidEntries (org : OrgJson) (o : Object) : Object :=
  let r := loadFromJson org o
  Assoc.present [
    ("connection_mode", some (.str r.connectionMode.text)),
    ("split_mode", some (.str r.splitMode.text)),
    ("split_apps", putTexts r.splitApps),
    ("ui_lang", some (.str r.uiLang.text))]

/-- What Rust parses from the saved object. -/
def saved (org : OrgJson) (o : Object) (c : Config) : Config :=
  { c with
    mode := modeText (readMode c.mode)
    googleIp := given o "google_ip" c.googleIp "142.251.36.68".toList
    scriptId := if c.reducedEntries.isEmpty then none else some c.reducedEntries
    scriptIds := none
    listenPort := c.savedListenPort o
    socks5Port := c.savedSocks5Port
    logLevel := given o "log_level" c.logLevel "info".toList
    upstreamSocks5 := savedText c.upstreamSocks5
    parallelRelay := given o "parallel_relay" c.parallelRelay 1
    coalesceStepMs := if c.coalesceStepMs = 10 then 0 else c.coalesceStepMs
    coalesceMaxMs := if c.coalesceMaxMs = 1000 then 0 else c.coalesceMaxMs
    sniHosts :=
      let texts := nonBlank (c.sniHosts.getD [])
      if texts.isEmpty then none else some texts
    fetchIpsFromApi := false
    maxIpsToScan := 20
    relayUrlPatterns := cleanTexts c.relayUrlPatterns
    passthroughHosts := nonBlank c.passthroughHosts
    bypassDohHosts := cleanTexts c.bypassDohHosts
    frontingGroups := c.frontingGroups.map (·.saved)
    drive := c.drive.saved
    extras := androidEntries org o ++ c.extras.filter fun e => e.1 ∉ modelledKeys }

/-- What Android reads as Rust does. -/
structure ReadsAlike (org : OrgJson) (o : Object) (c : Config) : Prop where
  deployments : c.ReadsDeployments o
  upstreamSocks5 : o.lookup "upstream_socks5" ≠ some .null
  groups : NoArrays o "fronting_groups"
  drive : ∀ xs, o.lookup "drive" ≠ some (.arr xs)
  pollIntervalMs : c.drive.pollIntervalMs < 2 ^ 31
  passes : PassesThrough org o

end Config

/-! ## Each field -/

theorem fieldOf_str {held text missing : Text} (h : held = text) :
    fieldOf (some (.str held)) asString missing = some text := congrArg some h

theorem fieldOf_bool {held b missing : Bool} (h : held = b) :
    fieldOf (some (.bool held)) asBool missing = some b := congrArg some h

theorem fieldOf_ifTrue {held b : Bool} (h : held = b) :
    fieldOf (putIfTrue held) asBool false = some b :=
  (fieldOf_putIfTrue held).trans (congrArg some h)

theorem fieldOf_texts {held texts : List Text} (h : held = texts) :
    fieldOf (putTexts held) (asVec asString) [] = some texts :=
  (fieldOf_putTexts held).trans (congrArg some h)

theorem cleanTexts_nonBlank (texts : List Text) :
    cleanTexts (nonBlank texts) = cleanTexts texts := by
  unfold cleanTexts nonBlank
  rw [List.filter_map, List.filter_map, List.filter_filter]
  congr 2
  apply List.filter_congr
  intro t _
  by_cases hblank : isBlank t = true
  · simp [trimKotlin_eq_nil_iff.mpr hblank]
  · simp [hblank]

theorem readTexts_eq {l : List Text} (h : field o key (asVec asString) [] = some l) :
    readTexts org o key = nonBlank l := by
  rw [readTexts, optTexts_of_field h]
  rfl

theorem cleanTexts_readTexts {l : List Text} (h : field o key (asVec asString) [] = some l) :
    cleanTexts (readTexts org o key) = cleanTexts l := by
  rw [readTexts_eq h, cleanTexts_nonBlank]

/-- A number with another default on Android. -/
theorem fieldOf_given {bits n missing fallback : Nat}
    (h : field o key (asUnsigned bits) missing = some n) (hbits : bits < 31)
    (hmissing : missing < 2 ^ bits) (hfallback : fallback < 2 ^ bits) :
    fieldOf (some (.int (optInt org o key fallback))) (asUnsigned bits) missing =
      some (given o key n fallback) := by
  have hn : n < 2 ^ bits := lt_of_field h hmissing
  have hlt : n < 2 ^ 31 := hn.trans (Nat.pow_lt_pow_right (by decide) hbits)
  rw [optInt_of_field h hlt]
  unfold given
  by_cases hkey : (o.lookup key).isSome
  · rw [if_pos hkey, if_pos hkey]
    exact asUnsigned_int hn
  · rw [if_neg hkey, if_neg hkey]
    exact asUnsigned_int hfallback

/-- A number that is left out where it is Android's default, which Rust reads as 0. -/
theorem fieldOf_coalesce {n : Nat} {fallback : Nat}
    (h : field o key (asUnsigned 16) 0 = some n) :
    fieldOf (if optInt org o key fallback = fallback then none
      else some (.int (optInt org o key fallback))) (asUnsigned 16) 0 =
      some (if n = fallback then 0 else n) := by
  have hn : n < 2 ^ 16 := lt_of_field h (by decide)
  rw [optInt_of_field h (hn.trans (by decide))]
  by_cases hkey : (o.lookup key).isSome
  · rw [if_pos hkey]
    by_cases hdefault : n = fallback
    · rw [if_pos (congrArg _ hdefault), if_pos hdefault]
      rfl
    · rw [if_neg fun hint => hdefault (Int.ofNat_inj.mp hint), if_neg hdefault, fieldOf_some,
        asUnsigned_int hn]
  · have hnone : o.lookup key = none := Option.not_isSome_iff_eq_none.mp hkey
    rw [field, hnone] at h
    rw [if_neg hkey, if_pos rfl, ← Option.some.inj h, ite_self]
    rfl

theorem fieldOf_socks5Port (h : c.ReadFrom o) :
    fieldOf ((some (optInt org o "socks5_port" 1081)).filter (0 < ·) |>.map .int)
      (asOption (asUnsigned 16)) none = some c.savedSocks5Port := by
  have hfield := h.socks5Port
  unfold field at hfield
  unfold Config.savedSocks5Port optInt
  cases hv : o.lookup "socks5_port" with
  | none =>
      rw [hv] at hfield
      rw [← Option.some.inj hfield]
      rfl
  | some v =>
      rw [hv] at hfield
      by_cases hnull : v = .null
      · subst hnull
        rw [← Option.some.inj hfield]
        rfl
      · obtain ⟨n, hn, hport⟩ :=
          Option.map_eq_some_iff.mp ((asOption_of_ne_null hnull).symm.trans hfield)
        obtain ⟨rfl, hlt⟩ := asUnsigned_eq_some.mp hn
        have hrange : -2 ^ 63 ≤ (n : Int) ∧ (n : Int) < 2 ^ 63 := by omega
        rw [← hport]
        simp only [if_pos hrange, intValue_of_lt (hlt.trans (by decide))]
        by_cases hzero : n = 0
        · rw [Option.filter_some_neg (by simp [hzero]), if_pos hzero]
          rfl
        · have hpos : (0 : Int) < n := by omega
          rw [Option.filter_some_pos (by simpa using hpos), if_neg hzero, Option.map_some,
            fieldOf_some, asOption_of_ne_null hnull, asUnsigned_int hlt]
          rfl

theorem optString_of_option {s : Option Text} (hnull : o.lookup key ≠ some .null)
    (h : field o key (asOption asString) none = some s) : optString org o key [] = s.getD [] := by
  unfold field at h
  unfold optString
  cases hv : o.lookup key with
  | none =>
      rw [hv] at h
      rw [← Option.some.inj h]
      rfl
  | some v =>
      rw [hv] at h hnull
      cases v with
      | null => exact absurd rfl hnull
      | str text =>
          rw [← Option.some.inj h]
          rfl
      | _ => cases h

theorem maxConcurrentUploads_lt (h : c.ReadFrom o) (halike : c.ReadsAlike org o) :
    c.drive.maxConcurrentUploads < 2 ^ 8 := by
  have hdrive := h.drive
  unfold field at hdrive
  cases hv : o.lookup "drive" with
  | none =>
      rw [hv] at hdrive
      rw [← Option.some.inj hdrive]
      decide
  | some v =>
      rw [hv] at hdrive
      cases v with
      | obj fields => exact lt_of_field (driveConfig_iff.mp hdrive).maxConcurrentUploads (by decide)
      | arr xs => exact absurd hv (halike.drive xs)
      | _ => cases hdrive

theorem holdsDrive (h : c.ReadFrom o) (halike : c.ReadsAlike org o) :
    (loadFromJson org o).HoldsDrive c.drive where
  folderId := driveText_eq (·.folderId) h.drive halike.drive rfl fun _ hd => hd.folderId
  relayPubkey := driveText_eq (·.relayPubkey) h.drive halike.drive rfl fun _ hd => hd.relayPubkey
  pollIntervalMs := driveInt_eq (·.pollIntervalMs) h.drive halike.drive rfl
    (fun _ hd => hd.pollIntervalMs) halike.pollIntervalMs
  maxConcurrentUploads := driveInt_eq (·.maxConcurrentUploads) h.drive halike.drive rfl
    (fun _ hd => hd.maxConcurrentUploads)
    ((maxConcurrentUploads_lt h halike).trans (by decide))
  oauthClientId := driveText_eq (·.oauthClientId) h.drive halike.drive rfl
    fun _ hd => hd.oauthClientId
  oauthClientSecret := driveText_eq (·.oauthClientSecret) h.drive halike.drive rfl
    fun _ hd => hd.oauthClientSecret
  oauthRefreshToken := driveText_eq (·.oauthRefreshToken) h.drive halike.drive rfl
    fun _ hd => hd.oauthRefreshToken

theorem required_mode (h : c.ReadFrom o) (hpass : PassesThrough org o) :
    required (save org o) "mode" asString = some (modeText (readMode c.mode)) := by
  have hputs : (loadFromJson org o).puts.lookup "mode" =
      some (some (.str (modeText (readMode (optString org o "mode" "apps_script".toList))))) := rfl
  rw [required, lookup_save_of_mem hpass (by decide), hputs, optString_of_required h.mode]
  rfl

theorem fieldOf_upstreamSocks5 (h : c.ReadFrom o) (halike : c.ReadsAlike org o) :
    fieldOf (putTrimmed (optString org o "upstream_socks5" [])) (asOption asString) none =
      some (Config.savedText c.upstreamSocks5) := by
  rw [optString_of_option halike.upstreamSocks5 h.upstreamSocks5]
  exact fieldOf_putTrimmed_option _

theorem fieldOf_sniHosts (h : c.ReadFrom o) :
    fieldOf (putTexts (readTexts org o "sni_hosts")) (asOption (asVec asString)) none =
      some (c.saved org o).sniHosts := by
  rw [readTexts, optTexts_of_option h.sniHosts]
  exact fieldOf_putTexts_option _

theorem fieldOf_frontingGroups (h : c.ReadFrom o) (halike : c.ReadsAlike org o)
    (hfull : ∀ g ∈ c.frontingGroups, g.trimmed.IsFull) :
    fieldOf (putFrontingGroups
        (((optJSONArray o "fronting_groups").getD []).filterMap (readFrontingGroup org)))
      (asVec frontingGroup) [] = some (c.frontingGroups.map (·.saved)) := by
  rw [readFrontingGroups_eq h.frontingGroups halike.groups hfull]
  exact fieldOf_putFrontingGroups hfull

theorem fieldOf_drive (h : c.ReadFrom o) (halike : c.ReadsAlike org o) :
    fieldOf (some (.obj (loadFromJson org o).driveObj)) driveConfig .default =
      some c.drive.saved :=
  driveConfig_driveObj (holdsDrive h halike) (halike.pollIntervalMs.trans (by decide))
    (maxConcurrentUploads_lt h halike)

/-- Android's own settings, and the keys that neither side has. -/
theorem extras_save (h : c.ReadFrom o) (hpass : PassesThrough org o) :
    (save org o).filter (fun e => e.1 ∉ configKeys) = (c.saved org o).extras := by
  have hfree : ∀ e ∈ o.filter (fun e => e.1 ∉ modelledKeys),
      (Assoc.present (loadFromJson org o).puts).lookup e.1 = none := by
    intro e he
    have hkey : e.1 ∉ modelledKeys := by simpa using (List.mem_filter.mp he).2
    rw [Assoc.lookup_present (nodup_keys_puts _), lookup_puts_of_notMem hkey]
    rfl
  have hputs := Assoc.filter_present (fun k => decide (k ∉ configKeys)) (loadFromJson org o).puts
  rw [save_eq hpass, Assoc.splice_of_free hfree, List.filter_append, hputs, List.filter_comm,
    ← h.extras]
  rfl

/-- A key that Android does not model stays as it is read. -/
theorem kept_field {α : Type} {decode : Json → Option α} {missing x : α}
    (hpass : PassesThrough org o) (hfield : field o key decode missing = some x)
    (hkey : key ∉ modelledKeys) : field (save org o) key decode missing = some x :=
  (field_save_of_notMem hpass hkey).trans hfield

/-- A key that Android puts is read as what it puts. -/
theorem put_field {α : Type} {decode : Json → Option α} {missing x : α} {v : Option Json}
    (hpass : PassesThrough org o) (hread : fieldOf v decode missing = some x)
    (hkey : key ∈ modelledKeys) (hputs : (loadFromJson org o).puts.lookup key = some v) :
    field (save org o) key decode missing = some x :=
  (field_save_of_mem hpass hkey hputs).trans hread

/-- **The save, parsed.** -/
theorem readFrom_save (h : c.ReadFrom o) (halike : c.ReadsAlike org o)
    (hfull : ∀ g ∈ c.frontingGroups, g.trimmed.IsFull) :
    (c.saved org o).ReadFrom (save org o) := by
  have hpass := halike.passes
  exact {
    mode := required_mode h hpass
    googleIp := put_field hpass (fieldOf_str (optString_of_field h.googleIp)) (by decide) rfl
    frontDomain := put_field hpass (fieldOf_str (optString_eq h.frontDomain)) (by decide) rfl
    scriptId :=
      put_field hpass (fieldOf_putScriptIds (filter_entries_readDeployments h halike.deployments))
      (by decide) rfl
    scriptIds := field_save_of_absent hpass (by decide) rfl
    authKey := put_field hpass (fieldOf_str (optString_eq h.authKey)) (by decide) rfl
    listenHost := put_field hpass (fieldOf_str (optString_eq h.listenHost)) (by decide) rfl
    listenPort := put_field hpass (fieldOf_given h.listenPort (by decide) (by decide) (by decide))
      (by decide) rfl
    socks5Port := put_field hpass (fieldOf_socks5Port h) (by decide) rfl
    logLevel := put_field hpass (fieldOf_str (optString_of_field h.logLevel)) (by decide) rfl
    logColorInfo := kept_field hpass h.logColorInfo (by decide)
    logColorWarn := kept_field hpass h.logColorWarn (by decide)
    logColorError := kept_field hpass h.logColorError (by decide)
    verifySsl := put_field hpass (fieldOf_bool (optBoolean_eq h.verifySsl)) (by decide) rfl
    hosts := kept_field hpass h.hosts (by decide)
    enableBatching := kept_field hpass h.enableBatching (by decide)
    upstreamSocks5 := put_field hpass (fieldOf_upstreamSocks5 h halike) (by decide) rfl
    parallelRelay :=
      put_field hpass (fieldOf_given h.parallelRelay (by decide) (by decide) (by decide))
      (by decide) rfl
    coalesceStepMs := put_field hpass (fieldOf_coalesce h.coalesceStepMs) (by decide) rfl
    coalesceMaxMs := put_field hpass (fieldOf_coalesce h.coalesceMaxMs) (by decide) rfl
    sniHosts := put_field hpass (fieldOf_sniHosts h) (by decide) rfl
    fetchIpsFromApi := put_field hpass (fieldOf_bool rfl) (by decide) rfl
    maxIpsToScan := put_field hpass rfl (by decide) rfl
    scanBatchSize := kept_field hpass h.scanBatchSize (by decide)
    googleIpValidation := kept_field hpass h.googleIpValidation (by decide)
    heartbeatEnabled := kept_field hpass h.heartbeatEnabled (by decide)
    heartbeatIntervalSecs := kept_field hpass h.heartbeatIntervalSecs (by decide)
    heartbeatFailureThreshold := kept_field hpass h.heartbeatFailureThreshold (by decide)
    allowBrotliZstd := kept_field hpass h.allowBrotliZstd (by decide)
    normalizeXGraphql := kept_field hpass h.normalizeXGraphql (by decide)
    youtubeViaRelay :=
      put_field hpass (fieldOf_ifTrue (optBoolean_eq h.youtubeViaRelay)) (by decide) rfl
    relayUrlPatterns :=
      put_field hpass (fieldOf_texts (cleanTexts_readTexts h.relayUrlPatterns)) (by decide) rfl
    sabrStrip := put_field hpass (fieldOf_ifTrue (optBoolean_eq h.sabrStrip)) (by decide) rfl
    passthroughHosts :=
      put_field hpass (fieldOf_texts (readTexts_eq h.passthroughHosts)) (by decide) rfl
    blockQuic := put_field hpass (fieldOf_bool (optBoolean_eq h.blockQuic)) (by decide) rfl
    blockStun := put_field hpass (fieldOf_bool (optBoolean_eq h.blockStun)) (by decide) rfl
    disablePadding := kept_field hpass h.disablePadding (by decide)
    forceHttp1 := put_field hpass (fieldOf_ifTrue (optBoolean_eq h.forceHttp1)) (by decide) rfl
    tunnelDoh := put_field hpass (fieldOf_bool (optBoolean_eq h.tunnelDoh)) (by decide) rfl
    bypassDohHosts :=
      put_field hpass (fieldOf_texts (cleanTexts_readTexts h.bypassDohHosts)) (by decide) rfl
    blockDoh := put_field hpass (fieldOf_bool (optBoolean_eq h.blockDoh)) (by decide) rfl
    frontingGroups := put_field hpass (fieldOf_frontingGroups h halike hfull) (by decide) rfl
    directMode := kept_field hpass h.directMode (by decide)
    autoBlacklistStrikes := kept_field hpass h.autoBlacklistStrikes (by decide)
    autoBlacklistWindowSecs := kept_field hpass h.autoBlacklistWindowSecs (by decide)
    autoBlacklistCooldownSecs := kept_field hpass h.autoBlacklistCooldownSecs (by decide)
    requestTimeoutSecs := kept_field hpass h.requestTimeoutSecs (by decide)
    appsScriptLang := kept_field hpass h.appsScriptLang (by decide)
    extras := (extras_save h hpass).symm
    exitNode := kept_field hpass h.exitNode (by decide)
    drive := put_field hpass (fieldOf_drive h halike) (by decide) rfl }

end Rahgozar.Settings
