import Rahgozar.Drive.RelayPubkeyAgreement
import Rahgozar.Settings.EntryPoints
import Rahgozar.Settings.Saved
import Rahgozar.Settings.WhiteSpace

set_option autoImplicit false

/-! # Loading and saving on Android

Rust accepts what Android has saved of a configuration that Rust accepts, and the two agree in what
the runtime reads, but for Android's own defaults.
-/

namespace Rahgozar.Settings

open Json
open Drive (trim)
open Proxy (Mode trimEndDots)
open Refusal
open Rahgozar.Config (trimKotlin)

variable {org : OrgJson} {crates : Crates} {o : Object} {c : Config} {mode : Mode}

/-- What is documented of the other crates. -/
structure Crates.Documented (crates : Crates) : Prop where
  /-- a server name has no white space -/
  serverName : ∀ name, ¬Refuses (crates.serverName name) → ∀ ch ∈ name, isSpace ch = false
  /-- `from_bech32m` trims first -/
  fromBech32m_trim : ∀ key, crates.fromBech32m (trim key) = crates.fromBech32m key
  /-- a key has no white space -/
  fromBech32m : ∀ key, ¬Refuses (crates.fromBech32m key) → ∀ ch ∈ trim key, isSpace ch = false
  isIpAddr : crates.isIpAddr "142.251.36.68".toList = true

/-- The crates with the engine's `from_bech32m`; `text` is the `Display` of its errors. -/
def Crates.withEngine (crates : Crates) (P : Drive.Primitives) (bech32 : Drive.Bech32Crate)
    (text : Drive.PubkeyParseError → String) : Crates :=
  { crates with
    fromBech32m := fun key =>
      match Drive.RelayPubkey.fromBech32m P bech32 key with
      | .ok _ => .ok ()
      | .error e => .error (text e) }

theorem isSpace_of_printable {ch : Char} (h : 33 ≤ ch.toNat ∧ ch.toNat ≤ 126) :
    isSpace ch = false := by
  rw [← Bool.not_eq_true]
  intro hspace
  have := toNat_of_isSpace hspace
  omega

/-- What is asked of `from_bech32m` holds of the engine's. -/
theorem documented_withEngine {P : Drive.Primitives} {bech32 : Drive.Bech32Crate}
    (hbech32 : bech32.Documented) (hP : P.IsX25519) (text : Drive.PubkeyParseError → String)
    (hserver : ∀ name, ¬Refuses (crates.serverName name) → ∀ ch ∈ name, isSpace ch = false)
    (hip : crates.isIpAddr "142.251.36.68".toList = true) :
    (crates.withEngine P bech32 text).Documented where
  serverName := hserver
  fromBech32m_trim := by
    intro key
    have htrim : Config.trimRust (trim key) = Config.trimRust key := Trim.trim_idem key
    have hengine : Drive.RelayPubkey.fromBech32m P bech32 (trim key) =
        Drive.RelayPubkey.fromBech32m P bech32 key := by
      unfold Drive.RelayPubkey.fromBech32m
      rw [htrim]
    simp only [Crates.withEngine, hengine]
  fromBech32m := by
    intro key h ch hch
    cases hengine : Drive.RelayPubkey.fromBech32m P bech32 key with
    | error e =>
        refine absurd ?_ h
        simp [Crates.withEngine, hengine, Refuses]
    | ok found =>
        obtain ⟨values, hcarries, -, -⟩ :=
          (Drive.fromBech32m_eq_ok_iff hbech32 hP key found).mp hengine
        exact isSpace_of_printable (hcarries.spells.printable ch hch)
  isIpAddr := hip

/-- The texts of a group that Rust asks for are not lost to the two trims. -/
structure FrontingGroup.Outlasts (g : FrontingGroup) : Prop where
  name : Settings.Outlasts g.name
  ip : g.forceIp = false → Settings.Outlasts g.ip
  domains : ∀ d ∈ g.domains, trimKotlin d ≠ [] → Settings.Outlasts d
  some_domain : ∃ d ∈ g.domains, trimKotlin d ≠ []

/-- The texts of the Drive part that Rust asks for are not lost to the two trims. -/
structure DriveConfig.Outlasts (d : DriveConfig) : Prop where
  oauthClientId : Settings.Outlasts d.oauthClientId
  oauthClientSecret : Settings.Outlasts d.oauthClientSecret
  oauthRefreshToken : Settings.Outlasts d.oauthRefreshToken
  folderId : Settings.Outlasts d.folderId

namespace Config

/-- The IDs that Rust resolves from what is saved. -/
def savedIds (c : Config) : List Text := (c.savedEntries.filter (·.enabled)).map (·.id)

/-- What Android's defaults and trims leave valid. -/
structure StaysValid (o : Object) (c : Config) : Prop where
  /-- of the enabled IDs something is left, and not the placeholder -/
  ids : ∀ mode, Mode.fromStr (display c.mode) = some mode → mode.usesAppsScriptRelay = true →
    c.savedIds ≠ [] ∧ "YOUR_APPS_SCRIPT_DEPLOYMENT_ID".toList ∉ c.savedIds
  /-- the ports do not collide through a default -/
  ports : c.savedSocks5Port ≠ some (c.savedListenPort o)
  groups : ∀ g ∈ c.frontingGroups, g.Outlasts
  drive : Mode.fromStr (display c.mode) = some .drive → c.drive.Outlasts

/-- `resolve_coalesce` -/
def resolveCoalesce (c : Config) : Nat × Nat :=
  (if 0 < c.coalesceStepMs then c.coalesceStepMs else 10,
    if 0 < c.coalesceMaxMs then c.coalesceMaxMs else 1000)

end Config

/-! ## What stays valid -/

theorem readMode_eq {text : Text} (h : Mode.fromStr (display text) = some mode) :
    readMode text = mode := by
  rw [← shapeMode_eq] at h
  unfold shapeMode at h
  split_ifs at h with h1 h2 h3 h4 h5
  · cases h
    rw [h1]
    rfl
  · cases h
    rcases h2 with rfl | rfl <;> rfl
  · cases h
    rw [h3]
    rfl
  · cases h
    rw [h4]
    rfl
  · cases h
    rw [h5]
    rfl

theorem fromStr_modeText (mode : Mode) : Mode.fromStr (display (modeText mode)) = some mode := by
  cases mode <;> rfl

theorem scriptIdEntries_saved : (c.saved org o).scriptIdEntries = c.savedEntries := by
  unfold Config.scriptIdEntries Config.saved Config.savedEntries
  by_cases hempty : c.reducedEntries.isEmpty = true
  · simp [List.isEmpty_iff.mp hempty]
  · simp only [hempty]
    simp

theorem scriptIdsResolved_saved : (c.saved org o).scriptIdsResolved = c.savedIds := by
  rw [Config.scriptIdsResolved, scriptIdEntries_saved]
  rfl

theorem ne_nil_of_mem_savedIds {id : Text} (h : id ∈ c.savedIds) : id ≠ [] := by
  obtain ⟨e, he, rfl⟩ := List.mem_map.mp h
  have hreduced : e ∈ c.reducedEntries :=
    Distinct.mem_of_mem_firstOfEach (List.mem_of_mem_filter he)
  simpa using (List.mem_filter.mp hreduced).2

theorem refuses_validateAppsScript_saved (h : ¬Refuses c.validateAppsScript)
    (hids : c.savedIds ≠ [] ∧ "YOUR_APPS_SCRIPT_DEPLOYMENT_ID".toList ∉ c.savedIds) :
    ¬Refuses (c.saved org o).validateAppsScript := by
  rw [refuses_validateAppsScript] at h ⊢
  rw [scriptIdsResolved_saved]
  rintro (hauth | hnone | ⟨id, hid, hnil | hplaceholder⟩)
  · exact h (.inl hauth)
  · exact hids.1 hnone
  · exact ne_nil_of_mem_savedIds hid hnil
  · exact hids.2 (hplaceholder ▸ hid)

theorem refuses_validateDrive_saved (hdoc : crates.Documented)
    (h : ¬Refuses (c.validateDrive crates))
    (htexts : c.drive.Outlasts) :
    ¬Refuses ((c.saved org o).validateDrive crates) := by
  rw [refuses_validateDrive] at h ⊢
  simp only [not_or] at h
  obtain ⟨-, -, -, -, hkey, hbech, hpoll, hmax, hip, haddr⟩ := h
  have hkey' : trim (trimKotlin c.drive.relayPubkey) = trim c.drive.relayPubkey :=
    trim_trimKotlin_of_noSpace (hdoc.fromBech32m _ hbech)
  have hdefault : trim "142.251.36.68".toList = "142.251.36.68".toList := by decide
  rintro (hid | hsecret | htoken | hfolder | hnil | hrefused | hzero | hzero | hnil | hno)
  · exact htexts.oauthClientId hid
  · exact htexts.oauthClientSecret hsecret
  · exact htexts.oauthRefreshToken htoken
  · exact htexts.folderId hfolder
  · exact hkey (hkey' ▸ hnil)
  · apply hbech
    rw [← hdoc.fromBech32m_trim, ← hkey', hdoc.fromBech32m_trim]
    exact hrefused
  · exact hpoll hzero
  · exact hmax hzero
  · simp only [Config.saved, given] at hnil
    split_ifs at hnil
    · exact hip hnil
    · rw [hdefault] at hnil
      exact absurd hnil (by decide)
  · simp only [Config.saved, given] at hno
    split_ifs at hno
    · exact haddr hno
    · rw [hdefault, hdoc.isIpAddr] at hno
      cases hno

section

variable {g : FrontingGroup}

/-- What a group that Rust accepts looks like to Android. -/
theorem isFull_trimmed (hdoc : crates.Documented) (h : ¬g.Refused crates) (htexts : g.Outlasts) :
    g.trimmed.IsFull where
  name := htexts.name.trimKotlin_ne_nil
  ip := fun hpinned => (htexts.ip hpinned).trimKotlin_ne_nil
  sni := by
    have hsni : trimKotlin g.sni = g.sni :=
      trimKotlin_of_noSpace
        (hdoc.serverName _ fun hrefused => h (.inr (.inr (.inr (.inl hrefused)))))
    intro hnil
    have hnil' : g.sni = [] := hsni.symm.trans hnil
    exact h (.inr (.inr (.inl (by rw [hnil']; rfl))))
  domains := by
    obtain ⟨d, hd, hne⟩ := htexts.some_domain
    refine List.ne_nil_of_mem (a := trimKotlin d) (List.mem_filter.mpr ⟨List.mem_map_of_mem hd, ?_⟩)
    simpa using hne

theorem trim_verifyName (hdoc : crates.Documented) {v : Text}
    (h : ¬Refuses (crates.serverName (trimEndDots (trim v)))) : trim (trimKotlin v) = trim v := by
  apply trim_trimKotlin_of_noSpace
  intro ch hch
  by_cases hdot : ch = '.'
  · rw [hdot]
    decide
  · exact hdoc.serverName _ h ch (mem_trimEndDots hdot hch)

theorem not_refused_saved (hdoc : crates.Documented) (h : ¬g.Refused crates)
    (htexts : g.Outlasts) : ¬g.saved.Refused crates := by
  have hfull := isFull_trimmed hdoc h htexts
  unfold FrontingGroup.Refused at h
  simp only [not_or, not_and, not_exists] at h
  obtain ⟨-, -, hsni, hname, -, -, hverify⟩ := h
  have hsniEq : trimKotlin g.sni = g.sni := trimKotlin_of_noSpace (hdoc.serverName _ hname)
  rintro (hnil | ⟨hpinned, hnil⟩ | hnil | hrefused | hnil | ⟨d, hd, hnil⟩ | ⟨v, hv, hbad⟩)
  · exact htexts.name hnil
  · exact htexts.ip hpinned hnil
  · have hnil' : trim (trimKotlin g.sni) = [] := hnil
    rw [hsniEq] at hnil'
    exact hsni hnil'
  · have hrefused' : Refuses (crates.serverName (trimKotlin g.sni)) := hrefused
    rw [hsniEq] at hrefused'
    exact hname hrefused'
  · exact eraseDups_ne_nil hfull.domains hnil
  · have hd' : d ∈ trimmedTexts g.domains := List.mem_eraseDups.mp hd
    obtain ⟨hmem, hne⟩ := List.mem_filter.mp hd'
    obtain ⟨raw, hraw, rfl⟩ := List.mem_map.mp hmem
    exact htexts.domains raw hraw (by simpa using hne) hnil
  · obtain ⟨raw, hraw, rfl⟩ := List.mem_map.mp (List.mem_of_mem_filter hv)
    have hgood := hverify raw hraw
    rw [trim_verifyName hdoc hgood.2] at hbad
    rcases hbad with hnil | hrefused
    · exact hgood.1 hnil
    · exact hgood.2 hrefused

end

theorem fullGroups (hdoc : crates.Documented) (hgroups : ∀ g ∈ c.frontingGroups, ¬g.Refused crates)
    (hstays : c.StaysValid o) : ∀ g ∈ c.frontingGroups, g.trimmed.IsFull :=
  fun g hg => isFull_trimmed hdoc (hgroups g hg) (hstays.groups g hg)

/-- **What is valid stays valid.** -/
theorem not_refuses_validate_saved (hdoc : crates.Documented) (hstays : c.StaysValid o)
    (hmode : Mode.fromStr (display c.mode) = some mode) (h : ¬Refuses (c.validate crates)) :
    ¬Refuses ((c.saved org o).validate crates) := by
  have hmode' : Mode.fromStr (display (c.saved org o).mode) = some mode := by
    show Mode.fromStr (display (modeText (readMode c.mode))) = some mode
    rw [readMode_eq hmode]
    exact fromStr_modeText mode
  rw [refuses_validate hmode] at h
  rw [refuses_validate hmode']
  simp only [not_or, not_and, not_exists] at h
  obtain ⟨hrelay, hdrive, hscan, -, hgroups, hpatterns, hdirect⟩ := h
  rintro (⟨huses, hrefused⟩ | ⟨hisDrive, hrefused⟩ | hzero | hports | ⟨g', hg', hrefused⟩ |
    ⟨p', hp', hrefused⟩ | hrefused)
  · exact refuses_validateAppsScript_saved (hrelay huses) (hstays.ids mode hmode huses) hrefused
  · have htexts := hstays.drive (hisDrive ▸ hmode)
    exact refuses_validateDrive_saved hdoc (hdrive hisDrive) htexts hrefused
  · exact hscan hzero
  · exact hstays.ports hports
  · obtain ⟨g, hg, rfl⟩ := List.mem_map.mp hg'
    exact not_refused_saved hdoc (hgroups g hg) (hstays.groups g hg) hrefused
  · have hkept : p' ∈ (c.relayUrlPatterns.map trimKotlin).filter fun t => !t.isEmpty :=
      List.mem_eraseDups.mp hp'
    obtain ⟨p, hp, rfl⟩ := List.mem_map.mp (List.mem_of_mem_filter hkept)
    exact not_refuses_pattern_trimKotlin (hpatterns p hp) hrefused
  · exact hdirect hrefused

/-! ## What the runtime reads -/

/-- The two configurations agree in every field, but for Android's defaults where a key is missing,
for texts up to trimming and for lists up to what is blank or repeated. -/
structure SameRuntime (o : Object) (c c' : Config) : Prop where
  /-- all fields but the ones below -/
  others : { c' with
    mode := c.mode, googleIp := c.googleIp, scriptId := c.scriptId, scriptIds := c.scriptIds,
    listenPort := c.listenPort, socks5Port := c.socks5Port, logLevel := c.logLevel,
    upstreamSocks5 := c.upstreamSocks5, parallelRelay := c.parallelRelay,
    coalesceStepMs := c.coalesceStepMs, coalesceMaxMs := c.coalesceMaxMs, sniHosts := c.sniHosts,
    fetchIpsFromApi := c.fetchIpsFromApi, maxIpsToScan := c.maxIpsToScan,
    relayUrlPatterns := c.relayUrlPatterns, passthroughHosts := c.passthroughHosts,
    bypassDohHosts := c.bypassDohHosts, frontingGroups := c.frontingGroups, drive := c.drive,
    extras := c.extras } = c
  modeKind : c'.modeKind = c.modeKind
  scriptIdEntries : c'.scriptIdEntries = c.savedEntries
  googleIp : c'.googleIp = given o "google_ip" c.googleIp "142.251.36.68".toList
  listenPort : c'.listenPort = given o "listen_port" c.listenPort 8080
  socks5Port : c'.socks5Port = c.savedSocks5Port
  logLevel : c'.logLevel = given o "log_level" c.logLevel "info".toList
  parallelRelay : c'.parallelRelay = given o "parallel_relay" c.parallelRelay 1
  coalesce : c'.resolveCoalesce = c.resolveCoalesce
  upstreamSocks5 : c'.upstreamSocks5 = Config.savedText c.upstreamSocks5
  sniHosts : c'.sniHosts.getD [] = nonBlank (c.sniHosts.getD [])
  passthroughHosts : c'.passthroughHosts = nonBlank c.passthroughHosts
  bypassDohHosts : c'.bypassDohHosts = cleanTexts c.bypassDohHosts
  relayUrlPatterns : c'.relayUrlPatterns = cleanTexts c.relayUrlPatterns
  frontingGroups : c'.frontingGroups = c.frontingGroups.map (·.saved)
  drive : c'.drive = c.drive.saved
  extras : c'.extras.filter (fun e => e.1 ∉ androidKeys) =
    c.extras.filter fun e => e.1 ∉ androidKeys

theorem resolveCoalesce_saved : (c.saved org o).resolveCoalesce = c.resolveCoalesce := by
  unfold Config.resolveCoalesce Config.saved
  by_cases hstep : c.coalesceStepMs = 10 <;> by_cases hmax : c.coalesceMaxMs = 1000 <;>
    simp [hstep, hmax]

theorem extras_saved (h : c.ReadFrom o) :
    (c.saved org o).extras.filter (fun e => e.1 ∉ androidKeys) =
      c.extras.filter fun e => e.1 ∉ androidKeys := by
  have hown : (Config.androidEntries org o).filter (fun e => e.1 ∉ androidKeys) = [] :=
    Assoc.filter_present (fun k => decide (k ∉ androidKeys)) _
  have hkeys : ∀ k ∈ modelledKeys, k ∈ configKeys ∨ k ∈ androidKeys := by decide
  show (Config.androidEntries org o ++ c.extras.filter fun e => e.1 ∉ modelledKeys).filter _ = _
  rw [List.filter_append, hown, List.nil_append, List.filter_filter]
  apply List.filter_congr
  intro e he
  rw [h.extras] at he
  have hconfig : e.1 ∉ configKeys := by simpa using (List.mem_filter.mp he).2
  by_cases handroid : e.1 ∈ androidKeys
  · simp [handroid]
  · have hmodelled : e.1 ∉ modelledKeys :=
      fun hmem => (hkeys e.1 hmem).elim hconfig handroid
    simp [handroid, hmodelled]

theorem sniHosts_saved : (c.saved org o).sniHosts.getD [] = nonBlank (c.sniHosts.getD []) := by
  unfold Config.saved
  by_cases hempty : (nonBlank (c.sniHosts.getD [])).isEmpty = true
  · simp [List.isEmpty_iff.mp hempty]
  · simp [hempty]

theorem sameRuntime_saved (h : c.ReadFrom o)
    (hmode : Mode.fromStr (display c.mode) = some mode) : SameRuntime o c (c.saved org o) where
  others := rfl
  modeKind := by
    have hmode' : Mode.fromStr (display (c.saved org o).mode) = some mode := by
      show Mode.fromStr (display (modeText (readMode c.mode))) = some mode
      rw [readMode_eq hmode]
      exact fromStr_modeText mode
    unfold Config.modeKind
    rw [hmode, hmode']
  scriptIdEntries := scriptIdEntries_saved
  googleIp := rfl
  listenPort := rfl
  socks5Port := rfl
  logLevel := rfl
  parallelRelay := rfl
  coalesce := resolveCoalesce_saved
  upstreamSocks5 := rfl
  sniHosts := sniHosts_saved
  passthroughHosts := rfl
  bypassDohHosts := rfl
  relayUrlPatterns := rfl
  frontingGroups := rfl
  drive := rfl
  extras := extras_saved h

/-- **Loading and saving on Android.** Of an object that Rust accepts, that Android reads alike and
that stays valid under Android's defaults, the save is accepted and the runtime reads the same. -/
theorem load_save (org : OrgJson) (crates : Crates) (o : Object) (c : Config)
    (hdoc : crates.Documented) (hload : Config.load crates o = .ok c) (halike : c.ReadsAlike org o)
    (hstays : c.StaysValid o) :
    ∃ c', Config.load crates ((loadFromJson org o).toJson org) = .ok c' ∧ SameRuntime o c c' := by
  obtain ⟨hread, hvalid⟩ := load_eq_ok_iff.mp hload
  have hfrom := Config.deserialize_iff.mp hread
  obtain ⟨mode, hmode⟩ := exists_mode_of_not_refuses hvalid
  have hgroups : ∀ g ∈ c.frontingGroups, ¬g.Refused crates := by
    intro g hg hrefused
    exact hvalid ((refuses_validate hmode).mpr
      (.inr (.inr (.inr (.inr (.inl ⟨g, hg, hrefused⟩))))))
  refine ⟨c.saved org o, load_eq_ok_iff.mpr ⟨?_, ?_⟩, sameRuntime_saved hfrom hmode⟩
  · exact Config.deserialize_iff.mpr (readFrom_save hfrom halike (fullGroups hdoc hgroups hstays))
  · exact not_refuses_validate_saved hdoc hstays hmode hvalid

/-! ### What Android does not read alike -/

/-- A `null` reads as a text. -/
example : (loadFromJson ⟨fun _ => [], fun _ => none, fun _ => none, id⟩
    [("mode", .str "direct".toList), ("script_ids", .null)]).appsScriptUrls =
      [⟨deploymentUrl "null".toList, true⟩] := rfl

/-- Nothing is left of a URL that stands in place of an ID. -/
example : extractId (deploymentUrl (deploymentUrl "AKfycbx".toList)) = "https:".toList := rfl

/-! ### A relay with a disabled deployment -/

/-- Crates that take every name without white space, two addresses and one key. -/
def spacelessCrates : Crates where
  serverName := fun name =>
    rejectIf (name.isEmpty || name.any isSpace) "invalid dns name"
  isIpAddr := fun text => text = "142.251.36.68".toList ∨ text = "216.239.38.120".toList
  fromBech32m := fun key => rejectIf (trim key ≠ sampleKey) "bad encoding"
  debug := fun text => "\"" ++ display text ++ "\""

theorem not_isSpace_sampleKey {ch : Char} (h : ch ∈ sampleKey) : isSpace ch = false := by
  have hall : sampleKey.all (fun ch => !isSpace ch) = true := rfl
  simpa using List.all_eq_true.mp hall ch h

theorem documented_spacelessCrates : spacelessCrates.Documented where
  serverName := by
    intro name h ch hch
    rw [spacelessCrates, refuses_rejectIf, Bool.or_eq_true, not_or] at h
    rw [← Bool.not_eq_true]
    intro hspace
    exact h.2 (List.any_eq_true.mpr ⟨ch, hch, hspace⟩)
  fromBech32m_trim := by
    intro key
    have htrim : trim (trim key) = trim key := Trim.trim_idem key
    show rejectIf (trim (trim key) ≠ sampleKey) _ = rejectIf (trim key ≠ sampleKey) _
    rw [htrim]
  fromBech32m := by
    intro key h ch hch
    have hkey : trim key = sampleKey := by
      by_contra hne
      exact h (refuses_rejectIf.mpr (decide_eq_true hne))
    exact not_isSpace_sampleKey (hkey ▸ hch)
  isIpAddr := rfl

theorem noArrays_of_items {key : String} {items : List Json} (h : o.lookup key = some (.arr items))
    (hitems : ∀ v ∈ items, ∀ xs, v ≠ .arr xs) : NoArrays o key := by
  intro items' hitems'
  rw [h] at hitems'
  cases hitems'
  exact hitems

def relayWithDisabled : Object :=
  [ ("mode", .str "full".toList),
    ("script_id", .arr [.str "AKfycbw/exec".toList,
      .obj [("id", .str "AKfycbx".toList), ("enabled", .bool false)]]),
    ("auth_key", .str "k3y".toList),
    ("socks5_port", .null),
    ("passthrough_hosts", .arr [.str "example.com".toList, .str " ".toList]),
    ("fronting_groups", .arr [.obj [("name", .str " edge".toList), ("ip", .str "1.2.3.4".toList),
      ("sni", .str "example.org".toList), ("domains", .arr [.str "example.net".toList])]]),
    ("request_timeout_secs", .int 60) ]

theorem load_save_relayWithDisabled : ∃ c,
    Config.load spacelessCrates relayWithDisabled = .ok c ∧
      ∃ c', Config.load spacelessCrates
          ((loadFromJson sampleWorld.org relayWithDisabled).toJson sampleWorld.org) = .ok c' ∧
        SameRuntime relayWithDisabled c c' := by
  have hids : relayWithDisabled.lookup "script_ids" = none := rfl
  have hupstream : relayWithDisabled.lookup "upstream_socks5" = none := rfl
  have hdrive : relayWithDisabled.lookup "drive" = none := rfl
  refine ⟨_, rfl, load_save sampleWorld.org spacelessCrates relayWithDisabled _
    documented_spacelessCrates rfl ?_ ?_⟩
  · exact {
      deployments := {
        scriptId := by
          intro h
          cases h
        scriptIds := by
          rw [hids]
          intro h
          cases h
        ids := by decide }
      upstreamSocks5 := by
        rw [hupstream]
        intro h
        cases h
      groups := noArrays_of_items rfl (by simp)
      drive := by
        rw [hdrive]
        intro xs h
        cases h
      pollIntervalMs := by decide
      passes := by
        show FieldsArePlain _ [("request_timeout_secs", .int 60)]
        simp [FieldsArePlain, IsPlain] }
  · exact {
      ids := by
        intro mode _ _
        exact ⟨by decide, by decide⟩
      ports := by decide
      groups := by
        intro g hg
        rw [List.mem_singleton.mp hg]
        exact {
          name := by unfold Outlasts; decide
          ip := fun _ => by unfold Outlasts; decide
          domains := by unfold Outlasts; decide
          some_domain := ⟨_, List.mem_cons_self, by decide⟩ }
      drive := fun h => absurd h (by decide) }

/-- Android's own defaults: the ports of a configuration that names only the mode change. -/
theorem load_save_ports : ∃ c c',
    Config.load spacelessCrates [("mode", .str "direct".toList)] = .ok c ∧
      Config.load spacelessCrates ((loadFromJson sampleWorld.org
        [("mode", .str "direct".toList)]).toJson sampleWorld.org) = .ok c' ∧
      (c.listenPort, c.socks5Port) = (8085, none) ∧
      (c'.listenPort, c'.socks5Port) = (8080, some 1081) :=
  ⟨_, _, rfl, rfl, rfl, rfl⟩

end Rahgozar.Settings
