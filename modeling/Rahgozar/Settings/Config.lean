import Rahgozar.Lib.Traverse
import Rahgozar.Proxy.Routing

set_option autoImplicit false

/-! # The configuration (`src/config.rs`)

`Config` is deserialized from a JSON object by serde: a field that is missing has its default, a
value of another type than the field's is an error, and a key that is no field goes to `extras`. A
struct inside the configuration may also be written as an array of its first fields. A JSON number
is an integer here, or a literal with a fraction or an exponent (or beyond 64 bits), which no field
takes. The keys of an object are distinct, as serde requires.
-/

namespace Rahgozar.Settings

abbrev Text := List Char

inductive Json where
  | null
  | bool (b : Bool)
  | int (n : Int)
  | real (literal : Text)
  | str (s : Text)
  | arr (items : List Json)
  | obj (fields : List (String × Json))

abbrev Object := List (String × Json)

/-! ## Deserialization of a field -/

namespace Json

def asBool : Json → Option Bool
  | bool b => some b
  | _ => none

def asString : Json → Option Text
  | str s => some s
  | _ => none

/-- `u8`, `u16`, `u32`, `u64` and `usize` (64 bits). -/
def asUnsigned (bits : Nat) : Json → Option Nat
  | int n => if 0 ≤ n ∧ n < 2 ^ bits then some n.toNat else none
  | _ => none

def asVec {α : Type} (item : Json → Option α) : Json → Option (List α)
  | arr items => items.mapM item
  | _ => none

/-- `Option<T>`: `null` is `None`. -/
def asOption {α : Type} (decode : Json → Option α) : Json → Option (Option α)
  | null => some none
  | v => (decode v).map some

/-- `HashMap<String, String>` -/
def asMap : Json → Option (List (String × Text))
  | obj fields => fields.mapM fun (key, v) => (asString v).map fun s => (key, s)
  | _ => none

/-- A derived struct with these fields: an object, or an array of the first of them. -/
def asStruct (keys : List String) : Json → Option Object
  | obj fields => some fields
  | arr items => if items.length ≤ keys.length then some (keys.zip items) else none
  | _ => none

end Json

/-- A field with a default. -/
def field {α : Type} (o : Object) (key : String) (decode : Json → Option α) (missing : α) :
    Option α :=
  match o.lookup key with
  | none => some missing
  | some v => decode v

/-- A field without a default. -/
def required {α : Type} (o : Object) (key : String) (decode : Json → Option α) : Option α :=
  (o.lookup key).bind decode

open Json

/-! ## The parts of the configuration -/

structure ScriptIdEntry where
  id : Text
  enabled : Bool
deriving DecidableEq

/-- `ScriptIdEntryWire` and `into_entry`; a struct in an untagged enum is read from objects only. -/
def scriptIdEntry : Json → Option ScriptIdEntry
  | .str id => some ⟨id, true⟩
  | .obj o => do some ⟨← required o "id" asString, ← field o "enabled" asBool true⟩
  | _ => none

/-- `ScriptId` and `into_entries` -/
def scriptId : Json → Option (List ScriptIdEntry)
  | .str id => some [⟨id, true⟩]
  | v => asVec scriptIdEntry v

structure ExitNodeConfig where
  enabled : Bool
  relayUrl : Text
  psk : Text
  mode : Text
  hosts : List Text
deriving DecidableEq

def ExitNodeConfig.default : ExitNodeConfig := ⟨false, [], [], [], []⟩

def exitNodeConfig (v : Json) : Option ExitNodeConfig := do
  let o ← asStruct ["enabled", "relay_url", "psk", "mode", "hosts"] v
  some {
    enabled := ← field o "enabled" asBool false
    relayUrl := ← field o "relay_url" asString []
    psk := ← field o "psk" asString []
    mode := ← field o "mode" asString "selective".toList
    hosts := ← field o "hosts" (asVec asString) [] }

structure DriveConfig where
  oauthClientId : Text
  oauthClientSecret : Text
  oauthRefreshToken : Text
  folderId : Text
  relayPubkey : Text
  pollIntervalMs : Nat
  maxConcurrentUploads : Nat
deriving DecidableEq

def DriveConfig.default : DriveConfig := ⟨[], [], [], [], [], 300, 8⟩

def driveConfig (v : Json) : Option DriveConfig := do
  let o ← asStruct ["oauth_client_id", "oauth_client_secret", "oauth_refresh_token", "folder_id",
    "relay_pubkey", "poll_interval_ms", "max_concurrent_uploads"] v
  some {
    oauthClientId := ← field o "oauth_client_id" asString []
    oauthClientSecret := ← field o "oauth_client_secret" asString []
    oauthRefreshToken := ← field o "oauth_refresh_token" asString []
    folderId := ← field o "folder_id" asString []
    relayPubkey := ← field o "relay_pubkey" asString []
    pollIntervalMs := ← field o "poll_interval_ms" (asUnsigned 32) 300
    maxConcurrentUploads := ← field o "max_concurrent_uploads" (asUnsigned 8) 8 }

structure DirectModeConfig where
  enabled : Bool
  fronts : List Text
  googleDomains : List Text
  sanctionedDomains : List Text
deriving DecidableEq

def DirectModeConfig.default : DirectModeConfig := ⟨true, [], [], []⟩

def directModeConfig (v : Json) : Option DirectModeConfig := do
  let o ← asStruct ["enabled", "fronts", "google_domains", "sanctioned_domains"] v
  some {
    enabled := ← field o "enabled" asBool true
    fronts := ← field o "fronts" (asVec asString) []
    googleDomains := ← field o "google_domains" (asVec asString) []
    sanctionedDomains := ← field o "sanctioned_domains" (asVec asString) [] }

structure FrontingGroup where
  name : Text
  ip : Text
  sni : Text
  domains : List Text
  forceIp : Bool
  verifyNames : List Text
deriving DecidableEq

def frontingGroup (v : Json) : Option FrontingGroup := do
  let o ← asStruct ["name", "ip", "sni", "domains", "force_ip", "verify_names"] v
  some {
    name := ← required o "name" asString
    ip := ← field o "ip" asString []
    sni := ← required o "sni" asString
    domains := ← required o "domains" (asVec asString)
    forceIp := ← field o "force_ip" asBool false
    verifyNames := ← field o "verify_names" (asVec asString) [] }

/-! ## The configuration -/

structure Config where
  mode : Text
  googleIp : Text
  frontDomain : Text
  scriptId : Option (List ScriptIdEntry)
  scriptIds : Option (List ScriptIdEntry)
  authKey : Text
  listenHost : Text
  listenPort : Nat
  socks5Port : Option Nat
  logLevel : Text
  logColorInfo : Text
  logColorWarn : Text
  logColorError : Text
  verifySsl : Bool
  hosts : List (String × Text)
  enableBatching : Bool
  upstreamSocks5 : Option Text
  parallelRelay : Nat
  coalesceStepMs : Nat
  coalesceMaxMs : Nat
  sniHosts : Option (List Text)
  fetchIpsFromApi : Bool
  maxIpsToScan : Nat
  scanBatchSize : Nat
  googleIpValidation : Bool
  heartbeatEnabled : Bool
  heartbeatIntervalSecs : Nat
  heartbeatFailureThreshold : Nat
  allowBrotliZstd : Bool
  normalizeXGraphql : Bool
  youtubeViaRelay : Bool
  relayUrlPatterns : List Text
  sabrStrip : Bool
  passthroughHosts : List Text
  blockQuic : Bool
  blockStun : Bool
  disablePadding : Bool
  forceHttp1 : Bool
  tunnelDoh : Bool
  bypassDohHosts : List Text
  blockDoh : Bool
  frontingGroups : List FrontingGroup
  directMode : DirectModeConfig
  autoBlacklistStrikes : Nat
  autoBlacklistWindowSecs : Nat
  autoBlacklistCooldownSecs : Nat
  requestTimeoutSecs : Nat
  appsScriptLang : Text
  extras : Object
  exitNode : ExitNodeConfig
  drive : DriveConfig

/-- The fields of `Config`, less `extras`. -/
def configKeys : List String :=
  ["mode", "google_ip", "front_domain", "script_id", "script_ids", "auth_key", "listen_host",
    "listen_port", "socks5_port", "log_level", "log_color_info", "log_color_warn",
    "log_color_error", "verify_ssl", "hosts", "enable_batching", "upstream_socks5",
    "parallel_relay", "coalesce_step_ms", "coalesce_max_ms", "sni_hosts", "fetch_ips_from_api",
    "max_ips_to_scan", "scan_batch_size", "google_ip_validation", "heartbeat_enabled",
    "heartbeat_interval_secs", "heartbeat_failure_threshold", "allow_brotli_zstd",
    "normalize_x_graphql", "youtube_via_relay", "relay_url_patterns", "sabr_strip",
    "passthrough_hosts", "block_quic", "block_stun", "disable_padding", "force_http1",
    "tunnel_doh", "bypass_doh_hosts", "block_doh", "fronting_groups", "direct_mode",
    "auto_blacklist_strikes", "auto_blacklist_window_secs", "auto_blacklist_cooldown_secs",
    "request_timeout_secs", "apps_script_lang", "exit_node", "drive"]

/-- `serde_json::from_str` (or `from_value`) for `Config`. -/
def Config.deserialize (o : Object) : Option Config := do
  some {
    mode := ← required o "mode" asString
    googleIp := ← field o "google_ip" asString "216.239.38.120".toList
    frontDomain := ← field o "front_domain" asString "www.google.com".toList
    scriptId := ← field o "script_id" (asOption Settings.scriptId) none
    scriptIds := ← field o "script_ids" (asOption Settings.scriptId) none
    authKey := ← field o "auth_key" asString []
    listenHost := ← field o "listen_host" asString "0.0.0.0".toList
    listenPort := ← field o "listen_port" (asUnsigned 16) 8085
    socks5Port := ← field o "socks5_port" (asOption (asUnsigned 16)) none
    logLevel := ← field o "log_level" asString "warn".toList
    logColorInfo := ← field o "log_color_info" asString "#5ab464".toList
    logColorWarn := ← field o "log_color_warn" asString "#e0a83a".toList
    logColorError := ← field o "log_color_error" asString "#dc6e6e".toList
    verifySsl := ← field o "verify_ssl" asBool true
    hosts := ← field o "hosts" asMap []
    enableBatching := ← field o "enable_batching" asBool false
    upstreamSocks5 := ← field o "upstream_socks5" (asOption asString) none
    parallelRelay := ← field o "parallel_relay" (asUnsigned 8) 0
    coalesceStepMs := ← field o "coalesce_step_ms" (asUnsigned 16) 0
    coalesceMaxMs := ← field o "coalesce_max_ms" (asUnsigned 16) 0
    sniHosts := ← field o "sni_hosts" (asOption (asVec asString)) none
    fetchIpsFromApi := ← field o "fetch_ips_from_api" asBool false
    maxIpsToScan := ← field o "max_ips_to_scan" (asUnsigned 64) 100
    scanBatchSize := ← field o "scan_batch_size" (asUnsigned 64) 500
    googleIpValidation := ← field o "google_ip_validation" asBool true
    heartbeatEnabled := ← field o "heartbeat_enabled" asBool true
    heartbeatIntervalSecs := ← field o "heartbeat_interval_secs" (asUnsigned 64) 30
    heartbeatFailureThreshold := ← field o "heartbeat_failure_threshold" (asUnsigned 32) 3
    allowBrotliZstd := ← field o "allow_brotli_zstd" asBool false
    normalizeXGraphql := ← field o "normalize_x_graphql" asBool false
    youtubeViaRelay := ← field o "youtube_via_relay" asBool false
    relayUrlPatterns := ← field o "relay_url_patterns" (asVec asString) []
    sabrStrip := ← field o "sabr_strip" asBool false
    passthroughHosts := ← field o "passthrough_hosts" (asVec asString) []
    blockQuic := ← field o "block_quic" asBool true
    blockStun := ← field o "block_stun" asBool false
    disablePadding := ← field o "disable_padding" asBool false
    forceHttp1 := ← field o "force_http1" asBool false
    tunnelDoh := ← field o "tunnel_doh" asBool true
    bypassDohHosts := ← field o "bypass_doh_hosts" (asVec asString) []
    blockDoh := ← field o "block_doh" asBool true
    frontingGroups := ← field o "fronting_groups" (asVec frontingGroup) []
    directMode := ← field o "direct_mode" directModeConfig .default
    autoBlacklistStrikes := ← field o "auto_blacklist_strikes" (asUnsigned 32) 3
    autoBlacklistWindowSecs := ← field o "auto_blacklist_window_secs" (asUnsigned 64) 30
    autoBlacklistCooldownSecs := ← field o "auto_blacklist_cooldown_secs" (asUnsigned 64) 120
    requestTimeoutSecs := ← field o "request_timeout_secs" (asUnsigned 64) 30
    appsScriptLang := ← field o "apps_script_lang" asString "en".toList
    extras := o.filter fun entry => entry.1 ∉ configKeys
    exitNode := ← field o "exit_node" exitNodeConfig .default
    drive := ← field o "drive" driveConfig .default }

/-! ## What is read from where -/

section

variable {v : Json} {s : Text} {b : Bool} {bits n : Nat}

theorem Json.asString_eq_some : asString v = some s ↔ v = .str s := by
  cases v <;> simp [asString]

theorem Json.asBool_eq_some : asBool v = some b ↔ v = .bool b := by
  cases v <;> simp [asBool]

theorem Json.asUnsigned_eq_some : asUnsigned bits v = some n ↔ v = .int n ∧ n < 2 ^ bits := by
  cases v with
  | int i =>
      simp only [asUnsigned, Option.ite_none_right_eq_some, Option.some.injEq, Json.int.injEq]
      constructor
      · rintro ⟨⟨h0, hlt⟩, rfl⟩
        have hi : (i.toNat : Int) = i := Int.toNat_of_nonneg h0
        exact ⟨hi.symm, by exact_mod_cast hi ▸ hlt⟩
      · rintro ⟨rfl, hlt⟩
        exact ⟨⟨Int.natCast_nonneg n, by exact_mod_cast hlt⟩, Int.toNat_natCast n⟩
  | _ => simp [asUnsigned]

theorem Json.asVec_eq_some {α : Type} {item : Json → Option α} {l : List α} :
    asVec item v = some l ↔ ∃ items, v = .arr items ∧ items.mapM item = some l := by
  cases v <;> simp [asVec]

theorem Json.asOption_of_ne_null {α : Type} {decode : Json → Option α} (h : v ≠ .null) :
    asOption decode v = (decode v).map some := by
  cases v with
  | null => exact absurd rfl h
  | _ => rfl

/-- A list of texts is read from the array of these texts. -/
theorem asTexts_eq_some {l : List Text} :
    asVec asString v = some l ↔ v = .arr (l.map .str) := by
  have hitems : ∀ items : List Json, items.mapM asString = some l ↔ items = l.map .str := by
    intro items
    simp only [Traverse.mapM_eq_some, asString_eq_some]
    rw [← List.forall₂_eq_eq_eq, List.forall₂_map_right_iff]
  simp only [asVec_eq_some, hitems, exists_eq_right]

end

/-- Each field of a fronting group, as it is read from the object. -/
structure FrontingGroup.ReadFrom (o : Object) (g : FrontingGroup) : Prop where
  name : required o "name" asString = some g.name
  ip : field o "ip" asString [] = some g.ip
  sni : required o "sni" asString = some g.sni
  domains : required o "domains" (asVec asString) = some g.domains
  forceIp : field o "force_ip" asBool false = some g.forceIp
  verifyNames : field o "verify_names" (asVec asString) [] = some g.verifyNames

theorem frontingGroup_iff {o : Object} {g : FrontingGroup} :
    frontingGroup (.obj o) = some g ↔ g.ReadFrom o := by
  have hstruct : ∀ keys, asStruct keys (.obj o) = some o := fun _ => rfl
  constructor
  · intro h
    unfold frontingGroup at h
    rw [hstruct, Option.bind_eq_bind, Option.bind_some] at h
    iterate 6 obtain ⟨_, _, h⟩ := Option.bind_eq_some_iff.mp h
    cases h
    constructor <;> assumption
  · intro h
    simp only [frontingGroup, hstruct, h.name, h.ip, h.sni, h.domains, h.forceIp, h.verifyNames,
      Option.bind_eq_bind, Option.bind_some]

/-- Each field of the Drive part, as it is read from the object. -/
structure DriveConfig.ReadFrom (o : Object) (d : DriveConfig) : Prop where
  oauthClientId : field o "oauth_client_id" asString [] = some d.oauthClientId
  oauthClientSecret : field o "oauth_client_secret" asString [] = some d.oauthClientSecret
  oauthRefreshToken : field o "oauth_refresh_token" asString [] = some d.oauthRefreshToken
  folderId : field o "folder_id" asString [] = some d.folderId
  relayPubkey : field o "relay_pubkey" asString [] = some d.relayPubkey
  pollIntervalMs : field o "poll_interval_ms" (asUnsigned 32) 300 = some d.pollIntervalMs
  maxConcurrentUploads :
    field o "max_concurrent_uploads" (asUnsigned 8) 8 = some d.maxConcurrentUploads

theorem driveConfig_iff {o : Object} {d : DriveConfig} :
    driveConfig (.obj o) = some d ↔ d.ReadFrom o := by
  have hstruct : ∀ keys, asStruct keys (.obj o) = some o := fun _ => rfl
  constructor
  · intro h
    unfold driveConfig at h
    rw [hstruct, Option.bind_eq_bind, Option.bind_some] at h
    iterate 7 obtain ⟨_, _, h⟩ := Option.bind_eq_some_iff.mp h
    cases h
    constructor <;> assumption
  · intro h
    simp only [driveConfig, hstruct, h.oauthClientId, h.oauthClientSecret, h.oauthRefreshToken,
      h.folderId, h.relayPubkey, h.pollIntervalMs, h.maxConcurrentUploads, Option.bind_eq_bind,
      Option.bind_some]

/-- An entry that is written as an object. -/
theorem scriptIdEntry_iff {o : Object} {e : ScriptIdEntry} :
    scriptIdEntry (.obj o) = some e ↔
      required o "id" asString = some e.id ∧ field o "enabled" asBool true = some e.enabled := by
  have hentry : scriptIdEntry (.obj o) =
      (required o "id" asString).bind fun id =>
        (field o "enabled" asBool true).map fun enabled => ⟨id, enabled⟩ := by
    cases hid : required o "id" asString with
    | none => simp [scriptIdEntry, hid]
    | some id =>
        cases hen : field o "enabled" asBool true <;> simp [scriptIdEntry, hid, hen]
  rw [hentry]
  simp only [Option.bind_eq_some_iff, Option.map_eq_some_iff]
  constructor
  · rintro ⟨id, hid, enabled, hen, rfl⟩
    exact ⟨hid, hen⟩
  · rintro ⟨hid, hen⟩
    exact ⟨_, hid, _, hen, rfl⟩

/-- Each field of the configuration, as it is read from the object. -/
structure Config.ReadFrom (o : Object) (c : Config) : Prop where
  mode : required o "mode" asString = some c.mode
  googleIp : field o "google_ip" asString "216.239.38.120".toList = some c.googleIp
  frontDomain : field o "front_domain" asString "www.google.com".toList = some c.frontDomain
  scriptId : field o "script_id" (asOption Settings.scriptId) none = some c.scriptId
  scriptIds : field o "script_ids" (asOption Settings.scriptId) none = some c.scriptIds
  authKey : field o "auth_key" asString [] = some c.authKey
  listenHost : field o "listen_host" asString "0.0.0.0".toList = some c.listenHost
  listenPort : field o "listen_port" (asUnsigned 16) 8085 = some c.listenPort
  socks5Port : field o "socks5_port" (asOption (asUnsigned 16)) none = some c.socks5Port
  logLevel : field o "log_level" asString "warn".toList = some c.logLevel
  logColorInfo : field o "log_color_info" asString "#5ab464".toList = some c.logColorInfo
  logColorWarn : field o "log_color_warn" asString "#e0a83a".toList = some c.logColorWarn
  logColorError : field o "log_color_error" asString "#dc6e6e".toList = some c.logColorError
  verifySsl : field o "verify_ssl" asBool true = some c.verifySsl
  hosts : field o "hosts" asMap [] = some c.hosts
  enableBatching : field o "enable_batching" asBool false = some c.enableBatching
  upstreamSocks5 : field o "upstream_socks5" (asOption asString) none = some c.upstreamSocks5
  parallelRelay : field o "parallel_relay" (asUnsigned 8) 0 = some c.parallelRelay
  coalesceStepMs : field o "coalesce_step_ms" (asUnsigned 16) 0 = some c.coalesceStepMs
  coalesceMaxMs : field o "coalesce_max_ms" (asUnsigned 16) 0 = some c.coalesceMaxMs
  sniHosts : field o "sni_hosts" (asOption (asVec asString)) none = some c.sniHosts
  fetchIpsFromApi : field o "fetch_ips_from_api" asBool false = some c.fetchIpsFromApi
  maxIpsToScan : field o "max_ips_to_scan" (asUnsigned 64) 100 = some c.maxIpsToScan
  scanBatchSize : field o "scan_batch_size" (asUnsigned 64) 500 = some c.scanBatchSize
  googleIpValidation : field o "google_ip_validation" asBool true = some c.googleIpValidation
  heartbeatEnabled : field o "heartbeat_enabled" asBool true = some c.heartbeatEnabled
  heartbeatIntervalSecs : field o "heartbeat_interval_secs" (asUnsigned 64) 30 =
    some c.heartbeatIntervalSecs
  heartbeatFailureThreshold : field o "heartbeat_failure_threshold" (asUnsigned 32) 3 =
    some c.heartbeatFailureThreshold
  allowBrotliZstd : field o "allow_brotli_zstd" asBool false = some c.allowBrotliZstd
  normalizeXGraphql : field o "normalize_x_graphql" asBool false = some c.normalizeXGraphql
  youtubeViaRelay : field o "youtube_via_relay" asBool false = some c.youtubeViaRelay
  relayUrlPatterns : field o "relay_url_patterns" (asVec asString) [] = some c.relayUrlPatterns
  sabrStrip : field o "sabr_strip" asBool false = some c.sabrStrip
  passthroughHosts : field o "passthrough_hosts" (asVec asString) [] = some c.passthroughHosts
  blockQuic : field o "block_quic" asBool true = some c.blockQuic
  blockStun : field o "block_stun" asBool false = some c.blockStun
  disablePadding : field o "disable_padding" asBool false = some c.disablePadding
  forceHttp1 : field o "force_http1" asBool false = some c.forceHttp1
  tunnelDoh : field o "tunnel_doh" asBool true = some c.tunnelDoh
  bypassDohHosts : field o "bypass_doh_hosts" (asVec asString) [] = some c.bypassDohHosts
  blockDoh : field o "block_doh" asBool true = some c.blockDoh
  frontingGroups : field o "fronting_groups" (asVec frontingGroup) [] = some c.frontingGroups
  directMode : field o "direct_mode" directModeConfig .default = some c.directMode
  autoBlacklistStrikes : field o "auto_blacklist_strikes" (asUnsigned 32) 3 =
    some c.autoBlacklistStrikes
  autoBlacklistWindowSecs : field o "auto_blacklist_window_secs" (asUnsigned 64) 30 =
    some c.autoBlacklistWindowSecs
  autoBlacklistCooldownSecs : field o "auto_blacklist_cooldown_secs" (asUnsigned 64) 120 =
    some c.autoBlacklistCooldownSecs
  requestTimeoutSecs : field o "request_timeout_secs" (asUnsigned 64) 30 = some c.requestTimeoutSecs
  appsScriptLang : field o "apps_script_lang" asString "en".toList = some c.appsScriptLang
  extras : c.extras = o.filter fun entry => entry.1 ∉ configKeys
  exitNode : field o "exit_node" exitNodeConfig .default = some c.exitNode
  drive : field o "drive" driveConfig .default = some c.drive

variable {o : Object} {c : Config}

theorem Config.deserialize_iff : Config.deserialize o = some c ↔ c.ReadFrom o := by
  constructor
  · intro h
    unfold Config.deserialize at h
    iterate 50 obtain ⟨_, _, h⟩ := Option.bind_eq_some_iff.mp h
    cases h
    constructor <;> first | assumption | rfl
  · intro h
    unfold Config.deserialize
    simp only [h.mode, h.googleIp, h.frontDomain, h.scriptId, h.scriptIds, h.authKey, h.listenHost,
      h.listenPort, h.socks5Port, h.logLevel, h.logColorInfo, h.logColorWarn,
      h.logColorError, h.verifySsl, h.hosts, h.enableBatching, h.upstreamSocks5,
      h.parallelRelay, h.coalesceStepMs, h.coalesceMaxMs, h.sniHosts, h.fetchIpsFromApi,
      h.maxIpsToScan, h.scanBatchSize, h.googleIpValidation, h.heartbeatEnabled,
      h.heartbeatIntervalSecs, h.heartbeatFailureThreshold, h.allowBrotliZstd,
      h.normalizeXGraphql, h.youtubeViaRelay, h.relayUrlPatterns, h.sabrStrip,
      h.passthroughHosts, h.blockQuic, h.blockStun, h.disablePadding, h.forceHttp1,
      h.tunnelDoh, h.bypassDohHosts, h.blockDoh, h.frontingGroups, h.directMode,
      h.autoBlacklistStrikes, h.autoBlacklistWindowSecs, h.autoBlacklistCooldownSecs,
      h.requestTimeoutSecs, h.appsScriptLang, h.exitNode, h.drive, Option.bind_eq_bind,
      Option.bind_some, ← h.extras]

end Rahgozar.Settings
