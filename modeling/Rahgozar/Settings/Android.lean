import Rahgozar.Config.RefreshToken
import Rahgozar.Lib.Assoc
import Rahgozar.Settings.Validate

set_option autoImplicit false

/-! # The configuration on Android (`ConfigStore.kt`, `ProfileStore.kt`)

`loadFromJson` reads a JSON object through `org.json`, which converts where serde refuses: a value
of another type is read as a text or a number, and a JSON `null` reads as the text `null`. What it
makes of such values is a parameter. `toJson` writes the keys the form has, each under its own
rule, and then the keys of the file that the form does not have.
-/

namespace Rahgozar.Settings

open Rahgozar.Config (trimKotlin isBlank)
open Drive (splitOnce)
open Proxy (Mode)
open Refusal (rejectIf)
open Distinct (firstOfEach)

/-- What `org.json` does with values of another type than the one that is asked for, and with
numbers that are no integers of 64 bits. -/
structure OrgJson where
  /-- `String.valueOf` of a value that is no text -/
  textOf : Json → Text
  /-- `JSON.toInteger` of a value that is no integer of 64 bits -/
  intOf : Json → Option Int
  /-- `JSON.toBoolean` of a text -/
  boolOf : Text → Option Bool
  /-- the number as it is read from a text that holds it and written again -/
  reprintNumber : Json → Json

variable (org : OrgJson)

/-- `Number.intValue` of a `Long`. -/
def intValue (n : Int) : Int := (n + 2 ^ 31) % 2 ^ 32 - 2 ^ 31

def asText : Json → Text
  | .str s => s
  | .null => "null".toList
  | v => org.textOf v

def optString (o : Object) (key : String) (fallback : Text) : Text :=
  match o.lookup key with
  | none => fallback
  | some v => asText org v

def optInt (o : Object) (key : String) (fallback : Int) : Int :=
  match o.lookup key with
  | none => fallback
  | some .null => fallback
  | some (.int n) =>
      if -2 ^ 63 ≤ n ∧ n < 2 ^ 63 then intValue n else (org.intOf (.int n)).getD fallback
  | some v => (org.intOf v).getD fallback

def optBoolean (o : Object) (key : String) (fallback : Bool) : Bool :=
  match o.lookup key with
  | some (.bool b) => b
  | some (.str s) => (org.boolOf s).getD fallback
  | _ => fallback

def optJSONArray (o : Object) (key : String) : Option (List Json) :=
  match o.lookup key with
  | some (.arr items) => some items
  | _ => none

def optJSONObject (o : Object) (key : String) : Option Object :=
  match o.lookup key with
  | some (.obj fields) => some fields
  | _ => none

/-- The texts of an array, where there is one. -/
def optTexts (o : Object) (key : String) : List Text :=
  ((optJSONArray o key).getD []).map (asText org)

mutual

/-- A value that has been read and written again. -/
def reprint : Json → Json
  | .int n => if -2 ^ 63 ≤ n ∧ n < 2 ^ 63 then .int n else org.reprintNumber (.int n)
  | .real literal => org.reprintNumber (.real literal)
  | .arr items => .arr (reprintItems items)
  | .obj fields => .obj (reprintFields fields)
  | v => v

def reprintItems : List Json → List Json
  | [] => []
  | v :: items => reprint v :: reprintItems items

def reprintFields : List (String × Json) → List (String × Json)
  | [] => []
  | (key, v) :: fields => (key, reprint v) :: reprintFields fields

end

/-! ## Deployment IDs -/

structure DeploymentEntry where
  url : Text
  enabled : Bool
deriving DecidableEq

def extractId (input : Text) : Text :=
  let s := trimKotlin input
  let s := match splitOnce "/macros/s/".toList s with
    | some (_, rest) => rest
    | none => s
  trimKotlin ((s.takeWhile (· ≠ '/')).takeWhile (· ≠ '?'))

/-- An element of the array form. -/
def readScriptIdElement : Json → Option DeploymentEntry
  | .str s => if isBlank s then none else some ⟨s, true⟩
  | .obj elem =>
      let id := optString org elem "id" []
      if isBlank id then none else some ⟨id, optBoolean org elem "enabled" true⟩
  | _ => none

def readScriptIdList (o : Object) (key : String) : List DeploymentEntry :=
  if (o.lookup key).isNone then []
  else
    match optJSONArray o key with
    | some items => items.filterMap (readScriptIdElement org)
    | none =>
        let s := optString org o key []
        if isBlank s then [] else [⟨s, true⟩]

def deploymentUrl (id : Text) : Text :=
  "https://script.google.com/macros/s/".toList ++ id ++ "/exec".toList

def readDeployments (o : Object) : List DeploymentEntry :=
  let entries := readScriptIdList org o "script_id" ++ readScriptIdList org o "script_ids"
  (firstOfEach (·.url) (entries.filter fun e => !isBlank e.url)).map
    fun e => ⟨deploymentUrl e.url, e.enabled⟩

/-! ## The form -/

inductive ConnectionMode where
  | vpnTun
  | proxyOnly
deriving DecidableEq

inductive SplitMode where
  | all
  | only
  | except
deriving DecidableEq

inductive UiLang where
  | auto
  | fa
  | en
deriving DecidableEq

structure RahgozarConfig where
  mode : Mode
  listenHost : Text
  listenPort : Int
  socks5Port : Option Int
  appsScriptUrls : List DeploymentEntry
  authKey : Text
  frontDomain : Text
  sniHosts : List Text
  googleIp : Text
  verifySsl : Bool
  logLevel : Text
  parallelRelay : Int
  forceHttp1 : Bool
  coalesceStepMs : Int
  coalesceMaxMs : Int
  blockQuic : Bool
  blockStun : Bool
  upstreamSocks5 : Text
  passthroughHosts : List Text
  tunnelDoh : Bool
  bypassDohHosts : List Text
  blockDoh : Bool
  connectionMode : ConnectionMode
  splitMode : SplitMode
  splitApps : List Text
  youtubeViaRelay : Bool
  sabrStrip : Bool
  relayUrlPatterns : List Text
  uiLang : UiLang
  driveFolderId : Text
  driveRelayPubkey : Text
  drivePollIntervalMs : Int
  driveMaxConcurrentUploads : Int
  driveOauthClientId : Text
  driveOauthClientSecret : Text
  driveOauthRefreshTokenSnapshot : Text
  frontingGroups : List FrontingGroup
  extrasJson : Object

/-- `MODELLED_KEYS`: the other keys go to `extrasJson`. -/
def modelledKeys : List String :=
  ["mode", "listen_host", "listen_port", "socks5_port", "script_id", "script_ids", "auth_key",
    "front_domain", "sni_hosts", "google_ip", "verify_ssl", "log_level", "parallel_relay",
    "force_http1", "coalesce_step_ms", "coalesce_max_ms", "block_quic", "block_stun",
    "upstream_socks5", "passthrough_hosts", "tunnel_doh", "bypass_doh_hosts", "block_doh",
    "youtube_via_relay", "sabr_strip", "relay_url_patterns", "fronting_groups", "connection_mode",
    "split_mode", "split_apps", "ui_lang", "fetch_ips_from_api", "max_ips_to_scan", "drive"]

def readMode (text : Text) : Mode :=
  if text = "direct".toList then .direct
  else if text = "google_only".toList then .direct
  else if text = "full".toList then .full
  else if text = "local_bypass".toList then .localBypass
  else if text = "drive".toList then .drive
  else .appsScript

def readConnectionMode (text : Text) : ConnectionMode :=
  if text = "proxy_only".toList then .proxyOnly else .vpnTun

def readSplitMode (text : Text) : SplitMode :=
  if text = "only".toList then .only
  else if text = "except".toList then .except
  else .all

def readUiLang (text : Text) : UiLang :=
  if text = "fa".toList then .fa
  else if text = "en".toList then .en
  else .auto

/-- The texts of an array of a fronting group, trimmed. -/
def groupTexts (g : Object) (key : String) : List Text :=
  ((optTexts org g key).map trimKotlin).filter fun t => !t.isEmpty

/-- An element of `fronting_groups`; a half-empty one is skipped. -/
def readFrontingGroup : Json → Option FrontingGroup
  | .obj g =>
      let name := trimKotlin (optString org g "name" [])
      let ip := trimKotlin (optString org g "ip" [])
      let sni := trimKotlin (optString org g "sni" [])
      let domains := groupTexts org g "domains"
      let forceIp := optBoolean org g "force_ip" false
      if name.isEmpty || (!forceIp && ip.isEmpty) || sni.isEmpty || domains.isEmpty then none
      else some ⟨name, ip, sni, domains, forceIp, groupTexts org g "verify_names"⟩
  | _ => none

/-- A text of the `drive` object. -/
def driveText (drive : Option Object) (key : String) : Text :=
  (drive.map fun d => trimKotlin (optString org d key [])).getD []

def driveInt (drive : Option Object) (key : String) (fallback : Int) : Int :=
  (drive.map fun d => optInt org d key fallback).getD fallback

/-- The texts of an array that are not blank. -/
def readTexts (o : Object) (key : String) : List Text :=
  (optTexts org o key).filter fun t => !isBlank t

def loadFromJson (o : Object) : RahgozarConfig :=
  let drive := optJSONObject o "drive"
  { mode := readMode (optString org o "mode" "apps_script".toList)
    listenHost := optString org o "listen_host" "0.0.0.0".toList
    listenPort := optInt org o "listen_port" 8080
    socks5Port := (some (optInt org o "socks5_port" 1081)).filter (0 < ·)
    appsScriptUrls := readDeployments org o
    authKey := optString org o "auth_key" []
    frontDomain := optString org o "front_domain" "www.google.com".toList
    sniHosts := readTexts org o "sni_hosts"
    googleIp := optString org o "google_ip" "142.251.36.68".toList
    verifySsl := optBoolean org o "verify_ssl" true
    logLevel := optString org o "log_level" "info".toList
    parallelRelay := optInt org o "parallel_relay" 1
    forceHttp1 := optBoolean org o "force_http1" false
    coalesceStepMs := optInt org o "coalesce_step_ms" 10
    coalesceMaxMs := optInt org o "coalesce_max_ms" 1000
    blockQuic := optBoolean org o "block_quic" true
    blockStun := optBoolean org o "block_stun" false
    upstreamSocks5 := optString org o "upstream_socks5" []
    passthroughHosts := readTexts org o "passthrough_hosts"
    tunnelDoh := optBoolean org o "tunnel_doh" true
    bypassDohHosts := readTexts org o "bypass_doh_hosts"
    blockDoh := optBoolean org o "block_doh" true
    connectionMode := readConnectionMode (optString org o "connection_mode" "vpn_tun".toList)
    splitMode := readSplitMode (optString org o "split_mode" "all".toList)
    splitApps := readTexts org o "split_apps"
    youtubeViaRelay := optBoolean org o "youtube_via_relay" false
    sabrStrip := optBoolean org o "sabr_strip" false
    relayUrlPatterns := readTexts org o "relay_url_patterns"
    uiLang := readUiLang (optString org o "ui_lang" "auto".toList)
    driveFolderId := driveText org drive "folder_id"
    driveRelayPubkey := driveText org drive "relay_pubkey"
    drivePollIntervalMs := driveInt org drive "poll_interval_ms" 300
    driveMaxConcurrentUploads := driveInt org drive "max_concurrent_uploads" 8
    driveOauthClientId := driveText org drive "oauth_client_id"
    driveOauthClientSecret := driveText org drive "oauth_client_secret"
    driveOauthRefreshTokenSnapshot := driveText org drive "oauth_refresh_token"
    frontingGroups := ((optJSONArray o "fronting_groups").getD []).filterMap (readFrontingGroup org)
    extrasJson := o.filter fun e => e.1 ∉ modelledKeys }

/-! ## Writing the form -/

def modeText : Mode → Text
  | .appsScript => "apps_script".toList
  | .direct => "direct".toList
  | .full => "full".toList
  | .localBypass => "local_bypass".toList
  | .drive => "drive".toList

def ConnectionMode.text : ConnectionMode → Text
  | .vpnTun => "vpn_tun".toList
  | .proxyOnly => "proxy_only".toList

def SplitMode.text : SplitMode → Text
  | .all => "all".toList
  | .only => "only".toList
  | .except => "except".toList

def UiLang.text : UiLang → Text
  | .auto => "auto".toList
  | .fa => "fa".toList
  | .en => "en".toList

/-- The texts as an array, unless there are none. -/
def putTexts (texts : List Text) : Option Json :=
  if texts.isEmpty then none else some (.arr (texts.map .str))

def putIfTrue (b : Bool) : Option Json := if b then some (.bool true) else none

/-- A text that is not blank, trimmed. -/
def putTrimmed (text : Text) : Option Json :=
  if isBlank text then none else some (.str (trimKotlin text))

/-- Trimmed, without the empty ones, each once. -/
def cleanTexts (texts : List Text) : List Text :=
  ((texts.map trimKotlin).filter fun t => !t.isEmpty).eraseDups

/-- An array of bare IDs, or of objects where an entry is disabled. -/
def putScriptIds (urls : List DeploymentEntry) : Option Json :=
  let entries := (urls.map fun e => (⟨extractId e.url, e.enabled⟩ : DeploymentEntry)).filter
    fun e => !e.url.isEmpty
  if entries.isEmpty then none
  else if entries.all (·.enabled) then some (.arr (entries.map fun e => .str e.url))
  else some (.arr (entries.map fun e => .obj [("id", .str e.url), ("enabled", .bool e.enabled)]))

def frontingGroupPuts (g : FrontingGroup) : List (String × Option Json) :=
  [ ("name", some (.str g.name)),
    ("ip", some (.str g.ip)),
    ("sni", some (.str g.sni)),
    ("domains", some (.arr (g.domains.map .str))),
    ("force_ip", putIfTrue g.forceIp),
    ("verify_names", putTexts g.verifyNames) ]

def frontingGroupJson (g : FrontingGroup) : Json := .obj (Assoc.present (frontingGroupPuts g))

/-- A group without a domain is a draft and is not saved. -/
def putFrontingGroups (groups : List FrontingGroup) : Option Json :=
  let savableGroups := groups.filterMap fun g =>
    let cleaned := cleanTexts g.domains
    if cleaned.isEmpty then none else some { g with domains := cleaned }
  if savableGroups.isEmpty then none else some (.arr (savableGroups.map frontingGroupJson))

namespace RahgozarConfig

def drivePuts (r : RahgozarConfig) : List (String × Option Json) :=
  [ ("oauth_refresh_token", if r.driveOauthRefreshTokenSnapshot.isEmpty then none
      else some (.str r.driveOauthRefreshTokenSnapshot)),
    ("folder_id", putTrimmed r.driveFolderId),
    ("relay_pubkey", putTrimmed r.driveRelayPubkey),
    ("oauth_client_id", putTrimmed r.driveOauthClientId),
    ("oauth_client_secret", putTrimmed r.driveOauthClientSecret),
    ("poll_interval_ms", some (.int r.drivePollIntervalMs)),
    ("max_concurrent_uploads", some (.int r.driveMaxConcurrentUploads)) ]

def driveObj (r : RahgozarConfig) : Object := Assoc.present r.drivePuts

/-- The keys `toJson` puts, each with its value where its rule gives one. -/
def puts (r : RahgozarConfig) : List (String × Option Json) :=
  [ ("mode", some (.str (modeText r.mode))),
    ("listen_host", some (.str r.listenHost)),
    ("listen_port", some (.int r.listenPort)),
    ("socks5_port", r.socks5Port.map .int),
    ("script_id", putScriptIds r.appsScriptUrls),
    ("auth_key", some (.str r.authKey)),
    ("front_domain", some (.str r.frontDomain)),
    ("sni_hosts", putTexts r.sniHosts),
    ("google_ip", some (.str r.googleIp)),
    ("verify_ssl", some (.bool r.verifySsl)),
    ("log_level", some (.str r.logLevel)),
    ("parallel_relay", some (.int r.parallelRelay)),
    ("force_http1", putIfTrue r.forceHttp1),
    ("coalesce_step_ms", if r.coalesceStepMs = 10 then none else some (.int r.coalesceStepMs)),
    ("coalesce_max_ms", if r.coalesceMaxMs = 1000 then none else some (.int r.coalesceMaxMs)),
    ("block_quic", some (.bool r.blockQuic)),
    ("block_stun", some (.bool r.blockStun)),
    ("upstream_socks5", putTrimmed r.upstreamSocks5),
    ("passthrough_hosts", putTexts r.passthroughHosts),
    ("tunnel_doh", some (.bool r.tunnelDoh)),
    ("block_doh", some (.bool r.blockDoh)),
    ("youtube_via_relay", putIfTrue r.youtubeViaRelay),
    ("sabr_strip", putIfTrue r.sabrStrip),
    ("relay_url_patterns", putTexts (cleanTexts r.relayUrlPatterns)),
    ("bypass_doh_hosts", putTexts (cleanTexts r.bypassDohHosts)),
    ("fetch_ips_from_api", some (.bool false)),
    ("max_ips_to_scan", some (.int 20)),
    ("fronting_groups", putFrontingGroups r.frontingGroups),
    ("connection_mode", some (.str r.connectionMode.text)),
    ("split_mode", some (.str r.splitMode.text)),
    ("split_apps", putTexts r.splitApps),
    ("drive", some (.obj r.driveObj)),
    ("ui_lang", some (.str r.uiLang.text)) ]

def toJson (r : RahgozarConfig) : Object :=
  Assoc.splice (Assoc.present r.puts) (reprintFields org r.extrasJson)

end RahgozarConfig

def RahgozarConfig.hasDeploymentId (r : RahgozarConfig) : Bool :=
  r.appsScriptUrls.any fun e => e.enabled && !(extractId e.url).isEmpty

def hasConfigShape (o : Object) : Bool :=
  ["mode", "auth_key", "script_id", "script_ids"].any fun key => (o.lookup key).isSome

/-- `ConfigStore.decode` of a text that is a JSON object. -/
def decode (o : Object) : Option RahgozarConfig :=
  if hasConfigShape o then some (loadFromJson org o) else none

/-! ## `validateRuntimeShape` -/

/-- The modes of `validateRuntimeShape`. -/
def shapeMode (mode : Text) : Option Proxy.Mode :=
  if mode = "apps_script".toList then some .appsScript
  else if mode = "direct".toList ∨ mode = "google_only".toList then some .direct
  else if mode = "full".toList then some .full
  else if mode = "local_bypass".toList then some .localBypass
  else if mode = "drive".toList then some .drive
  else none

variable (validateDriveRelayPubkey : Text → Option String)

def validateShapeAppsScript (mode : String) (r : RahgozarConfig) : Except String Unit := do
  rejectIf (!r.hasDeploymentId) (mode ++ " mode requires script_id (or script_ids)")
  let auth := trimKotlin r.authKey
  rejectIf (auth.isEmpty || auth = "CHANGE_ME_TO_A_STRONG_SECRET".toList)
    (mode ++ " mode requires a non-placeholder auth_key")

/-- The error of `validateDriveRelayPubkey`, if it has one. -/
def pubkeyError : Option String → Except String Unit
  | some e => .error ("drive.relay_pubkey: " ++ e)
  | none => .ok ()

def validateShapeDrive (mode : String) (r : RahgozarConfig) : Except String Unit := do
  rejectIf (isBlank r.driveOauthClientId)
    (mode ++ " mode requires drive.oauth_client_id (BYO OAuth — see docs/drive_oauth_setup.md)")
  rejectIf (isBlank r.driveOauthClientSecret)
    (mode ++ " mode requires drive.oauth_client_secret")
  rejectIf (isBlank r.driveOauthRefreshTokenSnapshot)
    (mode ++ " mode requires drive.oauth_refresh_token")
  rejectIf (isBlank r.driveFolderId) (mode ++ " mode requires drive.folder_id")
  rejectIf (isBlank r.driveRelayPubkey) (mode ++ " mode requires drive.relay_pubkey")
  pubkeyError (validateDriveRelayPubkey r.driveRelayPubkey)
  rejectIf (r.drivePollIntervalMs ≤ 0) (mode ++ " mode requires drive.poll_interval_ms > 0")
  rejectIf (r.driveMaxConcurrentUploads ≤ 0)
    (mode ++ " mode requires drive.max_concurrent_uploads > 0")

def validateRuntimeShape (raw : Object) (decoded : RahgozarConfig) : Except String Unit := do
  let modeStr := optString org raw "mode" []
  rejectIf (isBlank modeStr) "missing required field `mode`"
  match shapeMode modeStr with
  | none => .error ("unknown mode '" ++ display modeStr ++ "'")
  | some mode =>
      if mode.usesAppsScriptRelay then validateShapeAppsScript (display modeStr) decoded
      if mode = .drive then
        validateShapeDrive validateDriveRelayPubkey (display modeStr) decoded

end Rahgozar.Settings
