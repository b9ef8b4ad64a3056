import Rahgozar.Settings.Save
import Rahgozar.Tunnel.UdpgwReplies

set_option autoImplicit false

/-! # Sharing a configuration (`ConfigStore.kt`)

`encode` writes the settings of a form that are not the defaults, compresses the JSON text and
writes it in base64 behind a prefix; `decode` reads such a text, or the JSON text itself. What is
written is not what `toJson` saves: it has its own way with the deployment IDs, and neither the
OAuth secrets nor the keys of the file that the form does not have.
-/

namespace Rahgozar.Settings

open Drive (splitOnce utf8)
open Proxy (Mode)
open Rahgozar.Config (trimKotlin isBlank isWhitespaceKotlin)
open Udpgw (fromUtf8Lossy)

/-- The form with all its fields. -/
structure FormConfig extends RahgozarConfig where
  driveHasRefreshToken : Bool

/-- `RahgozarConfig()` -/
def defaults : FormConfig where
  mode := .appsScript
  listenHost := "0.0.0.0".toList
  listenPort := 8080
  socks5Port := some 1081
  appsScriptUrls := []
  authKey := []
  frontDomain := "www.google.com".toList
  sniHosts := []
  googleIp := "142.251.36.68".toList
  verifySsl := true
  logLevel := "info".toList
  parallelRelay := 1
  forceHttp1 := false
  coalesceStepMs := 10
  coalesceMaxMs := 1000
  blockQuic := true
  blockStun := false
  upstreamSocks5 := []
  passthroughHosts := []
  tunnelDoh := true
  bypassDohHosts := []
  blockDoh := true
  connectionMode := .vpnTun
  splitMode := .all
  splitApps := []
  youtubeViaRelay := false
  sabrStrip := false
  relayUrlPatterns := []
  uiLang := .auto
  driveFolderId := []
  driveRelayPubkey := []
  drivePollIntervalMs := 300
  driveMaxConcurrentUploads := 8
  driveOauthClientId := []
  driveOauthClientSecret := []
  driveHasRefreshToken := false
  driveOauthRefreshTokenSnapshot := []
  frontingGroups := []
  extrasJson := []

/-! ## The JSON object of a share -/

/-- A deployment URL or ID as it is shared: no query is cut off, and no path of a bare ID. -/
def shareId (raw : Text) : Text :=
  match splitOnce "/macros/s/".toList raw with
  | some (_, rest) => trimKotlin (rest.takeWhile (· ≠ '/'))
  | none => trimKotlin raw

def shareEntries (urls : List DeploymentEntry) : List DeploymentEntry :=
  urls.filterMap fun e =>
    let normalised := shareId e.url
    if normalised.isEmpty then none else some ⟨normalised, e.enabled⟩

/-- An array of bare IDs, or of objects where an entry is disabled. -/
def putEntries (entries : List DeploymentEntry) : Option Json :=
  if entries.isEmpty then none
  else if entries.all (·.enabled) then some (.arr (entries.map fun e => .str e.url))
  else some (.arr (entries.map fun e => .obj [("id", .str e.url), ("enabled", .bool e.enabled)]))

/-- A value that is not the default. -/
def putUnless {α : Type} [DecidableEq α] (value fallback : α) (json : α → Json) : Option Json :=
  if value = fallback then none else some (json value)

/-- A text that is not blank, as it stands. -/
def putText (text : Text) : Option Json := if isBlank text then none else some (.str text)

namespace FormConfig

def shareDrivePuts (c : FormConfig) : List (String × Option Json) :=
  [ ("folder_id", putTrimmed c.driveFolderId),
    ("relay_pubkey", putTrimmed c.driveRelayPubkey),
    ("oauth_client_id", putTrimmed c.driveOauthClientId),
    ("poll_interval_ms", putUnless c.drivePollIntervalMs defaults.drivePollIntervalMs .int),
    ("max_concurrent_uploads",
      putUnless c.driveMaxConcurrentUploads defaults.driveMaxConcurrentUploads .int) ]

def shareDrive (c : FormConfig) : Option Json :=
  let driveObj := Assoc.present c.shareDrivePuts
  if driveObj.isEmpty then none else some (.obj driveObj)

def sharePuts (c : FormConfig) : List (String × Option Json) :=
  [ ("mode", some (.str (modeText c.mode))),
    ("script_id", putEntries (shareEntries c.appsScriptUrls)),
    ("auth_key", putText c.authKey),
    ("google_ip", putUnless c.googleIp defaults.googleIp .str),
    ("front_domain", putUnless c.frontDomain defaults.frontDomain .str),
    ("sni_hosts", putTexts c.sniHosts),
    ("verify_ssl", putUnless c.verifySsl defaults.verifySsl .bool),
    ("log_level", putUnless c.logLevel defaults.logLevel .str),
    ("parallel_relay", putUnless c.parallelRelay defaults.parallelRelay .int),
    ("force_http1", putUnless c.forceHttp1 defaults.forceHttp1 .bool),
    ("coalesce_step_ms", putUnless c.coalesceStepMs defaults.coalesceStepMs .int),
    ("coalesce_max_ms", putUnless c.coalesceMaxMs defaults.coalesceMaxMs .int),
    ("block_quic", putUnless c.blockQuic defaults.blockQuic .bool),
    ("block_stun", putUnless c.blockStun defaults.blockStun .bool),
    ("upstream_socks5", putText c.upstreamSocks5),
    ("passthrough_hosts", putTexts c.passthroughHosts),
    ("tunnel_doh", putUnless c.tunnelDoh defaults.tunnelDoh .bool),
    ("block_doh", putUnless c.blockDoh defaults.blockDoh .bool),
    ("youtube_via_relay", putUnless c.youtubeViaRelay defaults.youtubeViaRelay .bool),
    ("sabr_strip", putUnless c.sabrStrip defaults.sabrStrip .bool),
    ("bypass_doh_hosts", putTexts (cleanTexts c.bypassDohHosts)),
    ("relay_url_patterns", putTexts (cleanTexts c.relayUrlPatterns)),
    ("fronting_groups", putFrontingGroups c.frontingGroups),
    ("drive", c.shareDrive) ]

/-- `toShareJson` -/
def toShareJson (c : FormConfig) : Object := Assoc.present c.sharePuts

end FormConfig

/-! ## The text of a share -/

/-- What packs a JSON object into a text and unpacks it: `org.json`, `java.util.zip` and
`android.util.Base64` with `NO_WRAP` and `URL_SAFE`. -/
structure Packer where
  /-- `JSONObject.toString` -/
  print : Object → Text
  /-- `JSONObject(text)` -/
  parse : Text → Option Object
  /-- `DeflaterOutputStream` -/
  deflate : List UInt8 → List UInt8
  /-- `InflaterInputStream` -/
  inflate : List UInt8 → Option (List UInt8)
  encodeToString : List UInt8 → Text
  decodeBase64 : Text → Option (List UInt8)

/-- What is documented of compression and base64. -/
structure Packer.RoundTrips (p : Packer) : Prop where
  inflate : ∀ bytes, p.inflate (p.deflate bytes) = some bytes
  decodeBase64 : ∀ bytes, p.decodeBase64 (p.encodeToString bytes) = some bytes
  /-- the alphabet has no white space -/
  alphabet : ∀ bytes, ∀ c ∈ p.encodeToString bytes, isWhitespaceKotlin c = false

/-- A JSON object that is read back from its text. -/
def Packer.ReadsBack (p : Packer) (o : Object) : Prop := p.parse (p.print o) = some o

def hashPrefix : Text := "rahgozar://".toList

variable (org : OrgJson)

def loadForm (o : Object) : FormConfig :=
  let r := loadFromJson org o
  { r with driveHasRefreshToken := !r.driveOauthRefreshTokenSnapshot.isEmpty }

namespace Packer

variable (p : Packer)

def encode (c : FormConfig) : Text :=
  hashPrefix ++ p.encodeToString (p.deflate (utf8 (p.print c.toShareJson)))

def inflateOrRaw (raw : List UInt8) : Text :=
  match p.inflate raw with
  | some bytes => fromUtf8Lossy bytes
  | none => fromUtf8Lossy raw

/-- The form of a JSON text that has the shape of a configuration. -/
def load (text : Text) : Option FormConfig :=
  (p.parse text).bind fun o => if hasConfigShape o then some (loadForm org o) else none

def decode (encoded : Text) : Option FormConfig :=
  let trimmed := trimKotlin encoded
  if trimmed.head? = some '{' then p.load org trimmed
  else
    let payload :=
      if hashPrefix.isPrefixOf trimmed then trimmed.drop hashPrefix.length else trimmed
    (p.decodeBase64 payload).bind fun raw => p.load org (p.inflateOrRaw raw)

end Packer

end Rahgozar.Settings
