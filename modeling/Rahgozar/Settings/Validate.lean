import Rahgozar.Lib.Distinct
import Rahgozar.Lib.Refusal
import Rahgozar.Settings.Config

set_option autoImplicit false

/-! # `Config::validate` (`src/config.rs`)

The rules a configuration has to keep before anything runs with it, in the order of the source; the
first rule that is broken gives the error. What other crates decide is a parameter: whether a text
is a TLS server name, an IP address, or the relay's public key.
-/

namespace Rahgozar.Settings

open Drive (trim stripPrefix splitOnce utf8)
open Proxy (Mode toAsciiLowercase trimEndDots)
open Refusal (rejectIf checkEach)
open Distinct (firstOfEach)

/-- What other crates decide. -/
structure Crates where
  /-- `ServerName::try_from` -/
  serverName : Text → Except String Unit
  /-- `str::parse::<IpAddr>` succeeds -/
  isIpAddr : Text → Bool
  /-- `RelayPubkey::from_bech32m` -/
  fromBech32m : Text → Except String Unit
  /-- the `Debug` form of a `str` -/
  debug : Text → String

def display (text : Text) : String := String.ofList text

/-! ## Deployment IDs -/

namespace Config

/-- `script_id_entries`: the entries of `script_id`, then those of `script_ids`; the first of each
ID counts. -/
def scriptIdEntries (c : Config) : List ScriptIdEntry :=
  firstOfEach (·.id) (c.scriptId.getD [] ++ c.scriptIds.getD [])

def scriptIdsResolved (c : Config) : List Text :=
  (c.scriptIdEntries.filter (·.enabled)).map (·.id)

def modeKind (c : Config) : Except String Mode :=
  match Mode.fromStr (display c.mode) with
  | some mode => .ok mode
  | none => .error ("unknown mode '" ++ display c.mode ++
      "' (expected 'apps_script', 'direct', 'full', 'local_bypass', or 'drive')")

end Config

/-! ## Host names and patterns -/

def containsText (sub text : Text) : Bool := (splitOnce sub text).isSome

def isLdh (c : Char) : Bool := c.isAlphanum || c = '-'

/-- `field[i] ('raw')` -/
def place (field : String) (i : Nat) (raw : Text) : String :=
  field ++ "[" ++ toString i ++ "] ('" ++ display raw ++ "')"

def validateDirectModeLabel (field : String) (i : Nat) (raw label : Text) : Except String Unit := do
  rejectIf label.isEmpty (place field i raw ++ ": empty label (consecutive dots)")
  rejectIf (63 < (utf8 label).length)
    (place field i raw ++ ": label '" ++ display label ++ "' exceeds RFC 1035 max of 63 octets")
  rejectIf (!label.all isLdh)
    (place field i raw ++ ": label '" ++ display label ++ "' contains non-LDH character " ++
      "(only letters, digits, and hyphens allowed; IDN names must be punycode-encoded as 'xn--...')")
  rejectIf (label.head? = some '-' || label.getLast? = some '-')
    (place field i raw ++ ": label '" ++ display label ++ "' must not start or end with a hyphen")

def validateDirectModeHostname (field : String) (i : Nat) (raw : Text) : Except String Unit := do
  let trimmed := trim raw
  rejectIf trimmed.isEmpty (field ++ "[" ++ toString i ++ "]: empty / whitespace-only entry")
  rejectIf (raw.any fun c => c = ' ' || c = '\t' || c = '\r' || c = '\n')
    (place field i raw ++ ": hostname must not contain whitespace")
  rejectIf (containsText "://".toList trimmed || "//".toList.isPrefixOf trimmed)
    (place field i raw ++ ": expected a bare hostname, not a URL")
  rejectIf ('/' ∈ trimmed)
    (place field i raw ++ ": path component is not allowed — entries match by hostname only")
  rejectIf (':' ∈ trimmed)
    (place field i raw ++ ": port / IPv6 colon is not allowed — fronts are dialed with the " ++
      "destination's port")
  let stripped := trimEndDots (trimmed.dropWhile (· = '.'))
  rejectIf stripped.isEmpty (place field i raw ++ ": hostname has no labels (just dots)")
  rejectIf (253 < (utf8 stripped).length)
    (place field i raw ++ ": hostname exceeds RFC 1035 max length of 253 octets")
  checkEach (fun _ label => validateDirectModeLabel field i raw label) 0 (stripped.splitOn '.')

def validateRelayUrlLabel (host label : Text) : Except String Unit := do
  rejectIf label.isEmpty
    ("host '" ++ display host ++ "' contains an empty label (consecutive or leading dots)")
  rejectIf (63 < (utf8 label).length)
    ("host label '" ++ display label ++ "' exceeds 63 characters")
  rejectIf (label.head? = some '-' || label.getLast? = some '-')
    ("host label '" ++ display label ++ "' starts or ends with a hyphen")
  checkEach (fun _ c => rejectIf (!isLdh c)
    ("host label '" ++ display label ++ "' contains invalid character '" ++ display [c] ++
      "' (only ASCII letters, digits, and hyphens allowed)")) 0 label

def validateRelayUrlPattern (p : Text) : Except String Unit := do
  let trimmed := trim p
  rejectIf trimmed.isEmpty "entry is empty / whitespace-only"
  let lower := toAsciiLowercase trimmed
  let noScheme := ((stripPrefix "https://".toList lower).orElse
    fun _ => stripPrefix "http://".toList lower).getD lower
  rejectIf noScheme.isEmpty "scheme present but no host follows"
  let host := trimEndDots (noScheme.takeWhile (· ≠ '/'))
  rejectIf host.isEmpty "host part is empty"
  rejectIf (253 < (utf8 host).length)
    ("host exceeds 253 characters (" ++ toString (utf8 host).length ++ " chars)")
  checkEach (fun _ label => validateRelayUrlLabel host label) 0 (host.splitOn '.')

/-! ## The rules -/

variable (crates : Crates)

namespace Config

def validateAppsScript (c : Config) : Except String Unit := do
  rejectIf ((trim c.authKey).isEmpty || c.authKey = "CHANGE_ME_TO_A_STRONG_SECRET".toList)
    "auth_key must be set to a strong secret"
  let ids := c.scriptIdsResolved
  rejectIf ids.isEmpty "script_id (or script_ids) is required"
  checkEach (fun _ id => rejectIf (id.isEmpty || id = "YOUR_APPS_SCRIPT_DEPLOYMENT_ID".toList)
    "script_id is not set — deploy Code.gs and paste its Deployment ID") 0 ids

/-- A credential of the Drive mode has to be there. -/
def requireDrive (value : Text) (message : String) : Except String Unit :=
  rejectIf (trim value).isEmpty message

def validateDrive (c : Config) : Except String Unit := do
  requireDrive c.drive.oauthClientId
    ("drive.oauth_client_id is required for mode=drive — rahgozar is BYO OAuth: " ++
      "register your own installed-app client in Google Cloud Console and paste " ++
      "the client_id here. See docs/drive_oauth_setup.md for the walkthrough.")
  requireDrive c.drive.oauthClientSecret
    ("drive.oauth_client_secret is required for mode=drive — paste it next to " ++
      "drive.oauth_client_id. See docs/drive_oauth_setup.md for the walkthrough.")
  requireDrive c.drive.oauthRefreshToken
    ("drive.oauth_refresh_token is required for mode=drive — run the OAuth flow first " ++
      "(Sign in with Google in the desktop UI, or `rahgozar-drive-relay oauth device-code` " ++
      "on a headless host)")
  requireDrive c.drive.folderId
    ("drive.folder_id is required for mode=drive — create the shared mailbox folder " ++
      "in the same Google account, paste the bare folder ID (not the URL)")
  requireDrive c.drive.relayPubkey
    ("drive.relay_pubkey is required for mode=drive — run `rahgozar-drive-relay keygen` " ++
      "on your VPS and paste the bech32m-encoded public key it prints (HRP `rgdr1`)")
  (crates.fromBech32m c.drive.relayPubkey).mapError ("drive.relay_pubkey: " ++ ·)
  rejectIf (c.drive.pollIntervalMs = 0)
    "drive.poll_interval_ms must be > 0 (would otherwise busy-loop the poller)"
  rejectIf (c.drive.maxConcurrentUploads = 0)
    "drive.max_concurrent_uploads must be > 0 (would otherwise stall every upload)"
  let gip := trim c.googleIp
  rejectIf gip.isEmpty
    ("google_ip is required for mode=drive — Drive endpoints must resolve via this " ++
      "pinned IP, not system DNS (the ISP DNS Drive Mode exists to bypass). Set a " ++
      "known-working Google edge IP (e.g. one discovered via `cdn_discover`).")
  rejectIf (!crates.isIpAddr gip)
    ("google_ip " ++ crates.debug gip ++ " is not a valid IP address — would silently fall back " ++
      "to system DNS for Drive endpoints, leaking the transport to the ISP")

def validateFrontingGroup (i : Nat) (g : FrontingGroup) : Except String Unit := do
  let group := place "fronting_groups" i g.name
  rejectIf (trim g.name).isEmpty ("fronting_groups[" ++ toString i ++ "]: name is empty")
  rejectIf (!g.forceIp && (trim g.ip).isEmpty)
    (group ++ ": ip is empty (required unless force_ip = true)")
  rejectIf (trim g.sni).isEmpty (group ++ ": sni is empty")
  (crates.serverName g.sni).mapError
    fun e => group ++ ": invalid sni '" ++ display g.sni ++ "': " ++ e
  rejectIf g.domains.isEmpty (group ++ ": domains list is empty")
  checkEach (fun _ d => rejectIf (trim d).isEmpty (group ++ ": empty domain entry")) 0 g.domains
  checkEach (fun _ raw => do
    let v := trimEndDots (trim raw)
    rejectIf v.isEmpty (group ++ ": empty verify_names entry")
    (crates.serverName v).mapError
      fun e => group ++ ": invalid verify_names entry '" ++ display v ++ "': " ++ e) 0 g.verifyNames

def validate (c : Config) : Except String Unit := do
  let mode ← c.modeKind
  if mode.usesAppsScriptRelay then c.validateAppsScript
  if mode = .drive then c.validateDrive crates
  rejectIf (c.scanBatchSize = 0) "scan_batch_size must be greater than 0"
  rejectIf (c.socks5Port = some c.listenPort)
    ("listen_port and socks5_port must differ on the same host (both set to " ++
      toString c.listenPort ++ " on " ++ display c.listenHost ++
      "). Change one of them in config.json.")
  checkEach (validateFrontingGroup crates) 0 c.frontingGroups
  checkEach (fun i p => (validateRelayUrlPattern p).mapError
    (place "relay_url_patterns" i p ++ ": " ++ ·)) 0 c.relayUrlPatterns
  checkEach (validateDirectModeHostname "direct_mode.fronts") 0 c.directMode.fronts
  checkEach (validateDirectModeHostname "direct_mode.google_domains") 0 c.directMode.googleDomains
  checkEach (validateDirectModeHostname "direct_mode.sanctioned_domains") 0
    c.directMode.sanctionedDomains

/-- `Config::load`, of a file that holds the object. -/
def load (o : Object) : Except String Config :=
  match Config.deserialize o with
  | none => .error "not a Config"
  | some c => (c.validate crates).map fun _ => c

end Config

end Rahgozar.Settings
