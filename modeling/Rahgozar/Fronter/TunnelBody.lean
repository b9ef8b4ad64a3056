import Rahgozar.Fronter.Envelope

set_option autoImplicit false

/-! # The answers of the tunnel (`src/domain_fronter.rs`)

`finalize_tunnel_response` and `finalize_batch_response` take the status and the body of an answer
in full mode, and find the JSON in it. Each returns the parsed answer; what it does to the state of
the fronter is the list of its effects. Some of the log lines quote the JSON, and are formatted only
if the log level is `trace`.
-/

namespace Rahgozar.Fronter.Envelope

open ByteIndex (truncate)
open Proxy (toAsciiLowercase)
open Proxy.Mitm (fromUtf8)
open Http (Fault badResponse)

/-! ## Permanent errors -/

inductive EnvelopeCategory where
  | quota
  | auth
  | deploy
  | admin
deriving DecidableEq

def quotaPatterns : List String :=
  ["service invoked too many times", "invoked too many times", "too many times", "service invoked",
    "for one day", "per day", "daily limit", "quota exceeded", "quota", "rate limit",
    "limit exceeded", "bandwidth quota", "bandwidth exceeded", "too much upload bandwidth",
    "too much traffic", "transfer rate", "bandbreitenkontingent", "datenübertragungsrate",
    "urlfetch"]

def authPatterns : List String :=
  ["authorization is required", "unauthorized", "not authorized", "permission denied",
    "access denied"]

def deployPatterns : List String :=
  ["error code not_found", "not_found", "deployment version", "deployment id",
    "deployment not found", "missing library version", "script id", "scriptid", "no script"]

def adminPatterns : List String :=
  ["not permitted by your admin", "contact your administrator", "disabled. please contact",
    "domain policy has disabled", "administrator to enable"]

def classifyEnvelopeError (msg : List Char) : Option EnvelopeCategory :=
  let lower := toAsciiLowercase msg
  if quotaPatterns.any (contains lower) then some .quota
  else if authPatterns.any (contains lower) then some .auth
  else if deployPatterns.any (contains lower) then some .deploy
  else if adminPatterns.any (contains lower) then some .admin
  else none

def shouldBlacklist (status : Nat) (body : List Char) : Bool :=
  status = 429 || status = 403 || (classifyEnvelopeError body).isSome

/-! ## The JSON of an answer -/

/-- What a call does to the fronter: it blacklists the deployment, stores the deployment's
capabilities, or turns compression on. -/
inductive Effect where
  | blacklistScript (reason : String)
  | insertCapabilities (caps : UInt8)
  | enableZstd
deriving DecidableEq

/-- The answer to a status other than 200. -/
def httpFailure {α : Type} (label : String) (status : Nat) (body : List UInt8) :
    List Effect × Except Fault α :=
  let bodyTxt := (Udpgw.fromUtf8Lossy body).take 200
  (if shouldBlacklist status bodyTxt then [.blacklistScript ("HTTP " ++ toString status)] else [],
    .error (relayError (label ++ " HTTP " ++ toString status ++ ": " ++ String.ofList bodyTxt)))

/-- The JSON in a body: all of it if it starts with a brace. -/
def jsonText (kind : String) (body : List UInt8) : Except Fault (List Char) :=
  match fromUtf8 body with
  | none => .error (badResponse ("non-utf8 " ++ kind ++ " response"))
  | some text =>
      let text := Drive.trim text
      if text.head? = some '{' then .ok text
      else
        bracedJson (quoted ("no json in " ++ kind ++ " response: "))
          (fun _ => badResponse ("no json end in " ++ kind ++ " response")) text

def finalizeTunnelResponse {T : Type} (fromStr : List Char → Except String T) (status : Nat)
    (respBody : List UInt8) : List Effect × Except Fault T :=
  if status ≠ 200 then httpFailure "tunnel" status respBody
  else
    ([], match jsonText "tunnel" respBody with
      | .error e => .error e
      | .ok json =>
          match fromStr json with
          | .ok resp => .ok resp
          | .error e => .error (.error (.json e)))

/-! ## Batches -/

structure BatchTunnelResponse (R : Type) where
  r : List R
  e : Option (List Char)
  zr : Option (List Char)
  zc : Option UInt8

/-- What other crates compute for a batch: its JSON, the JSON of compressed results, and zstd. -/
structure BatchCrates (R : Type) where
  fromStr : List Char → Except String (BatchTunnelResponse R)
  resultsFromSlice : List UInt8 → Option (List R)
  decodeAll : List UInt8 → Option (List UInt8)

/-- The log line that quotes the first `n` bytes of the JSON. -/
def traceJson (trace : Bool) (json : List Char) (n : Nat) : Except Fault Unit :=
  if trace then
    match truncate json n with
    | some _ => .ok ()
    | none => .error .panic
  else .ok ()

/-- Compressed results replace the others, if they can be decoded. -/
def unpack {R : Type} (crates : BatchCrates R) (resp : BatchTunnelResponse R) :
    BatchTunnelResponse R :=
  match resp.zr with
  | none => resp
  | some zr =>
      match ((Base64.decode zr).bind crates.decodeAll).bind crates.resultsFromSlice with
      | some r => { resp with r := r, zr := none }
      | none => { resp with zr := none }

def capabilityEffects (zstdEnabled : Bool) (zc : Option UInt8) : List Effect :=
  match zc with
  | none => []
  | some caps =>
      .insertCapabilities caps :: if caps &&& 1 ≠ 0 ∧ ¬ zstdEnabled then [.enableZstd] else []

def finalizeBatchResponse {R : Type} (crates : BatchCrates R) (trace zstdEnabled : Bool)
    (status : Nat) (respBody : List UInt8) : List Effect × Except Fault (BatchTunnelResponse R) :=
  if status ≠ 200 then httpFailure "batch tunnel" status respBody
  else
    match jsonText "batch" respBody with
    | .error e => ([], .error e)
    | .ok json =>
        match traceJson trace json 500 with
        | .error e => ([], .error e)
        | .ok () =>
            match crates.fromStr json with
            | .ok resp =>
                (capabilityEffects zstdEnabled resp.zc, .ok (unpack crates resp))
            | .error e =>
                match traceJson trace json 300 with
                | .error e => ([], .error e)
                | .ok () => ([], .error (.error (.json e)))

end Rahgozar.Fronter.Envelope
