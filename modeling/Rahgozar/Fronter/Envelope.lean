import Rahgozar.Lib.Base64
import Rahgozar.Lib.ByteIndex
import Rahgozar.Fronter.HttpResponse
import Rahgozar.Settings.Config

set_option autoImplicit false

/-! # JSON envelopes (`src/domain_fronter.rs`)

The relay and the exit node answer with a JSON envelope `{s, h, b}`: a status, headers, and a body
in base64. `parse_relay_json` and `parse_exit_node_response` make a raw response of it, and
`split_response` takes a raw response apart again. JSON and the decoders of the content codings are
other crates' (`Crates`).
-/

namespace Rahgozar.Fronter.Envelope

open ByteIndex (find rfind truncate)
open Drive (splitOnce parseUnsigned utf8)
open Segments (position)
open Settings (Json Object)
open Proxy (toAsciiLowercase)
open Proxy.Mitm (Headers crlf fromUtf8 fromStrRadix16 eqIgnoreAsciiCase parseHeaderLine)
open Http (Fault badResponse slice)

/-- The envelope of the relay, as serde derives it. A map is the list of its entries, in its
order. -/
structure RelayResponse where
  s : Option UInt16
  h : Option Object
  b : Option (List Char)
  e : Option (List Char)

/-- What other crates compute: JSON with the texts of its errors, the error of base64, the content
decoders, and how a number with a fraction is written. -/
structure Crates where
  relayResponse : List Char → Except String RelayResponse
  value : List Char → Option Json
  valueFromSlice : List UInt8 → Except String Json
  base64Error : List Char → String
  decodeGzip : List UInt8 → Option (List UInt8)
  decodeBrotli : List UInt8 → Option (List UInt8)
  decodeZstd : List UInt8 → Option (List UInt8)
  floatText : List Char → List Char

def relayError (message : String) : Fault := .error (.relay message)

/-- A message that quotes the first 200 bytes of a text, `&text[..text.len().min(200)]`. -/
def quoted (message : String) (text : List Char) : Fault :=
  match truncate text 200 with
  | some cut => badResponse (message ++ String.ofList cut)
  | none => .panic

/-- The text from its first `{` to its last `}`. -/
def bracedJson (noJson noEnd : List Char → Fault) (text : List Char) : Except Fault (List Char) :=
  match find ['{'] text with
  | none => .error (noJson text)
  | some start =>
      match rfind '}' text with
      | none => .error (noEnd text)
      | some stop =>
          if stop < start then
            .error (badResponse ("no valid json object in: " ++ String.ofList (text.take 200)))
          else
            match ByteIndex.slice text start (stop + 1) with
            | some json => .ok json
            | none => .error .panic

/-! ## The sandbox of `HtmlService` -/

/-- The escape of two or four hexadecimal digits at the beginning of `rest`, which starts with
`\x` or `\u`. -/
def hexEscape (digits : Nat) (rest : List UInt8) : Except Fault (Option Char) :=
  if rest.length ≤ digits + 1 then .ok none
  else
    match slice rest 2 (2 + digits) with
    | .error e => .error e
    | .ok hex =>
        .ok (((fromUtf8 hex).bind fromStrRadix16).bind fun v =>
          if v.isValidChar then some (Char.ofNat v) else none)

/-- What the character behind a backslash stands for. -/
def plainEscape (esc : UInt8) : Option Char :=
  if esc = 92 then some '\\'
  else if esc = 34 then some '"'
  else if esc = 39 then some '\''
  else if esc = 47 then some '/'
  else if esc = 110 then some '\n'
  else if esc = 114 then some '\r'
  else if esc = 116 then some '\t'
  else if esc = 98 then some (Char.ofNat 8)
  else if esc = 102 then some (Char.ofNat 12)
  else none

/-- The loop of `decode_js_string_escapes`; `rest` is `bytes[i..]`. Every other byte becomes a
character by itself. -/
def decodeJsEscapes : (fuel : Nat) → (rest : List UInt8) → (out : List Char) →
    Except Fault (Option (List Char))
  | 0, _, _ => .error .panic
  | _ + 1, [], out => .ok (some out)
  | fuel + 1, c :: more, out =>
      if c ≠ 92 then decodeJsEscapes fuel more (out ++ [Char.ofNat c.toNat])
      else
        match more with
        | [] => .ok none
        | esc :: after =>
            if esc = 120 then
              match hexEscape 2 (c :: more) with
              | .error e => .error e
              | .ok none => .ok none
              | .ok (some ch) => decodeJsEscapes fuel (after.drop 2) (out ++ [ch])
            else if esc = 117 then
              match hexEscape 4 (c :: more) with
              | .error e => .error e
              | .ok none => .ok none
              | .ok (some ch) => decodeJsEscapes fuel (after.drop 4) (out ++ [ch])
            else
              match plainEscape esc with
              | none => .ok none
              | some ch => decodeJsEscapes fuel after (out ++ [ch])

def decodeJsStringEscapes (s : List Char) : Except Fault (Option (List Char)) :=
  decodeJsEscapes ((utf8 s).length + 1) (utf8 s) []

/-- `outer.get("userHtml")?.as_str()?` -/
def userHtml : Json → Option (List Char)
  | .obj fields => (fields.lookup "userHtml").bind Json.asString
  | _ => none

def initMarker : List Char := "goog.script.init(\"".toList

def initEnd : List Char := "\", \"\", undefined".toList

def extractAppsScriptUserHtml (crates : Crates) (text : List Char) :
    Except Fault (Option (List Char)) :=
  match find initMarker text with
  | none => .ok none
  | some found =>
      let start := found + ByteIndex.byteLen initMarker
      match ByteIndex.slice text start (ByteIndex.byteLen text) with
      | none => .error .panic
      | some behind =>
          match find initEnd behind with
          | none => .ok none
          | some stop =>
              match ByteIndex.slice text start (stop + start) with
              | none => .error .panic
              | some encoded =>
                  (decodeJsStringEscapes encoded).map fun decoded =>
                    (decoded.bind crates.value).bind userHtml

/-! ## Header values -/

/-- `header_string_value`: the strings of an array are joined. -/
def headerStringValue : Json → Option (List Char)
  | .str s => some s
  | .arr items =>
      let parts := items.filterMap Json.asString
      if parts.isEmpty then none else some (List.intercalate ", ".toList parts)
  | _ => none

def valueToHeaderStr (crates : Crates) : Json → Option (List Char)
  | .str s => some s
  | .int n => some (toString n).toList
  | .real literal => some (crates.floatText literal)
  | .bool b => some (toString b).toList
  | _ => none

/-- The first content coding that the headers name. -/
def contentEncoding (h : Object) : Option (List Char) :=
  (h.find? fun (k, _) => eqIgnoreAsciiCase k.toList "content-encoding".toList).bind fun (_, v) =>
    headerStringValue v

/-- The codings in the value, without `identity`. -/
def encodingTokens (raw : List Char) : List (List Char) :=
  ((raw.splitOn ',').map fun t => toAsciiLowercase (Drive.trim t)).filter fun t =>
    !t.isEmpty && t ≠ "identity".toList

/-- The body that is delivered, and whether its `Content-Encoding` is left out. -/
structure Coded where
  body : List UInt8
  strip : Bool

/-- The coding is left out if the body can be decoded. -/
def tryDecode (decode : List UInt8 → Option (List UInt8)) (body : List UInt8) : Coded :=
  match decode body with
  | some decoded => ⟨decoded, true⟩
  | none => ⟨body, false⟩

def isSkipped (baseSkip : List String) (strip : Bool) (k : String) : Bool :=
  let lk := toAsciiLowercase k.toList
  baseSkip.any (fun s => s.toList = lk) || (strip && lk = "content-encoding".toList)

/-- The headers that are written, each with the values of its JSON value. -/
def fields (values : Json → List (List Char)) (baseSkip : List String) (strip : Bool) (h : Object) :
    Headers :=
  h.flatMap fun (k, v) =>
    if isSkipped baseSkip strip k then [] else (values v).map fun value => (k.toList, value)

/-- The raw response: the status line, the headers, `Content-Length`, and the body. -/
def rawResponse (status : Nat) (reason : String) (headers : Headers) (body : List UInt8) :
    List UInt8 :=
  utf8 ("HTTP/1.1 ".toList ++ Nat.toDigits 10 status ++ ' ' :: reason.toList ++ "\r\n".toList) ++
    headers.flatMap (fun (k, v) => utf8 (k ++ ": ".toList ++ v ++ "\r\n".toList)) ++
    utf8 ("Content-Length: ".toList ++ Nat.toDigits 10 body.length ++ "\r\n\r\n".toList) ++ body

/-! ## The envelope of the relay -/

def statusText : Nat → String
  | 200 => "OK"
  | 201 => "Created"
  | 204 => "No Content"
  | 206 => "Partial Content"
  | 301 => "Moved Permanently"
  | 302 => "Found"
  | 303 => "See Other"
  | 304 => "Not Modified"
  | 307 => "Temporary Redirect"
  | 308 => "Permanent Redirect"
  | 400 => "Bad Request"
  | 401 => "Unauthorized"
  | 403 => "Forbidden"
  | 404 => "Not Found"
  | 500 => "Internal Server Error"
  | 502 => "Bad Gateway"
  | 504 => "Gateway Timeout"
  | _ => "OK"

/-- The envelope in the body of the relay's answer. -/
def relayData (crates : Crates) (body : List UInt8) : Except Fault RelayResponse :=
  match fromUtf8 body with
  | none => .error (badResponse "non-utf8 json")
  | some text =>
      let text := Drive.trim text
      if text.isEmpty then .error (badResponse "empty relay body")
      else
        match crates.relayResponse text with
        | .ok data => .ok data
        | .error _ =>
            match extractAppsScriptUserHtml crates text with
            | .error e => .error e
            | .ok (some unwrapped) =>
                match crates.relayResponse unwrapped with
                | .ok data => .ok data
                | .error _ => .error (quoted "no json in apps_script user_html: " unwrapped)
            | .ok none =>
                match bracedJson (quoted "no json in: ") (quoted "no json end in: ") text with
                | .error e => .error e
                | .ok json =>
                    match crates.relayResponse json with
                    | .ok data => .ok data
                    | .error e => .error (.error (.json e))

/-- Apps Script has decoded `gzip`; what it does not decode keeps its header. -/
def relayCoded (crates : Crates) (allowBrotliZstd : Bool) (h : Option Object) (body : List UInt8) :
    Coded :=
  if body.isEmpty then ⟨body, true⟩
  else
    match h.bind contentEncoding with
    | none => ⟨body, true⟩
    | some raw =>
        match encodingTokens raw with
        | [] => ⟨body, true⟩
        | [token] =>
            if token = "gzip".toList then ⟨body, true⟩
            else if token = "br".toList ∧ allowBrotliZstd then tryDecode crates.decodeBrotli body
            else if token = "zstd".toList ∧ allowBrotliZstd then tryDecode crates.decodeZstd body
            else ⟨body, false⟩
        | _ => ⟨body, false⟩

def relayBaseSkip : List String :=
  ["transfer-encoding", "connection", "keep-alive", "content-length"]

/-- Each item of an array is a header of its own. -/
def relayValues (crates : Crates) : Json → List (List Char)
  | .arr items => items.filterMap (valueToHeaderStr crates)
  | other => (valueToHeaderStr crates other).toList

/-- The body of an envelope. -/
def decodedBody (failure : List Char → Fault) (b : Option (List Char)) :
    Except Fault (List UInt8) :=
  match b with
  | none => .ok []
  | some b =>
      match Base64.decode b with
      | some body => .ok body
      | none => .error (failure b)

/-- The raw response for an envelope. -/
def relayRaw (crates : Crates) (allowBrotliZstd : Bool) (data : RelayResponse) :
    Except Fault (List UInt8) :=
  match data.e with
  | some e => .error (relayError (String.ofList e))
  | none =>
      let status := (data.s.getD 200).toNat
      (decodedBody (fun b => badResponse ("bad relay body base64: " ++ crates.base64Error b))
        data.b).map fun body =>
          let coded := relayCoded crates allowBrotliZstd data.h body
          rawResponse status (statusText status)
            (fields (relayValues crates) relayBaseSkip coded.strip (data.h.getD [])) coded.body

def parseRelayJson (crates : Crates) (allowBrotliZstd : Bool) (body : List UInt8) :
    Except Fault (List UInt8) :=
  match relayData crates body with
  | .error e => .error e
  | .ok data => relayRaw crates allowBrotliZstd data

/-! ## The envelope of the exit node -/

def statusReason : Nat → String
  | 200 => "OK"
  | 201 => "Created"
  | 204 => "No Content"
  | 301 => "Moved Permanently"
  | 302 => "Found"
  | 303 => "See Other"
  | 304 => "Not Modified"
  | 307 => "Temporary Redirect"
  | 308 => "Permanent Redirect"
  | 400 => "Bad Request"
  | 401 => "Unauthorized"
  | 403 => "Forbidden"
  | 404 => "Not Found"
  | 405 => "Method Not Allowed"
  | 408 => "Request Timeout"
  | 429 => "Too Many Requests"
  | 500 => "Internal Server Error"
  | 502 => "Bad Gateway"
  | 503 => "Service Unavailable"
  | 504 => "Gateway Timeout"
  | _ => "Status"

/-- `v.get(key)` -/
def get (v : Json) (key : String) : Option Json :=
  match v with
  | .obj fields => fields.lookup key
  | _ => none

def asObject : Json → Option Object
  | .obj fields => some fields
  | _ => none

def looksLikeExitNodeEnvelope (crates : Crates) (bytes : List UInt8) : Bool :=
  match crates.valueFromSlice bytes with
  | .error _ => false
  | .ok v =>
      ((get v "s").bind (Json.asUnsigned 64)).isSome && ((get v "h").bind asObject).isSome &&
        ((get v "b").bind Json.asString).isSome

def doubleWrapped : String :=
  "exit-node response was double-wrapped — at least one relay layer is still running pre-v2.0.2 " ++
  "code that ignores the `raw: true` flag. Redeploy BOTH of these:\n" ++
  "  1. Apps Script: paste assets/apps_script/Code.gs (or Code.cfw.gs in CFW mode), then Deploy → " ++
  "Manage deployments → pencil icon → Version: New version → Deploy. Saving without cutting a new " ++
  "version keeps the old code live at /exec.\n" ++
  "  2. Cloudflare Worker (only in CFW mode): paste assets/cloudflare/worker.js, then click " ++
  "\"Save and deploy\" in the dashboard editor — \"Save\" alone only saves the draft.\n" ++
  "Pasting code is not enough on either platform; both require an explicit deploy click."

/-- `gzip` is decoded here as well; what is unknown keeps its header only with the flag. -/
def exitCoded (crates : Crates) (allowBrotliZstd : Bool) (h : Option Object) (body : List UInt8) :
    Coded :=
  if body.isEmpty then ⟨body, true⟩
  else
    match h.bind contentEncoding with
    | none => ⟨body, true⟩
    | some raw =>
        match encodingTokens raw with
        | [] => ⟨body, true⟩
        | [token] =>
            if token = "gzip".toList then tryDecode crates.decodeGzip body
            else if token = "br".toList ∧ allowBrotliZstd then tryDecode crates.decodeBrotli body
            else if token = "zstd".toList ∧ allowBrotliZstd then tryDecode crates.decodeZstd body
            else ⟨body, !allowBrotliZstd⟩
        | _ => ⟨body, !allowBrotliZstd⟩

def exitBaseSkip : List String :=
  ["content-length", "transfer-encoding", "connection", "keep-alive"]

/-- Only strings are written. -/
def exitValues (v : Json) : List (List Char) := v.asString.toList

/-- The JSON in the exit node's answer, behind an HTTP head if there is one. -/
def exitValue (crates : Crates) (body : List UInt8) : Except Fault Json :=
  let jsonStart := ((position (crlf ++ crlf) body).map (· + 4)).getD 0
  match slice body jsonStart body.length with
  | .error e => .error e
  | .ok jsonBytes =>
      match crates.valueFromSlice jsonBytes with
      | .ok v => .ok v
      | .error e =>
          match slice jsonBytes 0 (min jsonBytes.length 200) with
          | .error fault => .error fault
          | .ok cut =>
              .error (relayError ("exit-node response not valid JSON (" ++ e ++ "): " ++
                String.ofList (Udpgw.fromUtf8Lossy cut)))

/-- The raw response for what the exit node answered. -/
def exitRaw (crates : Crates) (allowBrotliZstd : Bool) (v : Json) : Except Fault (List UInt8) :=
  match (get v "e").bind Json.asString with
  | some message =>
      .error (relayError ("exit node refused or errored: " ++ String.ofList message))
  | none =>
      let status := (((get v "s").bind (Json.asUnsigned 64)).map (· % 2 ^ 16)).getD 502
      match decodedBody
          (fun b => relayError ("exit-node body base64 decode failed: " ++ crates.base64Error b))
          ((get v "b").bind Json.asString) with
      | .error e => .error e
      | .ok body =>
          if looksLikeExitNodeEnvelope crates body then .error (relayError doubleWrapped)
          else
            let h := (get v "h").bind asObject
            let coded := exitCoded crates allowBrotliZstd h body
            .ok (rawResponse status (statusReason status)
              (fields exitValues exitBaseSkip coded.strip (h.getD [])) coded.body)

def parseExitNodeResponse (crates : Crates) (allowBrotliZstd : Bool) (body : List UInt8) :
    Except Fault (List UInt8) :=
  match exitValue crates body with
  | .error e => .error e
  | .ok v => exitRaw crates allowBrotliZstd v

/-! ## Taking a raw response apart -/

/-- `trim_end_matches('\r')` -/
def trimEndCr (line : List Char) : List Char := (line.reverse.dropWhile (· = '\r')).reverse

/-- The second word of a status line, which ends at the next space. -/
def statusCode (line : List Char) : Option Nat :=
  (splitOnce [' '] line).bind fun (_, rest) =>
    parseUnsigned (2 ^ 16)
      (match splitOnce [' '] rest with
      | some (code, _) => code
      | none => rest)

/-- `split_response`: the status, the headers and the body. -/
def splitResponse (raw : List UInt8) : Option (Nat × Headers × List UInt8) :=
  (position (crlf ++ crlf) raw).bind fun sepPos =>
    match (raw.take sepPos).splitOn 10 with
    | [] => none
    | statusLine :: lines =>
        (fromUtf8 statusLine).bind fun statusLine =>
          (statusCode (trimEndCr statusLine)).bind fun code =>
            (lines.mapM fromUtf8).map fun lines =>
              (code, (lines.map trimEndCr).filterMap fun line =>
                if line.isEmpty then none else parseHeaderLine line, raw.drop (sepPos + 4))

end Rahgozar.Fronter.Envelope
