import Rahgozar.Lib.Base64
import Mathlib.Tactic

set_option autoImplicit false

/-! # Requests of the Apps Script relay (`assets/apps_script/Code.gs`)

A request or a batch item is parsed JSON, of which nothing is known; `_buildOpts` makes the options
of a fetch from it. A call of a method that a value does not have throws. What the engine and
`Utilities` do with strings is a parameter of the model.
-/

namespace Rahgozar.AppsScript

/-! ## Values -/

/-- What `JSON.parse` returns. -/
inductive Json where
  | null
  | bool (b : Bool)
  | num (n : Rat)
  | str (s : String)
  | arr (items : List Json)
  | obj (fields : List (String × Json))

namespace Json

/-- Whether a value counts as true. -/
def truthy : Json → Bool
  | null => false
  | bool b => b
  | num n => n != 0
  | str s => s != ""
  | arr _ => true
  | obj _ => true

/-- `typeof v === "object"` of a value other than `null`. -/
def isObject : Json → Bool
  | arr _ => true
  | obj _ => true
  | _ => false

/-- A property of a value other than `null`, or `undefined`. -/
def get (v : Json) (key : String) : Option Json :=
  match v with
  | obj fields => fields.lookup key
  | _ => none

/-- The own enumerable properties, as `for (k in v)` goes through them. -/
def entries : Json → List (String × Json)
  | arr items => items.mapIdx fun i v => (toString i, v)
  | obj fields => fields
  | _ => []

/-- A property that counts as true. -/
def getTruthy (v : Json) (key : String) : Option Json := (v.get key).filter truthy

end Json

/-- The engine: the case mappings of strings, the text of a `TypeError`, and `Utilities`. -/
structure Engine where
  toLowerCase : String → String
  toUpperCase : String → String
  typeError : String
  base64Decode : Json → Except String (List UInt8)

/-- An engine that maps the letters of ASCII, and decodes base64 text. -/
def Engine.ascii : Engine where
  toLowerCase s := String.ofList (s.toList.map Char.toLower)
  toUpperCase s := String.ofList (s.toList.map Char.toUpper)
  typeError := "TypeError"
  base64Decode
    | .str s =>
        match Base64.decode s.toList with
        | some bytes => .ok bytes
        | none => .error "Exception: Could not decode string."
    | _ => .error "Exception: Invalid argument"

/-- What a table literal inherits under a key in lower case. -/
def objectPrototype : List String := ["constructor", "__proto__"]

/-- `TABLE[key]` of a table with these keys, each with the value 1. -/
def inTable (table : List String) (key : String) : Bool :=
  table.contains key || objectPrototype.contains key

def skipHeaders : List String :=
  ["host", "connection", "content-length", "transfer-encoding", "proxy-connection",
    "proxy-authorization", "priority", "te", "x-forwarded-for", "x-forwarded-host",
    "x-forwarded-proto", "x-forwarded-port", "x-forwarded-server", "x-forwarded-ssl", "x-real-ip",
    "x-client-ip", "x-originating-ip", "true-client-ip", "cf-connecting-ip", "fastly-client-ip",
    "x-cluster-client-ip", "client-ip", "forwarded", "via"]

def safeReplayMethods : List String := ["GET", "HEAD", "OPTIONS"]

/-- `/^https?:\/\//i` -/
def urlRe (url : String) : Bool :=
  let text := (url.toList.take 8).map Char.toLower
  "http://".toList.isPrefixOf text || "https://".toList.isPrefixOf text

/-- The `u` of a request, when it is a URL. -/
def urlOf (req : Json) : Option String :=
  match req.get "u" with
  | some (.str url) => if url != "" && urlRe url then some url else none
  | _ => none

/-! ## The options of a fetch -/

/-- Options of `UrlFetchApp.fetch`; what is absent has its default. -/
structure FetchOpts where
  method : Option String
  muteHttpExceptions : Option Bool
  followRedirects : Option Bool
  validateHttpsCertificates : Option Bool
  escaping : Option Bool
  headers : Option (List (String × Json))
  payload : Option (List UInt8)
  contentType : Option Json

/-- A request in the shape of `fetchAll`: its options, and the URL. `_unpackFetchArg` takes it
apart. -/
structure FetchArg where
  url : String
  opts : FetchOpts

/-- A response of `UrlFetchApp`. -/
structure Response where
  code : Nat
  headers : Json
  content : List UInt8

section

variable (js : Engine)

/-- `(req.m || "GET").toLowerCase()` -/
def methodOf (req : Json) : Except String String :=
  match req.getTruthy "m" with
  | none => .ok (js.toLowerCase "GET")
  | some (.str m) => .ok (js.toLowerCase m)
  | some _ => .error js.typeError

/-- The headers that are passed on. The loop calls `hasOwnProperty` of the headers, which a header
can shadow. -/
def forwardedHeaders (h : Json) : Except String (List (String × Json)) :=
  if (h.get "hasOwnProperty").isSome then .error js.typeError
  else .ok (h.entries.filter fun (k, _) => !inTable skipHeaders (js.toLowerCase k))

/-- `req.h && typeof req.h === "object"` -/
def headersOf (req : Json) : Option Json := (req.get "h").filter Json.isObject

def buildOpts (req : Json) : Except String FetchOpts := do
  let method ← methodOf js req
  let headers ←
    match headersOf req with
    | none => pure none
    | some h => some <$> forwardedHeaders js h
  let payload ←
    match req.getTruthy "b" with
    | none => pure none
    | some b => some <$> js.base64Decode b
  pure {
    method := some method
    muteHttpExceptions := some true
    followRedirects := some (match req.get "r" with | some (.bool false) => false | _ => true)
    validateHttpsCertificates := some true
    escaping := some false
    headers := headers
    payload := payload
    contentType := if payload.isSome then req.getTruthy "ct" else none }

end

end Rahgozar.AppsScript
