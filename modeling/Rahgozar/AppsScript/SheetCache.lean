import Rahgozar.AppsScript.RelayBatch
import Rahgozar.AppsScript.EdgeDns
import Mathlib.Data.List.DropRight

set_option autoImplicit false

/-! # The spreadsheet cache (`assets/apps_script/Code.gs`)

`_doSingle` answers a public GET from a row of a spreadsheet. When there is none `_fetchAndCache`
fetches the URL and stores a row; when that returns `null` the plain relay path fetches the request.
The sheet is a circular buffer below a row of headings. A call of the spreadsheet service can throw;
the calls of one execution and the time of it are a parameter of each step.
-/

namespace Rahgozar.AppsScript

def cacheMaxRows : Nat := 5000

def cacheMaxBodyBytes : Nat := 35000

def cacheDefaultTtlSeconds : Nat := 86400

def negativeCacheStatuses : List Nat := [404, 410, 451]

def negativeCacheTtlSeconds : Nat := 300

def gzipMinBytes : Nat := 256

def varyKeyHeaders : List String := ["accept-encoding", "accept-language"]

def cacheBustingHeaders : List String :=
  ["authorization", "cookie", "x-api-key", "proxy-authorization", "set-cookie"]

/-- The template value of `CACHE_SPREADSHEET_ID`. -/
def unsetSpreadsheetId : String := "CHANGE_ME_TO_CACHE_SPREADSHEET_ID"

/-! ## What the script uses -/

/-- The engine, `Utilities`, and what is known of them: the texts of numbers, dates and JSON values,
the escaping of a URL, and what a cell gives back, and what it shows, for a text that was written to
it (one that reads as a number becomes one). A date is a number of milliseconds. -/
structure Platform extends Engine where
  cacheSpreadsheetId : String
  md5 : String → List UInt8
  numText : Rat → String
  stringify : Json → String
  isoText : Nat → String
  utcText : Nat → String
  dateText : Nat → String
  gzip : List UInt8 → List UInt8
  ungzip : List UInt8 → Except String (List UInt8)
  escapeUrl : String → String
  readCell : String → Json
  showCell : String → String
  toLowerCase_ascii : ∀ s : String, (s.toList.all fun c => decide (c.toNat < 128)) = true →
    toLowerCase s = String.ofList (s.toList.map Char.toLower)
  ungzip_gzip : ∀ bytes, ungzip (gzip bytes) = .ok bytes
  base64Decode_encode : ∀ bytes, base64Decode (.str (base64Encode bytes)) = .ok bytes

/-- What a fetch puts on the wire: the options, with the defaults of `UrlFetchApp` for those that
are absent. -/
structure Sent where
  method : String
  url : String
  headers : List (String × Json)
  payload : Option (List UInt8)
  contentType : Option Json
  followRedirects : Bool
  validateHttpsCertificates : Bool

def FetchArg.sent (pf : Platform) (arg : FetchArg) : Sent where
  method := arg.opts.method.getD "get"
  url := if arg.opts.escaping.getD true then pf.escapeUrl arg.url else arg.url
  headers := arg.opts.headers.getD []
  payload := arg.opts.payload
  contentType := arg.opts.contentType
  followRedirects := arg.opts.followRedirects.getD true
  validateHttpsCertificates := arg.opts.validateHttpsCertificates.getD true

/-- An origin answers what is sent to it; an error is what `UrlFetchApp` throws. Every fetch of the
relay mutes the exceptions of a status. -/
abbrev Origin := Sent → Except String Response

namespace Json

mutual

/-- `String(v)` -/
def text (numText : Rat → String) : Json → String
  | null => "null"
  | bool b => toString b
  | num n => numText n
  | str s => s
  | arr items => ",".intercalate (texts numText items)
  | obj _ => "[object Object]"

/-- The texts that the elements of an array are joined from. -/
def texts (numText : Rat → String) : List Json → List String
  | [] => []
  | null :: items => "" :: texts numText items
  | v :: items => text numText v :: texts numText items

end

/-- `v[key] = x` of an object. -/
def set (v : Json) (key : String) (x : Json) : Json :=
  match v with
  | obj fields =>
      if fields.any fun p => p.1 == key then
        obj (fields.map fun p => if p.1 == key then (key, x) else p)
      else obj (fields ++ [(key, x)])
  | v => v

/-- `v[key] || v[key']` -/
def getEither (v : Json) (key key' : String) : Option Json :=
  (v.getTruthy key).or (v.getTruthy key')

end Json

/-- The white space of `trim` and of `\s`. -/
def isSpace (c : Char) : Bool :=
  let n := c.toNat
  (9 ≤ n && n ≤ 13) || (0x2000 ≤ n && n ≤ 0x200A) ||
    [0x20, 0xA0, 0x1680, 0x2028, 0x2029, 0x202F, 0x205F, 0x3000, 0xFEFF].contains n

section

variable (pf : Platform)

/-! ## Keys and eligibility -/

def getHeaderCaseInsensitive (headers : Json) (targetKey : String) : Option Json :=
  (headers.entries.find? fun (k, _) => pf.toLowerCase k == pf.toLowerCase targetKey).map Prod.snd

/-- The part of the key for one header. Only a string has the method that makes it. -/
def keyPart (headers : Option Json) (headerName : String) : Except String String :=
  match headers.bind fun h => getHeaderCaseInsensitive pf h headerName with
  | none => .ok (headerName ++ ":<none>")
  | some rawValue =>
      if rawValue.truthy && !(rawValue.text pf.numText).toList.all isSpace then
        match rawValue with
        | .str s => .ok (headerName ++ ":" ++
            String.ofList ((pf.toLowerCase s).toList.filter fun c => !isSpace c))
        | _ => .error pf.typeError
      else .ok (headerName ++ ":<none>")

def md5Hex (input : String) : String := String.ofList ((pf.md5 input).flatMap hexByte)

/-- The key of a URL and the headers of a request, where it has any. -/
def getCacheKey (url : String) (headers : Option Json) : Except String String := do
  let parts ← varyKeyHeaders.mapM (keyPart pf headers)
  pure (md5Hex pf ("|".intercalate (url :: parts)))

/-- `(req.m || "GET") === "GET"` -/
def isGet (req : Json) : Bool :=
  match req.getTruthy "m" with
  | none => true
  | some (.str m) => m == "GET"
  | some _ => false

/-- A public GET, no body, no auth or cookie headers, cache configured. The loop over the headers
calls their `hasOwnProperty`. -/
def canUseCache (req : Json) : Except String Bool :=
  if !isGet req then .ok false
  else if (req.getTruthy "b").isSome then .ok false
  else if (urlOf req).isNone then .ok false
  else if pf.cacheSpreadsheetId = unsetSpreadsheetId then .ok false
  else
    match headersOf req with
    | none => .ok true
    | some h =>
        if (h.get "hasOwnProperty").isSome then .error pf.typeError
        else .ok (!h.entries.any fun (k, _) => inTable cacheBustingHeaders (pf.toLowerCase k))

/-! ## Headers of responses -/

/-- The text `needle` is found in the text `hay`. -/
def hasText (needle hay : List Char) : Bool := hay.tails.any fun t => needle.isPrefixOf t

/-- `/max-age=(\d+)/` -/
def maxAgeRe (lower : List Char) : Option Nat :=
  lower.tails.findSome? fun t =>
    if "max-age=".toList.isPrefixOf t then
      let digits := (t.drop 8).takeWhile Char.isDigit
      if digits.isEmpty then none else some (Nat.ofDigitChars 10 digits 0)
    else none

def parseMaxAge (cacheControlHeader : Option Json) : Except String Nat :=
  match cacheControlHeader with
  | none => .ok cacheDefaultTtlSeconds
  | some (.str s) =>
      let lower := (pf.toLowerCase s).toList
      if hasText "no-cache".toList lower || hasText "no-store".toList lower ||
          hasText "private".toList lower then .ok 0
      else
        match maxAgeRe lower with
        | some ttl => .ok (max 60 (min ttl 2592000))
        | none => .ok cacheDefaultTtlSeconds
  -- a header that came more than once is an array
  | some _ => .error pf.typeError

def cacheControlOf (headers : Json) : Option Json :=
  headers.getEither "Cache-Control" "cache-control"

def refreshCachedHeaders (headers : Json) (timestamp now : Nat) : Except String Json := do
  let ageSeconds := (now - timestamp) / 1000
  let headers := (headers.set "Date" (.str (pf.utcText now))).set "Age" (.str (toString ageSeconds))
  let originalCc := cacheControlOf headers
  let headers :=
    match originalCc with
    | some cc => headers.set "X-Original-Cache-Control" cc
    | none => headers
  let maxAge ← parseMaxAge pf originalCc
  let headers := headers.set "Cache-Control"
    (.str ("public, max-age=" ++ toString (maxAge - ageSeconds)))
  pure ((headers.set "X-Cache" (.str "HIT from relay-spreadsheet")).set "X-Cached-At"
    (.str (pf.utcText timestamp)))

/-- The response is compressed to be stored. -/
def gzips (resp : Response) : Bool :=
  let contentEncoding :=
    match resp.headers.getEither "Content-Encoding" "content-encoding" with
    | some v => pf.toLowerCase (v.text pf.numText)
    | none => pf.toLowerCase ""
  let alreadyEncoded := contentEncoding != "" && contentEncoding != "identity"
  !(alreadyEncoded || decide (resp.content.length < gzipMinBytes))

/-- The text of the `Body` cell. -/
def storedBody (resp : Response) : String :=
  if gzips pf resp then base64Encode (pf.gzip resp.content) else base64Encode resp.content

end

/-! ## The sheet -/

/-- `URL_Hash | URL | Status | Headers | Body | Timestamp | Expires_At | Z` -/
structure Row where
  hash : String
  url : String
  status : Nat
  headers : Json
  body : String
  timestamp : Nat
  expiresAt : Nat
  z : Bool

/-- The rows below the headings, `none` where one is blank, and the cell with the cursor, `none`
when it holds no number. -/
structure Sheet where
  rows : List (Option Row)
  cursor : Option Nat

/-- The calls of the spreadsheet service, and of `Utilities.gzip`, that one execution can make. -/
inductive Call where
  | openForLookup
  | findNext
  | openForStore
  | gzip
  | openMeta
  | ensureRowsAllocated
  | getNextCursor
  | setValues
  | advanceCursor
  | appendRow
  deriving DecidableEq

/-- One execution of the script: which calls succeed, what the others throw, and the time. -/
structure Execution where
  ok : Call → Bool
  thrown : Call → String
  now : Nat

namespace Row

/-- What the cells of a row show. -/
def cells (pf : Platform) (row : Row) : List String :=
  [pf.showCell row.hash, pf.showCell row.url, toString row.status,
    pf.showCell (pf.stringify row.headers), pf.showCell row.body,
    pf.showCell (pf.isoText row.timestamp), pf.dateText row.expiresAt, if row.z then "1" else "0"]

/-- The `b` field that a row is served with. -/
def bodyField (pf : Platform) (row : Row) : Except String Json :=
  if row.z then do
    let gzipped ← pf.base64Decode (pf.readCell row.body)
    let raw ← pf.ungzip gzipped
    pure (.str (base64Encode raw))
  else .ok (pf.readCell row.body)

end Row

namespace Sheet

def empty : Sheet := ⟨[], some 2⟩

/-- `getDataRange().getNumRows()`: up to the last row with content, the headings included. -/
def numRows (sheet : Sheet) : Nat := 1 + (sheet.rows.rdropWhile Option.isNone).length

/-- `findNext()` of a finder of this text: the first row with a cell that shows it, in whatever
column. The finder takes no account of letter case. A digest is none of the headings. -/
def findRow (pf : Platform) (sheet : Sheet) (text : String) : Option Row :=
  (sheet.rows.filterMap id).find? fun row =>
    (row.cells pf).any fun cell => pf.toLowerCase cell == pf.toLowerCase text

/-- The row with this number, counted from 1 for the headings, is written. -/
def setRow (sheet : Sheet) (n : Nat) (row : Row) : Sheet :=
  if n - 2 < sheet.rows.length then { sheet with rows := sheet.rows.set (n - 2) (some row) }
  else
    { sheet with
      rows := sheet.rows ++ List.replicate (n - 2 - sheet.rows.length) none ++ [some row] }

def getNextCursor (sheet : Sheet) : Nat :=
  if sheet.numRows < cacheMaxRows + 1 then sheet.numRows + 1
  else match sheet.cursor with
    | some cursor => if cursor < 2 then 2 else cursor
    | none => 2

def advanceCursor (sheet : Sheet) (currentRow : Nat) : Sheet :=
  { sheet with cursor := some (if cacheMaxRows + 1 < currentRow + 1 then 2 else currentRow + 1) }

/-- The row is stored, or a call throws; a row is there from `setValues` on. `_ensureRowsAllocated`
adds blank rows at the end. -/
def writeRow (x : Execution) (sheet : Sheet) (row : Row) : Sheet × Bool :=
  if x.ok .openMeta then
    if x.ok .ensureRowsAllocated && x.ok .getNextCursor && x.ok .setValues then
      let n := sheet.getNextCursor
      if x.ok .advanceCursor then ((sheet.setRow n row).advanceCursor n, true)
      else (sheet.setRow n row, false)
    else (sheet, false)
  else if x.ok .appendRow then (sheet.setRow (sheet.numRows + 1) row, true)
  else (sheet, false)

def clearExpiredCache (sheet : Sheet) (now : Nat) : Sheet :=
  { sheet with rows := sheet.rows.map fun r => r.filter fun row => !decide (row.expiresAt < now) }

def clearEntireCache : Sheet := ⟨[], some 2⟩

end Sheet

/-! ## Requests -/

/-- What the script returns: a JSON object, or a text. -/
inductive Output where
  | json (v : Json)
  | text (content : List UInt8)

/-- A field of the object that is returned. -/
def Output.field : Output → String → Option Json
  | json v, key => v.get key
  | text _, _ => none

/-- What `_getFromCache` came to. -/
inductive Lookup where
  | unused
  | threw
  | hit
  | miss
  deriving DecidableEq

/-- A request, what was returned or thrown, and the calls of `UrlFetchApp.fetch` for it. -/
structure Served where
  req : Json
  lookup : Lookup
  output : Except String Output
  fetches : List FetchArg

/-- `{s, h, b, cached}` -/
def cacheEntry (status : Nat) (headers body : Json) (cached : Bool) : Json :=
  .obj [("s", .num status), ("h", headers), ("b", body), ("cached", .bool cached)]

section

variable (pf : Platform)

/-- The row of a request, when there is one that has not expired. -/
def findInCache (x : Execution) (sheet : Sheet) (url : String) (headers : Option Json) :
    Except String (Option Row) :=
  if !x.ok .openForLookup then .ok none
  else
    match getCacheKey pf url headers with
    | .error err => .error err
    | .ok hash =>
        if !x.ok .findNext then .error (x.thrown .findNext)
        else .ok ((sheet.findRow pf hash).filter fun row => !decide (row.expiresAt < x.now))

/-- `_getFromCache`: the status, the headers and the body that are served from a row. -/
def getFromCache (x : Execution) (sheet : Sheet) (url : String) (headers : Option Json) :
    Except String (Option (Nat × Json × Json)) := do
  match ← findInCache pf x sheet url headers with
  | none => pure none
  | some row =>
      let body ← row.bodyField pf
      let fresh ← refreshCachedHeaders pf row.headers row.timestamp x.now
      pure (some (row.status, fresh, body))

/-- How long a response is stored, in seconds. -/
def ttlSeconds (resp : Response) : Except String Nat := do
  let ttl ← parseMaxAge pf (cacheControlOf resp.headers)
  if ttl = 0 then pure 0
  else if negativeCacheStatuses.contains resp.code && (cacheControlOf resp.headers).isNone then
    pure negativeCacheTtlSeconds
  else pure ttl

/-- What `_fetchAndCache` does after `liveResult`: the sheet, and whether the end is reached without
a throw. -/
def store (x : Execution) (sheet : Sheet) (url : String) (headers : Option Json) (resp : Response) :
    Sheet × Bool :=
  -- 5xx never enters the cache
  if 500 ≤ resp.code then (sheet, true)
  else
    match ttlSeconds pf resp with
    | .error _ => (sheet, false)
    | .ok ttl =>
        if ttl = 0 then (sheet, true)
        else if gzips pf resp && !x.ok .gzip then (sheet, false)
        else if cacheMaxBodyBytes < (storedBody pf resp).length then (sheet, true)
        else
          match getCacheKey pf url headers with
          | .error _ => (sheet, false)
          | .ok hash =>
              sheet.writeRow x {
                hash := hash
                url := url
                status := resp.code
                headers := resp.headers
                body := storedBody pf resp
                timestamp := x.now
                expiresAt := x.now + ttl * 1000
                z := gzips pf resp }

/-- The options of the fetch of `_fetchAndCache`. -/
def cacheOpts : FetchOpts where
  method := none
  muteHttpExceptions := some true
  followRedirects := none
  validateHttpsCertificates := none
  escaping := none
  headers := none
  payload := none
  contentType := none

variable (origin : Origin)

/-- `_fetchAndCache`: the live result or `null`, the fetches, and the sheet. -/
def fetchAndCache (x : Execution) (sheet : Sheet) (url : String) (headers : Option Json) :
    Option Response × List FetchArg × Sheet :=
  if !x.ok .openForStore then (none, [], sheet)
  else
    let arg : FetchArg := ⟨url, cacheOpts⟩
    match origin (arg.sent pf) with
    | .error _ => (none, [arg], sheet)
    | .ok resp =>
        match store pf x sheet url headers resp with
        | (sheet, true) => (some resp, [arg], sheet)
        | (sheet, false) => (none, [arg], sheet)

/-- The normal relay path, and its fetches. -/
def relayPlain (url : String) (req : Json) : Output × List FetchArg :=
  match buildOpts pf.toEngine req with
  | .error err => (.json (errorEntry (.str ("fetch failed: " ++ err))), [])
  | .ok opts =>
      let arg : FetchArg := ⟨url, opts⟩
      match origin (arg.sent pf) with
      | .error err => (.json (errorEntry (.str ("fetch failed: " ++ err))), [arg])
      | .ok resp =>
          match req.get "raw" with
          | some (.bool true) => (.text resp.content, [arg])
          | _ => (.json (answerEntry resp), [arg])

/-- The cache path of `_doSingle`, and what comes after it. -/
def doCached (x : Execution) (sheet : Sheet) (url : String) (req : Json) : Served × Sheet :=
  match getFromCache pf x sheet url (headersOf req) with
  | .error err => (⟨req, .threw, .error err, []⟩, sheet)
  | .ok (some (status, headers, body)) =>
      (⟨req, .hit, .ok (.json (cacheEntry status headers body true)), []⟩, sheet)
  | .ok none =>
      match fetchAndCache pf origin x sheet url (headersOf req) with
      | (some resp, fetches, sheet) =>
          (⟨req, .miss, .ok (.json (cacheEntry resp.code resp.headers
            (.str (base64Encode resp.content)) false)), fetches⟩, sheet)
      | (none, fetches, sheet) =>
          let (output, more) := relayPlain pf origin url req
          (⟨req, .miss, .ok output, fetches ++ more⟩, sheet)

def doSingle (x : Execution) (sheet : Sheet) (req : Json) : Served × Sheet :=
  match urlOf req with
  | none => (⟨req, .unused, .ok (.json (errorEntry (.str "bad url"))), []⟩, sheet)
  | some url =>
      match canUseCache pf req with
      | .error err => (⟨req, .unused, .error err, []⟩, sheet)
      | .ok false =>
          let (output, fetches) := relayPlain pf origin url req
          (⟨req, .unused, .ok output, fetches⟩, sheet)
      | .ok true => doCached pf origin x sheet url req

end

end Rahgozar.AppsScript
