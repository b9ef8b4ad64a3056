import Rahgozar.Lib.Segments
import Rahgozar.Tunnel.Udpgw
import Rahgozar.Proxy.Routing

set_option autoImplicit false

/-! # Requests on a MITM connection (`src/proxy_server.rs`)

What `handle_mitm_request` reads from the decrypted stream: the head of a request, up to the first
empty line, and its body, by length or in chunks. Each of the readers reads into a buffer of its
own, and returns what it needs of it. A connection is the list of the segments in which the client's
bytes arrive.
-/

namespace Rahgozar.Proxy.Mitm

open Drive (trim splitOnce parseUnsigned)
open Udpgw (utf8CharWidth isContinuation validSecond)
open Segments (fill position)

def maxHeaderBytes : Nat := 64 * 1024

def maxRequestBodyBytes : Nat := 32 * 1024 * 1024

/-- The segments that have not been read. -/
abbrev Conn := List (List UInt8)

abbrev Headers := List (List Char × List Char)

inductive IoError where
  | unexpectedEof (message : String)
  | invalidData (message : String)
  | fileTooLarge
  | writeFailed (message : String)
deriving DecidableEq

/-! ## Text -/

/-- `str::from_utf8` -/
def fromUtf8 : List UInt8 → Option (List Char)
  | [] => some []
  | b0 :: r0 =>
      match utf8CharWidth b0, r0 with
      | 1, r0 => (fromUtf8 r0).map fun text => Char.ofNat b0.toNat :: text
      | 2, b1 :: r1 =>
          if isContinuation b1 then
            (fromUtf8 r1).map fun text =>
              Char.ofNat ((b0.toNat % 32) * 64 + b1.toNat % 64) :: text
          else none
      | 3, b1 :: b2 :: r2 =>
          if validSecond b0 b1 && isContinuation b2 then
            (fromUtf8 r2).map fun text =>
              Char.ofNat ((b0.toNat % 16) * 4096 + (b1.toNat % 64) * 64 + b2.toNat % 64) :: text
          else none
      | 4, b1 :: b2 :: b3 :: r3 =>
          if validSecond b0 b1 && isContinuation b2 && isContinuation b3 then
            (fromUtf8 r3).map fun text =>
              Char.ofNat ((b0.toNat % 8) * 262144 + (b1.toNat % 64) * 4096
                + (b2.toNat % 64) * 64 + b3.toNat % 64) :: text
          else none
      | _, _ => none

def eqIgnoreAsciiCase (a b : List Char) : Bool := toAsciiLowercase a = toAsciiLowercase b

/-- `split("\r\n")` -/
def splitCrlf : List Char → List (List Char)
  | [] => [[]]
  | '\r' :: '\n' :: rest => [] :: splitCrlf rest
  | c :: rest =>
      match splitCrlf rest with
      | [] => [[c]]
      | line :: lines => (c :: line) :: lines

/-- The value of a hexadecimal digit. -/
def hexDigit (c : Char) : Option Nat :=
  if '0' ≤ c ∧ c ≤ '9' then some (c.toNat - '0'.toNat)
  else if 'a' ≤ c ∧ c ≤ 'f' then some (c.toNat - 'a'.toNat + 10)
  else if 'A' ≤ c ∧ c ≤ 'F' then some (c.toNat - 'A'.toNat + 10)
  else none

/-- `usize::from_str_radix(text, 16)` -/
def fromStrRadix16 (text : List Char) : Option Nat :=
  let digits := match text with
    | '+' :: rest => rest
    | _ => text
  if digits.isEmpty then none
  else
    (digits.mapM hexDigit).bind fun values =>
      let n := values.foldl (fun acc d => acc * 16 + d) 0
      if n < 2 ^ 64 then some n else none

/-! ## Heads -/

def crlf : List UInt8 := [13, 10]

def findHeadersEnd (buf : List UInt8) : Option Nat := (position (crlf ++ crlf) buf).map (· + 4)

structure RequestHead where
  method : List Char
  target : List Char
  version : List Char
  headers : Headers
deriving DecidableEq

def validHttpMethods : List String :=
  ["GET", "POST", "PUT", "DELETE", "HEAD", "OPTIONS", "PATCH", "TRACE", "CONNECT"]

def isValidHttpMethod (m : List Char) : Bool := validHttpMethods.any fun s => s.toList = m

/-- `splitn(3, ' ')` of the first line: the method, the target and the version. -/
def requestLine (first : List Char) : Option (List Char × List Char × List Char) :=
  (splitOnce [' '] first).map fun (method, rest) =>
    match splitOnce [' '] rest with
    | some (target, version) => (method, target, version)
    | none => (method, rest, "HTTP/1.1".toList)

def parseHeaderLine (line : List Char) : Option (List Char × List Char) :=
  (splitOnce [':'] line).map fun (k, v) => (trim k, trim v)

def parseRequestHead (head : List UInt8) : Option RequestHead :=
  (fromUtf8 head).bind fun s =>
    match splitCrlf s with
    | [] => none
    | first :: lines =>
        (requestLine first).bind fun (method, target, version) =>
          if !isValidHttpMethod method then none
          else
            some ⟨method, target, version,
              (lines.takeWhile fun l => !l.isEmpty).filterMap parseHeaderLine⟩

inductive HeadReadResult where
  | got (head leftover : List UInt8)
  | closed
  | oversized

def readHttpHeadIo (conn : Conn) : Except IoError (HeadReadResult × Conn) :=
  let f := fill 4096
    (fun buf => (findHeadersEnd buf).isSome || decide (maxHeaderBytes < buf.length)) [] conn
  if f.eof then
    if f.buf.isEmpty then .ok (.closed, f.rest) else .error (.unexpectedEof "EOF mid-header")
  else
    match findHeadersEnd f.buf with
    | some pos => .ok (.got (f.buf.take pos) (f.buf.drop pos), f.rest)
    | none => .ok (.oversized, f.rest)

/-! ## Bodies -/

def headerValue (headers : Headers) (name : String) : Option (List Char) :=
  (headers.find? fun (k, _) => eqIgnoreAsciiCase k name.toList).map Prod.snd

/-- One of the parts between commas is this word. -/
def hasPart (v : List Char) (word : String) : Bool :=
  (v.splitOn ',').any fun part => eqIgnoreAsciiCase (trim part) word.toList

def expects100Continue (headers : Headers) : Bool :=
  match headerValue headers "expect" with
  | some v => hasPart v "100-continue"
  | none => false

def eofInChunkedBody : IoError := .unexpectedEof "EOF in chunked body"

def readCrlfLine (buf : List UInt8) (conn : Conn) :
    Except IoError (List UInt8 × List UInt8 × Conn) :=
  let f := fill 8192 (fun buf => (position crlf buf).isSome) buf conn
  if f.eof then .error eofInChunkedBody
  else
    match position crlf f.buf with
    | some idx => .ok (f.buf.take idx, f.buf.drop (idx + 2), f.rest)
    | none => .error eofInChunkedBody

def fillBuffer (want : Nat) (buf : List UInt8) (conn : Conn) :
    Except IoError (List UInt8 × Conn) :=
  let f := fill 8192 (fun buf => decide (want ≤ buf.length)) buf conn
  if f.eof then .error eofInChunkedBody else .ok (f.buf, f.rest)

/-- The size in the first line of a chunk. -/
def chunkSize (line : List UInt8) : Except IoError Nat :=
  match fromUtf8 line with
  | none => .error (.invalidData "non-utf8 chunk size line")
  | some text =>
      let lineStr := trim text
      match fromStrRadix16 (lineStr.takeWhile (· ≠ ';')) with
      | some size => .ok size
      | none => .error (.invalidData ("bad chunk size '" ++ String.ofList lineStr ++ "'"))

/-- The lines up to an empty one are read over. What is left in the buffer goes with it. -/
def readTrailers : (fuel : Nat) → List UInt8 → Conn → Except IoError Conn
  | 0, _, _ => .error eofInChunkedBody
  | fuel + 1, buf, conn =>
      match readCrlfLine buf conn with
      | .error e => .error e
      | .ok (trailer, buf, conn) => if trailer.isEmpty then .ok conn else readTrailers fuel buf conn

/-- The loop of `read_chunked_request_body`; `fuel` bounds the lines that are left. -/
def readChunks : (fuel : Nat) → (out buf : List UInt8) → Conn → Except IoError (List UInt8 × Conn)
  | 0, _, _, _ => .error eofInChunkedBody
  | fuel + 1, out, buf, conn =>
      match readCrlfLine buf conn with
      | .error e => .error e
      | .ok (line, buf, conn) =>
          if line.isEmpty then readChunks fuel out buf conn
          else
            match chunkSize line with
            | .error e => .error e
            | .ok size =>
                if size = 0 then (readTrailers fuel buf conn).map fun conn => (out, conn)
                else if maxRequestBodyBytes < out.length + size then .error .fileTooLarge
                else
                  match fillBuffer (size + 2) buf conn with
                  | .error e => .error e
                  | .ok (buf, conn) =>
                      if (buf.drop size).take 2 ≠ crlf then
                        .error (.invalidData "chunk missing trailing CRLF")
                      else readChunks fuel (out ++ buf.take size) (buf.drop (size + 2)) conn

def readChunkedRequestBody (buf : List UInt8) (conn : Conn) : Except IoError (List UInt8 × Conn) :=
  readChunks (buf.length + conn.flatten.length + 1) [] buf conn

/-- A body, and whether `100 Continue` was written before it was read. -/
structure Body where
  bytes : List UInt8
  continued : Bool

def contentLengthOf (headers : Headers) : Except IoError (Option Nat) :=
  match headerValue headers "content-length" with
  | none => .ok none
  | some v =>
      match parseUnsigned (2 ^ 64) v with
      | some n => .ok (some n)
      | none => .error (.invalidData ("invalid Content-Length: " ++ String.ofList v))

def readBody (leftover : List UInt8) (headers : Headers) (conn : Conn) :
    Except IoError (Body × Conn) :=
  let transferEncoding := headerValue headers "transfer-encoding"
  let isChunked := transferEncoding.any fun v => hasPart v "chunked"
  match contentLengthOf headers with
  | .error e => .error e
  | .ok contentLength =>
      if transferEncoding.isSome && !isChunked then
        .error (.invalidData
          ("unsupported Transfer-Encoding: " ++ String.ofList (transferEncoding.getD [])))
      else if isChunked && contentLength.isSome then
        .error (.invalidData "both Transfer-Encoding: chunked and Content-Length are present")
      else
        let continued := expects100Continue headers && (isChunked || contentLength.isSome)
        if isChunked then
          (readChunkedRequestBody leftover conn).map fun (bytes, conn) => (⟨bytes, continued⟩, conn)
        else
          match contentLength with
          | none => .ok (⟨[], continued⟩, conn)
          | some contentLength =>
              if maxRequestBodyBytes < contentLength then .error .fileTooLarge
              else
                -- what the last read brings beyond the length is not kept
                let f := fill 8192 (fun body => decide (contentLength ≤ body.length))
                  (leftover.take contentLength) conn
                if f.eof then .error (.unexpectedEof "EOF mid-body")
                else .ok (⟨f.buf.take contentLength, continued⟩, f.rest)

/-! ## What the readers return

The bytes that are wanted come first in `buf ++ mine.flatten`, and `later` is not touched. -/

section

variable {buf rest line : List UInt8} {mine later : Conn}

theorem take_of_append_eq {b r s : List UInt8} (h : b ++ r = s) {k : Nat} (hk : k ≤ b.length) :
    b.take k = s.take k ∧ b.drop k ++ r = s.drop k := by
  rw [← h, List.take_append_of_le_length hk, List.drop_append_of_le_length hk]
  exact ⟨rfl, rfl⟩

theorem readCrlfLine_append (later : Conn) (hpos : ∀ seg ∈ mine, seg ≠ [])
    (hline : position crlf line = none)
    (hdata : buf ++ mine.flatten = line ++ (crlf ++ rest)) :
    ∃ buf' got mine', readCrlfLine buf (mine ++ later) = .ok (line, buf', mine' ++ later) ∧
      buf' ++ mine'.flatten = rest ∧ Segments.Taken 4096 mine got mine' := by
  have hfirst : position crlf (buf ++ mine.flatten) = some line.length := by
    rw [hdata]
    exact Segments.position_separator (by decide) hline rest
  obtain ⟨got, mine', hfill, hfound, hle, htaken⟩ := Segments.fill_position (m := 4096) 8192
    (fun buf => (position crlf buf).isSome) buf later (by decide) (by decide) hpos (by decide)
    hfirst (fun _ _ => rfl)
  have hread : buf ++ got ++ mine'.flatten = line ++ (crlf ++ rest) := (htaken.data buf).trans hdata
  have hle : line.length + 2 ≤ (buf ++ got).length := hle
  refine ⟨(buf ++ got).drop (line.length + 2), got, mine', ?_, ?_, htaken⟩
  · unfold readCrlfLine
    rw [hfill]
    dsimp only
    rw [hfound, if_neg Bool.false_ne_true]
    dsimp only
    rw [(take_of_append_eq hread (by omega)).1, List.take_left]
  · rw [(take_of_append_eq hread hle).2, ← List.drop_drop, List.drop_left]
    rfl

theorem fillBuffer_append {want : Nat} (later : Conn) (hpos : ∀ seg ∈ mine, seg ≠ [])
    (hwant : want ≤ (buf ++ mine.flatten).length) :
    ∃ buf' got mine', fillBuffer want buf (mine ++ later) = .ok (buf', mine' ++ later) ∧
      want ≤ buf'.length ∧ buf' ++ mine'.flatten = buf ++ mine.flatten ∧
      Segments.Taken 4096 mine got mine' := by
  obtain ⟨got, mine', hfill, hle, htaken⟩ := Segments.fill_append (m := 4096)
    8192 (fun buf => decide (want ≤ buf.length)) buf later (N := want) (by decide) (by decide) hpos
    hwant (fun n hn => by rw [List.length_take, Nat.min_eq_left hn])
  refine ⟨buf ++ got, got, mine', ?_, hle, ?_, htaken⟩
  · unfold fillBuffer
    rw [hfill]
    rfl
  · exact htaken.data buf

/-- The head is read up to its end, with some of what comes after it. -/
theorem readHttpHeadIo_append {head : List UInt8} (later : Conn)
    (hpos : ∀ seg ∈ mine, seg ≠ []) (hends : findHeadersEnd head = some head.length)
    (hfits : head.length ≤ maxHeaderBytes) (hdata : mine.flatten = head ++ rest) :
    ∃ leftover got mine',
      readHttpHeadIo (mine ++ later) = .ok (.got head leftover, mine' ++ later) ∧
      leftover ++ mine'.flatten = rest ∧ Segments.Taken 4096 mine got mine' := by
  obtain ⟨i, hi, hlength⟩ := Option.map_eq_some_iff.mp hends
  have hfirst : position (crlf ++ crlf) ([] ++ mine.flatten) = some i := by
    rw [List.nil_append, hdata]
    exact Segments.position_append hi rest
  -- the cap is not reached before the end of the head
  have hdone : ∀ b, b <+: [] ++ mine.flatten →
      ((findHeadersEnd b).isSome || decide (maxHeaderBytes < b.length))
        = (position (crlf ++ crlf) b).isSome := by
    intro b hb
    unfold findHeadersEnd
    rw [Option.isSome_map]
    by_cases hlong : maxHeaderBytes < b.length
    · have hpat : (crlf ++ crlf).length = 4 := rfl
      have hfound : position (crlf ++ crlf) b = some i := by
        rw [List.prefix_iff_eq_take.mp hb, Segments.position_take (by decide) hfirst, hpat]
        exact if_pos (by omega)
      rw [hfound]
      rfl
    · rw [decide_eq_false hlong, Bool.or_false]
  obtain ⟨got, mine', hfill, hfound, hle, htaken⟩ := Segments.fill_position (m := 4096) 4096
    (fun buf => (findHeadersEnd buf).isSome || decide (maxHeaderBytes < buf.length)) [] later
    (by decide) (by decide) hpos (by decide) hfirst hdone
  rw [List.nil_append] at hfill hfound hle
  have hle : head.length ≤ got.length := hlength ▸ hle
  have hread : got ++ mine'.flatten = head ++ rest := htaken.flatten.trans hdata
  have hend : findHeadersEnd got = some head.length := by
    unfold findHeadersEnd
    rw [hfound, Option.map_some, hlength]
  refine ⟨got.drop head.length, got, mine', ?_, ?_, htaken⟩
  · unfold readHttpHeadIo
    rw [hfill]
    dsimp only
    rw [hend, if_neg Bool.false_ne_true]
    dsimp only
    rw [(take_of_append_eq hread hle).1, List.take_left]
  · rw [(take_of_append_eq hread hle).2, List.drop_left]

/-! ### Chunks -/

/-- A body in chunks, with extensions in the first line of a chunk and trailers after the last. -/
inductive Chunked : (encoded body : List UInt8) → Prop where
  | last {line : List UInt8} {trailers : List (List UInt8)} (hline : position crlf line = none)
      (hsize : chunkSize line = .ok 0)
      (htrailers : ∀ t ∈ trailers, position crlf t = none ∧ t ≠ []) :
      Chunked (line ++ (crlf ++ (trailers.flatMap (fun t => t ++ crlf) ++ crlf))) []
  | chunk {line data encoded body : List UInt8} (hline : position crlf line = none)
      (hsize : chunkSize line = .ok data.length) (hdata : data ≠ []) (h : Chunked encoded body) :
      Chunked (line ++ (crlf ++ (data ++ (crlf ++ encoded)))) (data ++ body)

theorem ne_nil_of_chunkSize {size : Nat} (h : chunkSize line = .ok size) : line ≠ [] := by
  rintro rfl
  cases h

theorem readTrailers_append {trailers : List (List UInt8)} {fuel : Nat} (later : Conn)
    (hpos : ∀ seg ∈ mine, seg ≠ []) (htrailers : ∀ t ∈ trailers, position crlf t = none ∧ t ≠ [])
    (hdata : buf ++ mine.flatten = trailers.flatMap (fun t => t ++ crlf) ++ (crlf ++ rest))
    (hfuel : trailers.length < fuel) :
    ∃ got mine', readTrailers fuel buf (mine ++ later) = .ok (mine' ++ later) ∧
      mine'.flatten <:+ rest ∧ Segments.Taken 4096 mine got mine' := by
  induction trailers generalizing fuel buf mine with
  | nil =>
      obtain ⟨fuel, rfl⟩ : ∃ f, fuel = f + 1 := ⟨fuel - 1, by omega⟩
      obtain ⟨buf', got, mine', hread, hrest, htaken⟩ :=
        readCrlfLine_append later hpos (show position crlf [] = none from rfl) hdata
      refine ⟨got, mine', ?_, ⟨buf', hrest⟩, htaken⟩
      unfold readTrailers
      rw [hread]
      rfl
  | cons t trailers ih =>
      obtain ⟨fuel, rfl⟩ : ∃ f, fuel = f + 1 := ⟨fuel - 1, by omega⟩
      obtain ⟨⟨hline, hne⟩, htrailers⟩ := List.forall_mem_cons.mp htrailers
      have hfuel : trailers.length < fuel := by simpa using hfuel
      have hdata' : buf ++ mine.flatten
          = t ++ (crlf ++ (trailers.flatMap (fun t => t ++ crlf) ++ (crlf ++ rest))) := by
        rw [hdata, List.flatMap_cons, List.append_assoc, List.append_assoc]
      obtain ⟨buf', got, mine', hread, hrest, htaken⟩ := readCrlfLine_append later hpos hline hdata'
      obtain ⟨got', mine'', hread', hsuffix, htaken'⟩ :=
        ih htaken.pos htrailers hrest hfuel
      refine ⟨got ++ got', mine'', ?_, hsuffix, htaken.trans htaken'⟩
      unfold readTrailers
      rw [hread]
      dsimp only
      rw [if_neg (by simpa using hne)]
      exact hread'

theorem length_le_lines (lines : List (List UInt8)) :
    lines.length ≤ (lines.flatMap fun t => t ++ crlf).length := by
  induction lines with
  | nil => exact Nat.le_refl 0
  | cons t lines ih =>
      rw [List.flatMap_cons, List.length_append, List.length_append, List.length_cons]
      have hcrlf : crlf.length = 2 := rfl
      omega

/-- One chunk is read. -/
theorem readChunks_chunk {out data encoded : List UInt8} (fuel : Nat) (later : Conn)
    (hpos : ∀ seg ∈ mine, seg ≠ []) (hline : position crlf line = none)
    (hsize : chunkSize line = .ok data.length) (hne : data ≠ [])
    (hcap : out.length + data.length ≤ maxRequestBodyBytes)
    (hdata : buf ++ mine.flatten = line ++ (crlf ++ (data ++ (crlf ++ encoded)))) :
    ∃ buf' got mine', readChunks (fuel + 1) out buf (mine ++ later)
        = readChunks fuel (out ++ data) buf' (mine' ++ later) ∧
      buf' ++ mine'.flatten = encoded ∧ Segments.Taken 4096 mine got mine' := by
  obtain ⟨buf₁, got₁, mine₁, hread, hrest, htaken⟩ := readCrlfLine_append later hpos hline hdata
  have hwant : data.length + 2 ≤ (buf₁ ++ mine₁.flatten).length := by
    rw [hrest]
    simp [crlf]
  obtain ⟨buf₂, got₂, mine₂, hfill, hle, heq, htaken'⟩ := fillBuffer_append later htaken.pos hwant
  have hread₂ : buf₂ ++ mine₂.flatten = data ++ (crlf ++ encoded) := heq.trans hrest
  have hchunk : buf₂.take data.length = data := by
    rw [(take_of_append_eq hread₂ (by omega)).1, List.take_left]
  have hafter : buf₂.drop (data.length + 2) ++ mine₂.flatten = encoded := by
    rw [(take_of_append_eq hread₂ hle).2, ← List.drop_drop, List.drop_left]
    rfl
  have hcrlf : (buf₂.drop data.length).take 2 = crlf := by
    have hdrop : buf₂.drop data.length ++ mine₂.flatten = crlf ++ encoded := by
      rw [(take_of_append_eq hread₂ (by omega)).2, List.drop_left]
    rw [(take_of_append_eq hdrop (by rw [List.length_drop]; omega)).1]
    rfl
  refine ⟨buf₂.drop (data.length + 2), got₁ ++ got₂, mine₂, ?_, hafter, htaken.trans htaken'⟩
  have hzero : data.length ≠ 0 := fun h => hne (List.length_eq_zero_iff.mp h)
  rw [readChunks, hread]
  dsimp only
  rw [if_neg (by simpa using ne_nil_of_chunkSize hsize), hsize]
  dsimp only
  rw [if_neg hzero, if_neg (by omega), hfill]
  dsimp only
  rw [if_neg (not_not.mpr hcrlf), hchunk]

/-- A body in chunks is read up to its end, with some of what comes after it. -/
theorem readChunks_append {encoded body out : List UInt8} {fuel : Nat} (later : Conn)
    (h : Chunked encoded body) (hpos : ∀ seg ∈ mine, seg ≠ [])
    (hdata : buf ++ mine.flatten = encoded ++ rest)
    (hcap : (out ++ body).length ≤ maxRequestBodyBytes) (hfuel : encoded.length ≤ fuel) :
    ∃ got mine', readChunks fuel out buf (mine ++ later) = .ok (out ++ body, mine' ++ later) ∧
      mine'.flatten <:+ rest ∧ Segments.Taken 4096 mine got mine' := by
  induction h generalizing fuel out buf mine with
  | @last line trailers hline hsize htrailers =>
      have hlen := length_le_lines trailers
      obtain ⟨fuel, rfl⟩ : ∃ f, fuel = f + 1 := ⟨fuel - 1, by simp [crlf] at hfuel; omega⟩
      have hfuel : trailers.length < fuel := by
        simp only [List.length_append, crlf, List.length_cons, List.length_nil] at hfuel hlen
        omega
      have hdata' : buf ++ mine.flatten = line ++ (crlf ++
          (trailers.flatMap (fun t => t ++ crlf) ++ (crlf ++ rest))) := by
        rw [hdata]
        simp only [List.append_assoc]
      -- the size line, and the trailers behind it
      obtain ⟨buf₁, got₁, mine₁, hread, hrest, htaken⟩ :=
        readCrlfLine_append later hpos hline hdata'
      obtain ⟨got₂, mine₂, hread₂, hsuffix, htaken'⟩ :=
        readTrailers_append later htaken.pos htrailers hrest hfuel
      refine ⟨got₁ ++ got₂, mine₂, ?_, hsuffix, htaken.trans htaken'⟩
      rw [readChunks, hread]
      dsimp only
      rw [if_neg (by simpa using ne_nil_of_chunkSize hsize), hsize]
      dsimp only
      rw [if_pos rfl, hread₂, List.append_nil]
      rfl
  | @chunk line data encoded body hline hsize hne h ih =>
      obtain ⟨fuel, rfl⟩ : ∃ f, fuel = f + 1 := ⟨fuel - 1, by simp [crlf] at hfuel; omega⟩
      have hfuel : encoded.length ≤ fuel := by
        simp only [List.length_append, crlf, List.length_cons] at hfuel
        omega
      have hdata' : buf ++ mine.flatten
          = line ++ (crlf ++ (data ++ (crlf ++ (encoded ++ rest)))) := by
        rw [hdata]
        simp only [List.append_assoc]
      have hcap' : out.length + data.length ≤ maxRequestBodyBytes := by
        simp only [List.length_append] at hcap
        omega
      -- the line with its data, and the chunks behind it
      obtain ⟨buf', got, mine', hstep, hrest, htaken⟩ :=
        readChunks_chunk fuel later hpos hline hsize hne hcap' hdata'
      obtain ⟨got', mine'', hread, hsuffix, htaken'⟩ :=
        ih htaken.pos hrest (by rwa [List.append_assoc]) hfuel
      refine ⟨got ++ got', mine'', ?_, hsuffix, htaken.trans htaken'⟩
      rw [hstep, hread, List.append_assoc]

/-! ### Bodies -/

/-- How a body is framed under these headers. -/
inductive Framing (headers : Headers) : (encoded body : List UInt8) → Prop where
  | empty (hte : headerValue headers "transfer-encoding" = none)
      (hcl : headerValue headers "content-length" = none) : Framing headers [] []
  | length {v : List Char} {body : List UInt8}
      (hte : headerValue headers "transfer-encoding" = none)
      (hcl : headerValue headers "content-length" = some v)
      (hlength : parseUnsigned (2 ^ 64) v = some body.length)
      (hcap : body.length ≤ maxRequestBodyBytes) : Framing headers body body
  | chunked {v : List Char} {encoded body : List UInt8}
      (hte : headerValue headers "transfer-encoding" = some v) (hpart : hasPart v "chunked" = true)
      (hcl : headerValue headers "content-length" = none) (hchunked : Chunked encoded body)
      (hcap : body.length ≤ maxRequestBodyBytes) : Framing headers encoded body

/-- `100 Continue` is written for a request with these headers. -/
def continues (headers : Headers) : Bool :=
  expects100Continue headers && (((headerValue headers "transfer-encoding").any fun v =>
    hasPart v "chunked") || (headerValue headers "content-length").isSome)

/-- A body of this length is read up to its end. -/
theorem fill_length {leftover body : List UInt8} (later : Conn) (hpos : ∀ seg ∈ mine, seg ≠ [])
    (hdata : leftover ++ mine.flatten = body ++ rest) :
    ∃ buf got mine', fill 8192 (fun b => decide (body.length ≤ b.length)) (leftover.take body.length)
        (mine ++ later) = ⟨buf, mine' ++ later, false⟩ ∧
      buf.take body.length = body ∧ mine'.flatten <:+ rest ∧ Segments.Taken 4096 mine got mine' := by
  have hlength := congrArg List.length hdata
  rw [List.length_append, List.length_append] at hlength
  have hN : body.length ≤ (leftover.take body.length ++ mine.flatten).length := by
    rw [List.length_append, List.length_take]
    omega
  obtain ⟨got, mine', hfill, hle, htaken⟩ := Segments.fill_append (m := 4096) 8192
    (fun b => decide (body.length ≤ b.length)) (leftover.take body.length) later (N := body.length)
    (by decide) (by decide) hpos hN (fun n hn => by rw [List.length_take, Nat.min_eq_left hn])
  refine ⟨leftover.take body.length ++ got, got, mine', hfill, ?_, ?_, htaken⟩
  · by_cases hshort : leftover.length ≤ body.length
    · rw [List.take_of_length_le hshort] at hle ⊢
      have hread : leftover ++ got ++ mine'.flatten = body ++ rest :=
        (htaken.data leftover).trans hdata
      rw [(take_of_append_eq hread hle).1, List.take_left]
    · have htake : leftover.take body.length = body := by
        rw [(take_of_append_eq hdata (by omega)).1, List.take_left]
      rw [htake, List.take_left]
  · by_cases hshort : leftover.length ≤ body.length
    · rw [List.take_of_length_le hshort] at hle
      have hread : leftover ++ got ++ mine'.flatten = body ++ rest :=
        (htaken.data leftover).trans hdata
      have hdrop := (take_of_append_eq hread hle).2
      rw [List.drop_left] at hdrop
      exact ⟨_, hdrop⟩
    · have hdrop := (take_of_append_eq hdata (show body.length ≤ leftover.length by omega)).2
      rw [List.drop_left] at hdrop
      have hmine : mine'.flatten <:+ mine.flatten := ⟨got, htaken.flatten⟩
      exact hmine.trans ⟨_, hdrop⟩

/-- A body is read up to its end, with some of what comes after it. -/
theorem readBody_append {headers : Headers} {leftover encoded body : List UInt8} (later : Conn)
    (h : Framing headers encoded body) (hpos : ∀ seg ∈ mine, seg ≠ [])
    (hdata : leftover ++ mine.flatten = encoded ++ rest) :
    ∃ got mine', readBody leftover headers (mine ++ later)
        = .ok (⟨body, continues headers⟩, mine' ++ later) ∧
      mine'.flatten <:+ rest ∧ Segments.Taken 4096 mine got mine' := by
  cases h with
  | empty hte hcl =>
      refine ⟨[], mine, ?_, ⟨leftover, hdata⟩, Segments.Taken.refl hpos⟩
      unfold readBody contentLengthOf continues
      rw [hte, hcl]
      rfl
  | length hte hcl hlength hcap =>
      obtain ⟨buf', got, mine', hfill, htake, hsuffix, htaken⟩ := fill_length later hpos hdata
      refine ⟨got, mine', ?_, hsuffix, htaken⟩
      unfold readBody contentLengthOf continues
      rw [hte, hcl]
      dsimp only
      rw [hlength]
      dsimp only
      rw [if_neg (by simp), if_neg (by simp), if_neg (by simp), if_neg (by omega), hfill]
      dsimp only
      rw [if_neg Bool.false_ne_true, htake]
      rfl
  | chunked hte hpart hcl hchunked hcap =>
      obtain ⟨got, mine', hread, hsuffix, htaken⟩ :=
        readChunks_append later hchunked hpos hdata (show ([] ++ body).length ≤ _ from hcap)
          (show encoded.length ≤ leftover.length + (mine ++ later).flatten.length + 1 by
            have := congrArg List.length hdata
            rw [List.length_append, List.length_append] at this
            rw [List.flatten_append, List.length_append]
            omega)
      refine ⟨got, mine', ?_, hsuffix, htaken⟩
      unfold readBody contentLengthOf continues
      rw [hte, hcl]
      dsimp only
      rw [Option.any_some, hpart]
      unfold readChunkedRequestBody
      rw [hread]
      rfl

/-! ## Well-formed requests -/

/-- A request as the client sends it: a head within the cap that is parsed, and a body within the
cap that is framed as the head says. -/
structure WireRequest where
  head : List UInt8
  parsed : RequestHead
  encoded : List UInt8
  body : List UInt8
  ends : findHeadersEnd head = some head.length
  fits : head.length ≤ maxHeaderBytes
  parses : parseRequestHead head = some parsed
  framing : Framing parsed.headers encoded body

def WireRequest.bytes (r : WireRequest) : List UInt8 := r.head ++ r.encoded

end

end Rahgozar.Proxy.Mitm
