import Rahgozar.Fronter.Cache
import Rahgozar.Fronter.HttpText
import Rahgozar.Fronter.Transport

set_option autoImplicit false

/-! # The HTTP/1.1 response reader (`src/domain_fronter.rs`)

`read_http_response_with_header_timeout` reads a head up to its empty line, and then a body by
length, in chunks, or up to the end of the stream. The last read of the head may bring bytes of the
body, and those come first. Where the source can panic, by a slice or by an addition that overflows,
the model does (`Fault.panic`).
-/

namespace Rahgozar.Fronter.Http

open Drive (splitOnce parseUnsigned isWhitespace)
open Segments (fill fillTo position Reached)
open Proxy (toAsciiLowercase)
open Proxy.Mitm (Conn Headers crlf fromUtf8 splitCrlf fromStrRadix16 parseHeaderLine
  eqIgnoreAsciiCase)

/-- How a call that returns no value ends: it returns an error, or it panics. -/
inductive Fault where
  | error (e : FronterError)
  | panic
deriving DecidableEq

/-- What a read meets behind the last segment: the end of the stream, the end without TLS's
`close_notify`, another error, or nothing until the timeout. -/
inductive Ending where
  | eof
  | unexpectedEof (message : String)
  | io (message : String)
  | stalled
deriving DecidableEq

/-- What the peer sends, in the segments in which it arrives, and how it ends. -/
structure Stream where
  segs : Conn
  ending : Ending
  nonempty : ∀ seg ∈ segs, seg ≠ []

/-- A stream that arrives in one segment and ends. -/
def oneSegment (b : UInt8) (bytes : List UInt8) : Stream where
  segs := [b :: bytes]
  ending := .eof
  nonempty := by
    intro seg hseg
    rw [List.mem_singleton.mp hseg]
    exact List.cons_ne_nil b bytes

/-- The error of a read at the end; `closed` is for a stream that was closed. -/
def Ending.failure (closed : String) : Ending → FronterError
  | .eof => .badResponse closed
  | .unexpectedEof message => .io message
  | .io message => .io message
  | .stalled => .timeout

/-- The same where an end without `close_notify` is taken for an end. -/
def Ending.bodyFailure (closed : String) : Ending → FronterError
  | .unexpectedEof _ => .badResponse closed
  | ending => ending.failure closed

/-- `buf[start..stop]` -/
def slice (buf : List UInt8) (start stop : Nat) : Except Fault (List UInt8) :=
  if start ≤ stop ∧ stop ≤ buf.length then .ok ((buf.take stop).drop start) else .error .panic

/-- An addition of two `usize`. -/
def addUsize (a b : Nat) : Except Fault Nat :=
  if a + b < 2 ^ 64 then .ok (a + b) else .error .panic

def badResponse (message : String) : Fault := .error (.badResponse message)

/-! ## Heads -/

def findDoubleCrlf (buf : List UInt8) : Option Nat := position (crlf ++ crlf) buf

/-- `str::split_whitespace` -/
def splitWhitespace (text : List Char) : List (List Char) :=
  (text.splitOnP isWhitespace).filter fun word => !word.isEmpty

def parseStatusLine (line : List Char) : Except Fault Nat :=
  match splitWhitespace line with
  | _ :: code :: _ =>
      match parseUnsigned (2 ^ 16) code with
      | some status => .ok status
      | none => .error (badResponse ("bad status code: " ++ String.ofList code))
  | _ => .error (badResponse ("bad status line: " ++ String.ofList line))

def headerGet (headers : Headers) (name : String) : Option (List Char) :=
  (headers.find? fun (k, _) => eqIgnoreAsciiCase k name.toList).map Prod.snd

structure HttpResponse where
  status : Nat
  headers : Headers
  body : List UInt8
deriving DecidableEq

/-- The status and the headers of a head, without its empty line. -/
def parseHead (head : List UInt8) : Except Fault (Nat × Headers) :=
  match fromUtf8 head with
  | none => .error (badResponse "non-utf8 headers")
  | some text =>
      let lines := splitCrlf text
      (parseStatusLine (lines.headD [])).map fun status =>
        (status, lines.tail.filterMap parseHeaderLine)

/-- The loop that reads the head: what has been read, and where its empty line starts. -/
def readHead (ending : Ending) (conn : Conn) : Except Fault (List UInt8 × Nat × Conn) :=
  let f := fill 8192
    (fun buf => (findDoubleCrlf buf).isSome || decide (1024 * 1024 < buf.length)) [] conn
  if f.eof then .error (.error (ending.failure "connection closed before headers"))
  else
    match findDoubleCrlf f.buf with
    | some headerEnd => .ok (f.buf, headerEnd, f.rest)
    | none => .error (badResponse "headers too large")

/-! ## Chunks -/

def closedMidChunked : String := "connection closed mid-chunked response"

/-- The line up to the next `\r\n`, and what is left behind it. -/
def readCrlfLine (ending : Ending) (buf : List UInt8) (conn : Conn) :
    Except Fault (List UInt8 × List UInt8 × Conn) :=
  let f := fill 16384 (fun buf => (position crlf buf).isSome) buf conn
  if f.eof then .error (.error (ending.failure closedMidChunked))
  else
    match position crlf f.buf with
    | none => .error .panic
    | some idx =>
        match slice f.buf 0 idx, slice f.buf (idx + 2) f.buf.length with
        | .ok line, .ok buf => .ok (line, buf, f.rest)
        | _, _ => .error .panic

/-- The data of a chunk, and what is left behind the `\r\n` after it. -/
def readChunkData (ending : Ending) (size : Nat) (buf : List UInt8) (conn : Conn) :
    Except Fault (List UInt8 × List UInt8 × Conn) :=
  match addUsize size 2 with
  | .error e => .error e
  | .ok stop =>
      let f := fill 16384 (fun buf => decide (stop ≤ buf.length)) buf conn
      if f.eof then .error (.error (ending.bodyFailure closedMidChunked))
      else
        match slice f.buf 0 size, slice f.buf size stop, slice f.buf stop f.buf.length with
        | .ok data, .ok after, .ok buf =>
            if after ≠ crlf then .error (badResponse "chunk missing trailing CRLF")
            else .ok (data, buf, f.rest)
        | _, _, _ => .error .panic

/-- The size in the first line of a chunk; a blank line has none. -/
def chunkSize (line : List UInt8) : Except Fault (Option Nat) :=
  match fromUtf8 line with
  | none => .error (badResponse "bad chunk size")
  | some text =>
      let sizeLine := Drive.trim text
      if sizeLine.isEmpty then .ok none
      else
        match fromStrRadix16 (sizeLine.takeWhile (· ≠ ';')) with
        | some size => .ok (some size)
        | none => .error (badResponse ("bad chunk size '" ++ String.ofList sizeLine ++ "'"))

/-- The lines behind the last chunk, up to an empty one. -/
def readTrailers (ending : Ending) : (fuel : Nat) → List UInt8 → Conn → Except Fault Conn
  | 0, _, _ => .error .panic
  | fuel + 1, buf, conn =>
      match readCrlfLine ending buf conn with
      | .error e => .error e
      | .ok (line, buf, conn) =>
          if line.isEmpty then .ok conn else readTrailers ending fuel buf conn

/-- The loop of `read_chunked`. There are fewer turns than bytes, so that `fuel` does not run out;
if it did, that would count as a panic. -/
def readChunks (ending : Ending) :
    (fuel : Nat) → (out buf : List UInt8) → Conn → Except Fault (List UInt8 × Conn)
  | 0, _, _, _ => .error .panic
  | fuel + 1, out, buf, conn =>
      match readCrlfLine ending buf conn with
      | .error e => .error e
      | .ok (line, buf, conn) =>
          match chunkSize line with
          | .error e => .error e
          | .ok none => readChunks ending fuel out buf conn
          | .ok (some size) =>
              if size = 0 then (readTrailers ending fuel buf conn).map fun conn => (out, conn)
              else
                match readChunkData ending size buf conn with
                | .error e => .error e
                | .ok (data, buf, conn) => readChunks ending fuel (out ++ data) buf conn

def readChunked (ending : Ending) (buf : List UInt8) (conn : Conn) :
    Except Fault (List UInt8 × Conn) :=
  readChunks ending (buf.length + conn.flatten.length + 1) [] buf conn

/-! ## Responses -/

def isChunked (headers : Headers) : Bool :=
  contains (toAsciiLowercase ((headerGet headers "transfer-encoding").getD [])) "chunked"

def contentLength (headers : Headers) : Option Nat :=
  (headerGet headers "content-length").bind (parseUnsigned (2 ^ 64))

/-- The body under these headers; `body` is what was read with the head. -/
def readBody (ending : Ending) (headers : Headers) (body : List UInt8) (conn : Conn) :
    Except Fault (List UInt8 × Conn) :=
  if isChunked headers then readChunked ending body conn
  else
    match contentLength headers with
    | some cl =>
        let f := fillTo cl 8192 conn.flatten.length body conn
        if f.eof then
          .error (.error (ending.bodyFailure "connection closed before full response body"))
        else .ok (f.buf, f.rest)
    | none =>
        -- up to the end of the stream, or until nothing comes for two seconds
        let f := fill 8192 (fun _ => false) body conn
        match ending with
        | .io message => .error (.error (.io message))
        | _ => .ok (f.buf, f.rest)

/-- `content-encoding: gzip` is decoded if the decoder can. -/
def decodeBody (decodeGzip : List UInt8 → Option (List UInt8)) (headers : Headers)
    (body : List UInt8) : List UInt8 :=
  match headerGet headers "content-encoding" with
  | some enc =>
      if eqIgnoreAsciiCase enc "gzip".toList then (decodeGzip body).getD body else body
  | none => body

def readHttpResponse (decodeGzip : List UInt8 → Option (List UInt8)) (stream : Stream) :
    Except Fault (HttpResponse × Conn) :=
  match readHead stream.ending stream.segs with
  | .error e => .error e
  | .ok (buf, headerEnd, conn) =>
      match slice buf 0 headerEnd, slice buf (headerEnd + 4) buf.length with
      | .ok head, .ok body =>
          match parseHead head with
          | .error e => .error e
          | .ok (status, headers) =>
              (readBody stream.ending headers body conn).map fun (body, conn) =>
                (⟨status, headers, decodeBody decodeGzip headers body⟩, conn)
      | _, _ => .error .panic

/-! ## What the readers return

The bytes that are not read yet are `buf ++ conn.flatten`: those in the buffer and those that have
still to arrive. -/

section

variable {ending : Ending} {buf line rest : List UInt8} {conn : Conn}

theorem slice_left (a b : List UInt8) : slice (a ++ b) 0 a.length = .ok a := by
  unfold slice
  rw [if_pos ⟨Nat.zero_le _, by rw [List.length_append]; omega⟩, List.take_left, List.drop_zero]

theorem slice_right (a b : List UInt8) : slice (a ++ b) a.length (a ++ b).length = .ok b := by
  unfold slice
  rw [if_pos ⟨by rw [List.length_append]; omega, Nat.le_refl _⟩, List.take_length, List.drop_left]

theorem slice_middle (a b c : List UInt8) :
    slice (a ++ (b ++ c)) a.length (a.length + b.length) = .ok b := by
  have htake : (a ++ (b ++ c)).take (a.length + b.length) = a ++ b := by
    rw [← List.append_assoc, ← List.length_append, List.take_left]
  unfold slice
  rw [if_pos ⟨by omega, by simp only [List.length_append]; omega⟩, htake, List.drop_left]

/-- The head of a response is read: its empty line comes, and before that no read ends beyond the
cap of 1 MiB. -/
structure HeadArrives (conn : Conn) (head rest : List UInt8) : Prop where
  data : conn.flatten = head ++ (crlf ++ crlf ++ rest)
  first : position (crlf ++ crlf) conn.flatten = some head.length
  cap : ∀ n ∈ Segments.readEnds 8192 (conn.flatten.length + 1) 0 conn,
    1024 * 1024 < n → head.length + 4 ≤ n

theorem HeadArrives.unique {head rest head' rest' : List UInt8} (h : HeadArrives conn head rest)
    (h' : HeadArrives conn head' rest') : head = head' ∧ rest = rest' := by
  have hlength : head.length = head'.length := Option.some.inj (h.first.symm.trans h'.first)
  obtain ⟨hhead, htail⟩ := List.append_inj (h.data.symm.trans h'.data) hlength
  exact ⟨hhead, List.append_cancel_left htail⟩

/-- The reader of the head stops behind the empty line or the cap. -/
def headDone (buf : List UInt8) : Bool :=
  (findDoubleCrlf buf).isSome || decide (1024 * 1024 < buf.length)

theorem headDone_take {s : List UInt8} {i n : Nat} (hfirst : position (crlf ++ crlf) s = some i)
    (hn : n ≤ s.length) :
    headDone (s.take n) = (decide (i + 4 ≤ n) || decide (1024 * 1024 < n)) := by
  have hmark : (crlf ++ crlf).length = 4 := rfl
  have hlength : (s.take n).length = n := by
    rw [List.length_take]
    omega
  unfold headDone findDoubleCrlf
  rw [hlength, Segments.position_take (by decide) hfirst, hmark]
  by_cases hle : i + 4 ≤ n
  · rw [if_pos hle, decide_eq_true hle]
    rfl
  · rw [if_neg hle, decide_eq_false hle]
    rfl

/-- The empty line is in the buffer where the reader stops, unless a read ends in front of it and
beyond the cap. -/
theorem fill_headDone_iff (hpos : ∀ seg ∈ conn, seg ≠ []) {i : Nat}
    (hfirst : position (crlf ++ crlf) conn.flatten = some i) :
    i + 4 ≤ (fill 8192 headDone [] conn).buf.length ↔
      ∀ n ∈ Segments.readEnds 8192 (conn.flatten.length + 1) 0 conn,
        1024 * 1024 < n → i + 4 ≤ n := by
  have hmark : (crlf ++ crlf).length = 4 := rfl
  have hlimit : i + 4 ≤ (fill 8192 headDone [] conn).buf.length ↔ i + 4 ≤ 0 ∨
      ∀ n ∈ Segments.readEnds 8192 (conn.flatten.length + 1) 0 conn,
        1024 * 1024 < n → i + 4 ≤ n :=
    Segments.fillUntil_limit (by decide) hpos (hmark ▸ Segments.position_le hfirst)
      (fun n hn => headDone_take hfirst hn) (Nat.zero_le _) (Nat.le_succ conn.flatten.length)
  rw [or_iff_right (by omega)] at hlimit
  exact hlimit

/-- The head is read, with some of what comes after it, or it does not arrive. -/
theorem readHead_cases (ending : Ending) (hpos : ∀ seg ∈ conn, seg ≠ []) :
    ((∀ head rest, ¬ HeadArrives conn head rest) ∧
      ∃ e, readHead ending conn = .error (.error e)) ∨
    ∃ head body conn', HeadArrives conn head (body ++ conn'.flatten) ∧
      readHead ending conn = .ok (head ++ (crlf ++ crlf ++ body), head.length, conn') ∧
      ∀ seg ∈ conn', seg ≠ [] := by
  -- the reader stops at a buffer that is done, or where the data ends
  have hreached : Segments.Reached headDone [] conn (fill 8192 headDone [] conn) :=
    Segments.fill_reached headDone [] (by decide) hpos
  have hmark : (crlf ++ crlf).length = 4 := rfl
  have hstops := fun i => fill_headDone_iff hpos (i := i)
  have hfold : (fun buf : List UInt8 =>
      (findDoubleCrlf buf).isSome || decide (1024 * 1024 < buf.length)) = headDone := rfl
  unfold readHead
  rw [hfold]
  generalize fill 8192 headDone [] conn = f at hreached hstops ⊢
  dsimp only
  have hdone := hreached.done
  have hdata : f.buf ++ f.rest.flatten = conn.flatten := hreached.data
  cases heof : f.eof with
  | true =>
      left
      refine ⟨fun head rest harrives => ?_, _, rfl⟩
      -- everything has been read, and there is no mark in it
      rw [hreached.ended heof, List.flatten_nil, List.append_nil] at hdata
      have hfound : findDoubleCrlf f.buf = some head.length := by
        rw [hdata]
        exact harrives.first
      simp [headDone, heof, hfound] at hdone
  | false =>
      rw [if_neg Bool.false_ne_true]
      cases hfind : findDoubleCrlf f.buf with
      | none =>
          left
          refine ⟨fun head rest harrives => ?_, _, rfl⟩
          -- the mark of a head within the limit would have been seen
          have hlong := (hstops _ harrives.first).mpr harrives.cap
          have htake : f.buf = conn.flatten.take f.buf.length := by
            rw [← hdata, List.take_left]
          have hfound := Segments.position_take (by decide) harrives.first f.buf.length
          rw [← htake, hmark, if_pos hlong] at hfound
          rw [findDoubleCrlf, hfound] at hfind
          cases hfind
      | some i =>
          right
          have hsplit := Segments.position_eq_some hfind
          have hle := Segments.position_le hfind
          have hlength : (f.buf.take i).length = i := by
            rw [List.length_take]
            omega
          -- the mark is the first one in the data, too
          have hfirst : position (crlf ++ crlf) conn.flatten = some i := by
            rw [← hdata]
            exact Segments.position_append hfind f.rest.flatten
          refine ⟨f.buf.take i, f.buf.drop (i + 4), f.rest, ⟨?_, ?_, ?_⟩, ?_, hreached.pos⟩
          · calc conn.flatten
                = f.buf ++ f.rest.flatten := hdata.symm
              _ = f.buf.take i ++ (crlf ++ crlf ++ f.buf.drop (i + 4)) ++ f.rest.flatten :=
                  congrArg (· ++ f.rest.flatten) hsplit
              _ = f.buf.take i ++ (crlf ++ crlf ++ (f.buf.drop (i + 4) ++ f.rest.flatten)) := by
                  rw [List.append_assoc, List.append_assoc (crlf ++ crlf)]
          · rw [hlength]
            exact hfirst
          · rw [hlength]
            exact (hstops i hfirst).mp hle
          · rw [hlength]
            exact congrArg (fun buf => Except.ok (buf, i, f.rest)) hsplit

/-- A line is read, or there is no end of a line. -/
theorem readCrlfLine_cases (ending : Ending) (buf : List UInt8) (hpos : ∀ seg ∈ conn, seg ≠ []) :
    (position crlf (buf ++ conn.flatten) = none ∧
      ∃ e, readCrlfLine ending buf conn = .error (.error e)) ∨
    ∃ line buf' conn', readCrlfLine ending buf conn = .ok (line, buf', conn') ∧
      position crlf line = none ∧
      buf ++ conn.flatten = line ++ (crlf ++ (buf' ++ conn'.flatten)) ∧
      ∀ seg ∈ conn', seg ≠ [] := by
  let done := fun buf : List UInt8 => (position crlf buf).isSome
  have hreached : Segments.Reached done buf conn (fill 16384 done buf conn) :=
    Segments.fill_reached done buf (by decide) hpos
  unfold readCrlfLine
  generalize fill 16384 done buf conn = f at hreached ⊢
  dsimp only
  cases heof : f.eof with
  | true =>
      left
      have hrest := hreached.ended heof
      have hnone : position crlf f.buf = none := by
        have hdone := hreached.done
        rw [heof] at hdone
        exact Option.not_isSome_iff_eq_none.mp (ne_true_of_eq_false hdone)
      have hdata := hreached.data
      rw [hrest, List.flatten_nil, List.append_nil] at hdata
      exact ⟨hdata ▸ hnone, _, rfl⟩
  | false =>
      right
      have hsome : (position crlf f.buf).isSome = true := by
        have hdone := hreached.done
        rwa [heof] at hdone
      -- the line ends at the first separator of the buffer
      obtain ⟨idx, hidx⟩ := Option.isSome_iff_exists.mp hsome
      have hsplit := Segments.position_eq_some hidx
      have hle := Segments.position_le hidx
      have hlength : (f.buf.take idx).length = idx := by
        rw [List.length_take]
        omega
      have hline : slice f.buf 0 idx = .ok (f.buf.take idx) := by
        have := slice_left (f.buf.take idx) (crlf ++ f.buf.drop (idx + crlf.length))
        rwa [← hsplit, hlength] at this
      have hbuf : slice f.buf (idx + 2) f.buf.length = .ok (f.buf.drop (idx + 2)) := by
        unfold slice
        rw [if_pos ⟨hle, Nat.le_refl _⟩, List.take_length]
      refine ⟨f.buf.take idx, f.buf.drop (idx + 2), f.rest, ?_,
        Segments.position_take_self (by decide) hidx, ?_, hreached.pos⟩
      · rw [if_neg Bool.false_ne_true, hidx]
        dsimp only
        rw [hline, hbuf]
      · calc buf ++ conn.flatten
            = f.buf ++ f.rest.flatten := hreached.data.symm
          _ = f.buf.take idx ++ (crlf ++ f.buf.drop (idx + 2)) ++ f.rest.flatten :=
              congrArg (· ++ f.rest.flatten) hsplit
          _ = f.buf.take idx ++ (crlf ++ (f.buf.drop (idx + 2) ++ f.rest.flatten)) := by
              rw [List.append_assoc, List.append_assoc]

/-- The first line is determined by the bytes. -/
theorem line_unique {line' rest' : List UInt8} (hline : position crlf line = none)
    (hline' : position crlf line' = none)
    (h : line ++ (crlf ++ rest) = line' ++ (crlf ++ rest')) : line = line' ∧ rest = rest' := by
  have hfirst : position crlf (line ++ (crlf ++ rest)) = some line.length :=
    Segments.position_separator (by decide) hline rest
  have hfirst' : position crlf (line' ++ (crlf ++ rest')) = some line'.length :=
    Segments.position_separator (by decide) hline' rest'
  rw [h, hfirst'] at hfirst
  obtain ⟨heq, hrest⟩ := List.append_inj h (Option.some.inj hfirst).symm
  exact ⟨heq, List.append_cancel_left hrest⟩

theorem readCrlfLine_eq (ending : Ending) (hpos : ∀ seg ∈ conn, seg ≠ [])
    (hline : position crlf line = none) (hdata : buf ++ conn.flatten = line ++ (crlf ++ rest)) :
    ∃ buf' conn', readCrlfLine ending buf conn = .ok (line, buf', conn') ∧
      buf' ++ conn'.flatten = rest ∧ ∀ seg ∈ conn', seg ≠ [] := by
  rcases readCrlfLine_cases ending buf hpos with ⟨hnone, -⟩ | ⟨line', buf', conn', hread, hline',
    hdata', hpos'⟩
  · have hfirst : position crlf (buf ++ conn.flatten) = some line.length := by
      rw [hdata]
      exact Segments.position_separator (by decide) hline rest
    rw [hnone] at hfirst
    cases hfirst
  · obtain ⟨rfl, rfl⟩ := line_unique hline hline' (hdata.symm.trans hdata')
    exact ⟨buf', conn', hread, rfl, hpos'⟩

/-- The data of a chunk and the two bytes behind it are read, or there are not as many. -/
theorem readChunkData_cases (ending : Ending) {size : Nat} (buf : List UInt8)
    (hpos : ∀ seg ∈ conn, seg ≠ []) (hsize : size + 2 < 2 ^ 64) :
    ((buf ++ conn.flatten).length < size + 2 ∧
      ∃ e, readChunkData ending size buf conn = .error (.error e)) ∨
    ∃ data after buf' conn', data.length = size ∧ after.length = 2 ∧
      buf ++ conn.flatten = data ++ (after ++ (buf' ++ conn'.flatten)) ∧
      (∀ seg ∈ conn', seg ≠ []) ∧ readChunkData ending size buf conn =
        if after ≠ crlf then .error (badResponse "chunk missing trailing CRLF")
        else .ok (data, buf', conn') := by
  let done := fun buf : List UInt8 => decide (size + 2 ≤ buf.length)
  have hreached : Segments.Reached done buf conn (fill 16384 done buf conn) :=
    Segments.fill_reached done buf (by decide) hpos
  unfold readChunkData addUsize
  rw [if_pos hsize]
  dsimp only
  generalize fill 16384 done buf conn = f at hreached ⊢
  cases heof : f.eof with
  | true =>
      left
      have hshort : ¬ size + 2 ≤ f.buf.length := by
        have hdone := hreached.done
        rw [heof] at hdone
        exact of_decide_eq_false hdone
      have hdata := hreached.data
      rw [hreached.ended heof, List.flatten_nil, List.append_nil] at hdata
      exact ⟨by rw [← hdata]; omega, _, rfl⟩
  | false =>
      right
      have hlong : size + 2 ≤ f.buf.length := by
        have hdone := hreached.done
        rw [heof] at hdone
        exact of_decide_eq_true hdone
      -- the buffer is the data, the two bytes and what was read beyond them
      obtain ⟨data, tail, hbuf, hdata⟩ : ∃ data tail, f.buf = data ++ tail ∧ data.length = size :=
        ⟨f.buf.take size, f.buf.drop size, (List.take_append_drop size f.buf).symm,
          by rw [List.length_take]; omega⟩
      obtain ⟨after, left, rfl, hafter⟩ :
          ∃ after left, tail = after ++ left ∧ after.length = 2 := by
        refine ⟨tail.take 2, tail.drop 2, (List.take_append_drop 2 tail).symm, ?_⟩
        rw [hbuf, List.length_append] at hlong
        rw [List.length_take]
        omega
      have hleft : slice f.buf 0 size = .ok data := by
        rw [hbuf, ← hdata]
        exact slice_left data (after ++ left)
      have hmiddle : slice f.buf size (size + 2) = .ok after := by
        rw [hbuf, ← hdata, ← hafter]
        exact slice_middle data after left
      have hright : slice f.buf (size + 2) f.buf.length = .ok left := by
        have := slice_right (data ++ after) left
        rwa [List.length_append, hdata, hafter, List.append_assoc, ← hbuf] at this
      refine ⟨data, after, left, f.rest, hdata, hafter, ?_, hreached.pos, ?_⟩
      · rw [← hreached.data, hbuf, List.append_assoc, List.append_assoc]
      · rw [if_neg Bool.false_ne_true, hleft, hmiddle, hright]

theorem readChunkData_eq (ending : Ending) {data : List UInt8} (hpos : ∀ seg ∈ conn, seg ≠ [])
    (hsize : data.length + 2 < 2 ^ 64)
    (hdata : buf ++ conn.flatten = data ++ (crlf ++ rest)) :
    ∃ buf' conn', readChunkData ending data.length buf conn = .ok (data, buf', conn') ∧
      buf' ++ conn'.flatten = rest ∧ ∀ seg ∈ conn', seg ≠ [] := by
  rcases readChunkData_cases ending buf hpos hsize with ⟨hshort, -⟩ | ⟨data', after, buf', conn',
    hlength, hafter, hdata', hpos', hread⟩
  · rw [hdata, List.length_append, List.length_append] at hshort
    have hcrlf : crlf.length = 2 := rfl
    omega
  · obtain ⟨rfl, htail⟩ := List.append_inj (hdata.symm.trans hdata') hlength.symm
    obtain ⟨rfl, rfl⟩ := List.append_inj htail hafter.symm
    refine ⟨buf', conn', ?_, rfl, hpos'⟩
    rw [hread, if_neg (not_not.mpr rfl)]

end

end Rahgozar.Fronter.Http
