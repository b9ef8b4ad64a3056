import Rahgozar.Fronter.RangeHeads
import Rahgozar.Lib.Run

set_option autoImplicit false

/-! # A download in ranges (`do_relay_parallel_range_to` in `src/domain_fronter.rs`)

A `GET` is asked for in ranges: a probe for the first one, and then chunk requests for the others,
up to 16 at a time. What `relay` answers, and in which order, is input: a download is a state that
goes on with each answer. The chunks come out of the stream in the order of their ranges, whatever
the order of the answers. The response goes to a writer, which may fail.
-/

namespace Rahgozar.Fronter.Range

open Segments (position)
open Proxy.Mitm (Headers crlf eqIgnoreAsciiCase)
open Envelope (splitResponse)

/-! ## Writers -/

inductive IoError where
  | writer
  | other (message : String)
deriving DecidableEq

/-- What has been written, and what becomes of the next calls: one that fails has written that many
bytes before. -/
structure Writer where
  written : List UInt8
  faults : List (Option Nat)

abbrev Written := Writer × Except IoError Unit

def Writer.writeAll (w : Writer) (bytes : List UInt8) : Written :=
  match w.faults with
  | [] => (⟨w.written ++ bytes, []⟩, .ok ())
  | none :: faults => (⟨w.written ++ bytes, faults⟩, .ok ())
  | some n :: faults => (⟨w.written ++ bytes.take n, faults⟩, .error .writer)

def Writer.flush (w : Writer) : Written := w.writeAll []

/-- The `?` behind a call. -/
def Written.andThen (first : Written) (next : Writer → Written) : Written :=
  match first with
  | (w, .ok ()) => next w
  | (w, .error e) => (w, .error e)

def writeResponseWithHeadTransform (transformHead : List UInt8 → List UInt8) (w : Writer)
    (response : List UInt8) : Written :=
  match position (crlf ++ crlf) response with
  | none => w.writeAll response
  | some idx =>
      (w.writeAll (transformHead (response.take (idx + 4)))).andThen fun w =>
        w.writeAll (response.drop (idx + 4))

/-! ## Requests -/

structure Request where
  method : String
  url : List Char
  headers : Headers
  body : List UInt8

/-- A call of `relay`, and what it returned. -/
structure Call where
  request : Request
  reply : List UInt8

def maxParallel : Nat := 16

def maxChunkAttempts : Nat := 3

def isRange (kv : List Char × List Char) : Bool := eqIgnoreAsciiCase kv.1 "range".toList

def rangeHeader (r : Nat × Nat) : List Char × List Char :=
  ("Range".toList, "bytes=".toList ++ Nat.toDigits 10 r.1 ++ '-' :: Nat.toDigits 10 r.2)

def probeRequest (req : Request) : Request :=
  { req with headers := req.headers ++ [rangeHeader (0, rangeParallelChunkBytes - 1)] }

def chunkRequest (req : Request) (r : Nat × Nat) : Request :=
  ⟨"GET", req.url, (req.headers.filter fun kv => !isRange kv) ++ [rangeHeader r], []⟩

def tooLarge : String :=
  "Advertised Content-Range total exceeds relay's streaming ceiling. The origin reported a size " ++
  "larger than the relay is willing to fetch through Apps Script; refusing to spend daily quota " ++
  "on a likely-hostile or buggy origin."

/-! ## Chunks -/

/-- A chunk that is asked for: the attempts that have been answered, and the result when it is
there. -/
structure Fetch where
  range : Nat × Nat
  attempts : Nat
  result : Option (Except String (List UInt8))

/-- An attempt is answered. -/
def Fetch.replied (total : Nat) (raw : List UInt8) (f : Fetch) : Fetch :=
  match extractExactRangeBody raw f.range.1 f.range.2 total with
  | .ok body => ⟨f.range, f.attempts + 1, some (.ok body)⟩
  | .error reason =>
      if chunkFailureIsRetryable raw ∧ f.attempts + 1 < maxChunkAttempts then
        ⟨f.range, f.attempts + 1, none⟩
      else ⟨f.range, f.attempts + 1, some (.error reason)⟩

/-- `fetch_chunks_stream`: where the next range begins, and the chunks in flight, in order. -/
structure Chunks where
  next : Nat
  inFlight : List Fetch

/-- The answer to the probe. -/
structure Probe where
  headers : Headers
  body : List UInt8
  range : ContentRange

abbrev Item := (Nat × Nat) × Except String (List UInt8)

/-- Where the chunks go. -/
inductive Sink where
  | stitch (items : List Item)
  | stream

/-- The chunks behind the probe's body, if there is none that failed. -/
def stitch (full : List UInt8) : List Item → Option (List UInt8)
  | [] => some full
  | (_, .ok chunk) :: items => stitch (full ++ chunk) items
  | (_, .error _) :: _ => none

/-! ## Downloads -/

inductive Phase where
  | probing
  | single
  | fetching (probe : Probe) (chunks : Chunks) (sink : Sink)
  | done (result : Except IoError Unit)

structure State where
  phase : Phase
  writer : Writer
  calls : List Call

/-- What happens next: the call that is waited for returns, a chunk is asked for, an attempt at the
chunk with that place among those in flight is answered, or the stream is asked for its next
item. -/
inductive Event where
  | replied (raw : List UInt8)
  | started
  | chunkReplied (i : Nat) (raw : List UInt8)
  | next

def State.called (s : State) (request : Request) (raw : List UInt8) : State :=
  { s with calls := s.calls ++ [⟨request, raw⟩] }

def State.finished (s : State) (r : Written) : State :=
  { s with writer := r.1, phase := .done r.2 }

/-- A `GET` without a body and without a `Range` is probed. -/
def begin (req : Request) (w : Writer) : State :=
  if req.method ≠ "GET" ∨ req.body ≠ [] ∨ req.headers.any isRange then ⟨.single, w, []⟩
  else ⟨.probing, w, []⟩

section

variable (transformHead : List UInt8 → List UInt8) (streamingAllowed : Bool) (req : Request)

def State.respond (s : State) (raw : List UInt8) : State :=
  s.finished (writeResponseWithHeadTransform transformHead s.writer raw)

def State.fetch (s : State) (probe : Probe) (sink : Sink) : State :=
  { s with phase := .fetching probe ⟨saturatingAdd probe.range.stop 1, []⟩ sink }

/-- The head and the probe's body, before the first chunk is asked for. -/
def State.stream (s : State) (probe : Probe) : State :=
  let head := transformHead (assemble200Head probe.headers probe.range.total)
  match ((s.writer.writeAll head).andThen fun w => w.writeAll probe.body).andThen Writer.flush with
  | (w, .ok ()) => { s with writer := w }.fetch probe .stream
  | (w, .error e) => s.finished (w, .error e)

def State.probed (s : State) (first : List UInt8) : State :=
  match splitResponse first with
  | none => s.respond transformHead first
  | some (status, headers, body) =>
      if status ≠ 206 then s.respond transformHead first
      else
        match validateProbeRange status headers body (rangeParallelChunkBytes - 1) with
        | none => { s with phase := .single }
        | some range =>
            if range.total ≤ rangeParallelChunkBytes ∨ range.total ≤ range.stop + 1 then
              s.respond transformHead (rewrite206To200 first)
            else
              match dispatchRangeResponse range.total streamingAllowed with
              | .stream => s.stream transformHead ⟨headers, body, range⟩
              | .fallbackSingleGet => { s with phase := .single }
              | .rejectTooLarge =>
                  s.respond transformHead (errorResponse 502 tooLarge.toList)
              | .buffered => s.fetch ⟨headers, body, range⟩ (.stitch [])

/-- The next chunk has its result. -/
def State.item (s : State) (probe : Probe) (chunks : Chunks) (sink : Sink) (item : Item) : State :=
  match sink, item.2 with
  | .stitch items, _ => { s with phase := .fetching probe chunks (.stitch (items ++ [item])) }
  | .stream, .ok chunk =>
      match s.writer.writeAll chunk with
      | (w, .ok ()) => { s with writer := w, phase := .fetching probe chunks .stream }
      | (w, .error e) => s.finished (w, .error e)
  | .stream, .error reason =>
      s.finished (s.writer.flush.1,
        .error (.other ("range-parallel-stream chunk failure: " ++ reason)))

/-- There is no further chunk. -/
def State.exhausted (s : State) (probe : Probe) : Sink → State
  | .stream => s.finished (s.writer, .ok ())
  | .stitch items =>
      match stitch probe.body items with
      | none => { s with phase := .single }
      | some full =>
          if full.length ≠ probe.range.total then { s with phase := .single }
          else s.respond transformHead (assembleFull200 probe.headers full)

def step (s : State) (event : Event) : Option State :=
  match event, s.phase with
  | .replied raw, .probing =>
      some ((s.called (probeRequest req) raw).probed transformHead streamingAllowed raw)
  | .replied raw, .single => some ((s.called req raw).respond transformHead raw)
  | .started, .fetching probe chunks sink =>
      if chunks.inFlight.length < maxParallel then
        (planRemainingRange rangeParallelChunkBytes probe.range.total chunks.next).map
          fun (range, next) =>
            { s with phase := .fetching probe ⟨next, chunks.inFlight ++ [⟨range, 0, none⟩]⟩ sink }
      else none
  | .chunkReplied i raw, .fetching probe chunks sink =>
      match chunks.inFlight[i]? with
      | some ⟨range, attempts, none⟩ =>
          some { s.called (chunkRequest req range) raw with
            phase := .fetching probe ⟨chunks.next, chunks.inFlight.set i
              (Fetch.replied probe.range.total raw ⟨range, attempts, none⟩)⟩ sink }
      | _ => none
  | .next, .fetching probe chunks sink =>
      match chunks.inFlight with
      | ⟨range, _, some result⟩ :: more =>
          some (s.item probe ⟨chunks.next, more⟩ sink (range, result))
      | ⟨_, _, none⟩ :: _ => none
      | [] =>
          match planRemainingRange rangeParallelChunkBytes probe.range.total chunks.next with
          | some _ => none
          | none => some (s.exhausted transformHead probe sink)
  | _, _ => none

end

/-- `relay_parallel_range`: what has been written when the download is done. -/
def relayParallelRange (req : Request) (events : List Event) : Option (List UInt8) :=
  (StepRun.run (step id false req) (begin req ⟨[], []⟩) events).bind fun s =>
    match s.phase with
    | .done _ => some s.writer.written
    | _ => none

end Rahgozar.Fronter.Range
