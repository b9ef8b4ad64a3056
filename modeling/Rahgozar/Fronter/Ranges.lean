import Rahgozar.Fronter.Envelope
import Rahgozar.Lib.Tiling

set_option autoImplicit false

/-! # Ranges of a download (`src/domain_fronter.rs`)

What `relay_parallel_range_to` computes about ranges: what a `206` says of itself, which of them are
accepted, how the response is delivered, and the ranges that are asked for behind the first one. A
range is given by its first and its last byte.
-/

namespace Rahgozar.Fronter.Range

open Drive (splitOnce parseUnsigned utf8 isWhitespace)
open Proxy (toAsciiLowercase)
open Proxy.Mitm (Headers eqIgnoreAsciiCase)
open Envelope (splitResponse statusText)
open Tiling (Tiles)

def rangeParallelChunkBytes : Nat := 256 * 1024

def appsScriptBodyMaxBytes : Nat := 40 * 1024 * 1024

def bufferedStitchMaxBytes : Nat := 64 * 1024 * 1024

def maxStreamedRangeBytes : Nat := 16 * 1024 * 1024 * 1024

/-- `u64::saturating_add` -/
def saturatingAdd (a b : Nat) : Nat := min (a + b) (2 ^ 64 - 1)

/-! ## `Content-Range` -/

/-- `bytes START-END/TOTAL`; the fields say what is checked when it is parsed. -/
structure ContentRange where
  start : Nat
  stop : Nat
  total : Nat
  le : start ≤ stop
  lt : stop < total
  small : total < 2 ^ 64
deriving DecidableEq

/-- The range if it lies in the entity. -/
def contentRange (start stop total : Nat) : Option ContentRange :=
  if h : start ≤ stop ∧ stop < total ∧ total < 2 ^ 64 then
    some ⟨start, stop, total, h.1, h.2.1, h.2.2⟩
  else none

def parseContentRange (headers : Headers) : Option ContentRange := do
  let (_, value) ← headers.find? fun (k, _) => eqIgnoreAsciiCase k "content-range".toList
  let (unit, rest) ← splitOnce [' '] (Drive.trim value)
  if ¬ eqIgnoreAsciiCase unit "bytes".toList then none
  else
    let (range, total) ← splitOnce ['/'] (rest.dropWhile isWhitespace)
    let (start, stop) ← splitOnce ['-'] range
    let start ← parseUnsigned (2 ^ 64) (Drive.trim start)
    let stop ← parseUnsigned (2 ^ 64) (Drive.trim stop)
    let total ← parseUnsigned (2 ^ 64) (Drive.trim total)
    contentRange start stop total

def contentRangeMatchesBody (range : ContentRange) (bodyLen : Nat) : Bool :=
  decide (0 < bodyLen) && decide (range.stop - range.start + 1 = bodyLen)

/-- The first answer may have been decoded behind its `Content-Range`. -/
def probeRangeCoversCompleteEntity (range : ContentRange) (requestedEnd : Nat) : Bool :=
  decide (range.start = 0) && decide (range.total ≤ saturatingAdd range.stop 1) &&
    decide (range.total ≤ saturatingAdd requestedEnd 1)

def validateProbeRange (status : Nat) (headers : Headers) (body : List UInt8)
    (requestedEnd : Nat) : Option ContentRange :=
  if status ≠ 206 then none
  else
    (parseContentRange headers).bind fun range =>
      if range.start ≠ 0 ∨ requestedEnd < range.stop then none
      else if contentRangeMatchesBody range body.length ∨
        probeRangeCoversCompleteEntity range requestedEnd then some range
      else none

def extractExactRangeBody (raw : List UInt8) (start stop total : Nat) :
    Except String (List UInt8) :=
  match splitResponse raw with
  | none => .error "malformed HTTP response"
  | some (status, headers, body) =>
      if status ≠ 206 then .error "expected 206 Partial Content"
      else
        match parseContentRange headers with
        | none => .error "missing or invalid Content-Range"
        | some range =>
            if range.start ≠ start ∨ range.stop ≠ stop ∨ range.total ≠ total then
              .error "unexpected Content-Range"
            else if ¬ contentRangeMatchesBody range body.length then
              .error "Content-Range/body length mismatch"
            else .ok body

def chunkFailureIsRetryable (raw : List UInt8) : Bool :=
  match splitResponse raw with
  | none => true
  | some (status, _, _) => decide (500 ≤ status ∧ status < 600)

/-- The next range, and where the one behind it begins. -/
def planRemainingRange (chunkSize total start : Nat) : Option ((Nat × Nat) × Nat) :=
  if total ≤ start then none
  else
    let stop := min (saturatingAdd start chunkSize - 1) (total - 1)
    some ((start, stop), saturatingAdd stop 1)

/-! ## Responses that are made here -/

def skippedIn200 : List String :=
  ["content-length", "content-range", "content-encoding", "transfer-encoding", "connection",
    "keep-alive"]

/-- The headers that are forwarded. -/
def forwarded (headers : Headers) : Headers :=
  headers.filter fun (k, _) => !skippedIn200.any fun s => s.toList = toAsciiLowercase k

def assemble200Head (srcHeaders : Headers) (declaredLength : Nat) : List UInt8 :=
  utf8 "HTTP/1.1 200 OK\r\n".toList ++
    (forwarded srcHeaders).flatMap (fun (k, v) => utf8 (k ++ ": ".toList ++ v ++ "\r\n".toList)) ++
    utf8 ("Content-Length: ".toList ++ Nat.toDigits 10 declaredLength ++ "\r\n\r\n".toList)

def assembleFull200 (srcHeaders : Headers) (body : List UInt8) : List UInt8 :=
  assemble200Head srcHeaders body.length ++ body

def rewrite206To200 (raw : List UInt8) : List UInt8 :=
  match splitResponse raw with
  | none => raw
  | some (_, headers, body) => assembleFull200 headers body

/-- `s.replace(from, to)` for a character -/
def replace (c : Char) (text : List Char) (s : List Char) : List Char :=
  s.flatMap fun x => if x = c then text else [x]

def htmlEscape (s : List Char) : List Char :=
  replace '>' "&gt;".toList (replace '<' "&lt;".toList (replace '&' "&amp;".toList s))

def errorResponse (status : Nat) (message : List Char) : List UInt8 :=
  let body := utf8 ("<html><body><h1>".toList ++ Nat.toDigits 10 status ++ "</h1><p>".toList ++
    htmlEscape message ++ "</p></body></html>".toList)
  utf8 ("HTTP/1.1 ".toList ++ Nat.toDigits 10 status ++ ' ' :: (statusText status).toList ++
    "\r\nContent-Type: text/html\r\nContent-Length: ".toList ++ Nat.toDigits 10 body.length ++
    "\r\n\r\n".toList) ++ body

/-! ## Ways of delivery -/

inductive RangeDispatch where
  | buffered
  | stream
  | fallbackSingleGet
  | rejectTooLarge
deriving DecidableEq

def dispatchRangeResponse (total : Nat) (streamingAllowed : Bool) : RangeDispatch :=
  if streamingAllowed ∧ maxStreamedRangeBytes < total then .rejectTooLarge
  else if streamingAllowed ∧ appsScriptBodyMaxBytes < total then .stream
  else if ¬ streamingAllowed ∧ bufferedStitchMaxBytes < total then .fallbackSingleGet
  else .buffered

/-! ## What is accepted -/

theorem contentRangeMatchesBody_iff {range : ContentRange} {n : Nat} :
    contentRangeMatchesBody range n = true ↔ range.stop - range.start + 1 = n := by
  unfold contentRangeMatchesBody
  rw [Bool.and_eq_true, decide_eq_true_iff, decide_eq_true_iff]
  omega

theorem extractExactRangeBody_eq_ok_iff {raw body : List UInt8} {start stop total : Nat} :
    extractExactRangeBody raw start stop total = .ok body ↔
      ∃ headers range, splitResponse raw = some (206, headers, body) ∧
        parseContentRange headers = some range ∧ range.start = start ∧ range.stop = stop ∧
        range.total = total ∧ stop - start + 1 = body.length := by
  unfold extractExactRangeBody
  constructor
  · intro h
    split at h
    · cases h
    · rename_i status headers body' hsplit
      split_ifs at h with hstatus
      obtain rfl := not_not.mp hstatus
      split at h
      · cases h
      · rename_i range hrange
        split_ifs at h with hother hmatch
        push Not at hother
        obtain ⟨rfl, rfl, rfl⟩ := hother
        cases h
        exact ⟨headers, range, hsplit, hrange, rfl, rfl, rfl,
          contentRangeMatchesBody_iff.mp hmatch⟩
  · rintro ⟨headers, range, hsplit, hrange, rfl, rfl, rfl, hlength⟩
    rw [hsplit]
    dsimp only
    rw [if_neg (not_not.mpr rfl), hrange]
    dsimp only
    rw [if_neg (by simp), if_neg (not_not.mpr (contentRangeMatchesBody_iff.mpr hlength))]

/-- The first answer is accepted if it begins the entity. If it cannot hold all of it, it is as long
as its range. -/
theorem validateProbeRange_eq_some {status : Nat} {headers : Headers} {body : List UInt8}
    {requestedEnd : Nat} {range : ContentRange}
    (h : validateProbeRange status headers body requestedEnd = some range) :
    parseContentRange headers = some range ∧ range.start = 0 ∧
      (requestedEnd + 1 < range.total → body.length = range.stop + 1) := by
  unfold validateProbeRange at h
  split_ifs at h with hstatus
  obtain ⟨range', hrange, h⟩ := Option.bind_eq_some_iff.mp h
  split_ifs at h with hplace haccept
  cases h
  push Not at hplace
  refine ⟨hrange, hplace.1, fun hmore => ?_⟩
  rcases haccept with hmatch | hcovers
  · have := contentRangeMatchesBody_iff.mp hmatch
    omega
  · unfold probeRangeCoversCompleteEntity at hcovers
    have hsmall := of_decide_eq_true ((Bool.and_eq_true _ _).mp hcovers).2
    unfold saturatingAdd at hsmall
    omega

/-! ## The plan -/

/-- The next range begins where it should, is not empty, and ends in the entity. -/
theorem planRemainingRange_of_lt {total start : Nat} (hlt : start < total)
    (hsmall : total < 2 ^ 64) :
    ∃ stop, planRemainingRange rangeParallelChunkBytes total start =
      some ((start, stop), stop + 1) ∧ start ≤ stop ∧ stop < total := by
  have hchunk : 0 < rangeParallelChunkBytes := by decide
  unfold planRemainingRange
  rw [if_neg (by omega)]
  generalize rangeParallelChunkBytes = chunk at *
  unfold saturatingAdd
  refine ⟨min (min (start + chunk) (2 ^ 64 - 1) - 1) (total - 1), ?_, by omega, by omega⟩
  dsimp only
  rw [Nat.min_eq_left (show min (min (start + chunk) (2 ^ 64 - 1) - 1) (total - 1) + 1 ≤
    2 ^ 64 - 1 by omega)]

theorem planRemainingRange_eq_none_iff {chunkSize total start : Nat} :
    planRemainingRange chunkSize total start = none ↔ total ≤ start := by
  unfold planRemainingRange
  split_ifs with h
  · exact ⟨fun _ => h, fun _ => rfl⟩
  · constructor
    · intro hnone
      cases hnone
    · exact fun hle => absurd hle h

/-- All the ranges that are planned from a place on. -/
def planRemainingRanges (total start : Nat) : List (Nat × Nat) :=
  match planRemainingRange rangeParallelChunkBytes total start with
  | none => []
  | some (r, next) =>
      if start < next ∧ next ≤ total then r :: planRemainingRanges total next else [r]
termination_by total - start

variable {total start : Nat}

theorem planRemainingRanges_cons {r : Nat × Nat} {next : Nat} (hsmall : total < 2 ^ 64)
    (h : planRemainingRange rangeParallelChunkBytes total start = some (r, next)) :
    planRemainingRanges total start = r :: planRemainingRanges total next := by
  have hlt : start < total := by
    by_contra hle
    rw [planRemainingRange_eq_none_iff.mpr (by omega)] at h
    cases h
  obtain ⟨stop, hplan, hle, hstop⟩ := planRemainingRange_of_lt hlt hsmall
  rw [h] at hplan
  obtain ⟨rfl, rfl⟩ := Prod.mk.inj (Option.some.inj hplan)
  rw [planRemainingRanges, h]
  dsimp only
  rw [if_pos (by omega)]

theorem planRemainingRanges_nil (h : total ≤ start) : planRemainingRanges total start = [] := by
  rw [planRemainingRanges, planRemainingRange_eq_none_iff.mpr h]

/-- The planned ranges follow on each other up to the end of the entity. -/
theorem tiles_planRemainingRanges (hle : start ≤ total) (hsmall : total < 2 ^ 64) :
    Tiles start (planRemainingRanges total start) total := by
  induction hn : total - start using Nat.strong_induction_on generalizing start with
  | _ n ih =>
      rcases Nat.lt_or_ge start total with hlt | hge
      · obtain ⟨stop, hplan, hstart, hstop⟩ := planRemainingRange_of_lt hlt hsmall
        rw [planRemainingRanges_cons hsmall hplan]
        exact ⟨rfl, hstart, ih _ (by omega) (by omega) rfl⟩
      · rw [planRemainingRanges_nil hge]
        exact le_antisymm hle hge

end Rahgozar.Fronter.Range
