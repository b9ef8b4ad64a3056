import Rahgozar.Fronter.Envelope
import Rahgozar.Fronter.ResponseExact

set_option autoImplicit false

/-! # Raw responses, written and taken apart

What `split_response` finds in a head that was written line by line: the status, and the trimmed
headers in their order. The body is what comes behind the head, whatever it is.
-/

namespace Rahgozar.Fronter.Envelope

open Drive (splitOnce utf8 isWhitespace)
open Segments (position)
open Proxy.Mitm (Headers crlf fromUtf8 parseHeaderLine)
open Http

variable {first line : List Char} {lines : List (List Char)} {body : List UInt8}

/-! ## Lines as `split_response` sees them -/

/-- The lines of a head, split at line feeds. -/
def crLines : List Char → List (List Char) → List (List Char)
  | first, [] => [first]
  | first, line :: lines => (first ++ ['\r']) :: crLines line lines

theorem splitOn_joinLines (hfirst : '\n' ∉ first) (hlines : ∀ line ∈ lines, '\n' ∉ line) :
    (utf8 (joinLines first lines)).splitOn 10 = (crLines first lines).map utf8 := by
  have hbytes : ∀ {line : List Char}, '\n' ∉ line →
      ∀ x ∈ utf8 line ++ [13], (x == (10 : UInt8)) = false := by
    intro line hline x hx
    rcases List.mem_append.mp hx with hx | hx
    · refine beq_eq_false_iff_ne.mpr fun heq => ?_
      rw [heq] at hx
      exact not_mem_utf8 (by decide) hline hx
    · rw [List.mem_singleton.mp hx]
      rfl
  induction lines generalizing first with
  | nil =>
      rw [joinLines, List.flatMap_nil, List.append_nil]
      show (utf8 first).splitOnP (· == 10) = [utf8 first]
      exact List.splitOnP_eq_singleton fun x hx => hbytes hfirst x (List.mem_append_left _ hx)
  | cons line lines ih =>
      obtain ⟨hline, hlines⟩ := List.forall_mem_cons.mp hlines
      have hsplit : utf8 (joinLines first (line :: lines)) =
          (utf8 first ++ [13]) ++ 10 :: utf8 (joinLines line lines) := by
        rw [utf8_joinLines_cons, List.append_assoc]
        rfl
      have hcr : utf8 (first ++ ['\r']) = utf8 first ++ [13] := utf8_append _ _
      rw [hsplit, crLines, List.map_cons, hcr, ← ih hline hlines]
      exact List.splitOnP_append_cons_of_forall_mem (hbytes hfirst) 10 rfl _

theorem trimEndCr_append (line : List Char) : trimEndCr (line ++ ['\r']) = trimEndCr line := by
  unfold trimEndCr
  rw [List.reverse_append]
  show (List.dropWhile (· = '\r') ('\r' :: line.reverse)).reverse = _
  rw [List.dropWhile_cons_of_pos (by decide)]

/-- A line keeps its end if that is not a carriage return. -/
theorem trimEndCr_concat (line : List Char) {c : Char} (hc : c ≠ '\r') :
    trimEndCr (line ++ [c]) = line ++ [c] := by
  unfold trimEndCr
  rw [List.reverse_append]
  show (List.dropWhile (· = '\r') (c :: line.reverse)).reverse = _
  rw [List.dropWhile_cons_of_neg (by simpa using hc), List.reverse_cons, List.reverse_reverse]

theorem trimEndCr_self (h : OneLine line) : trimEndCr line = line := by
  rcases List.eq_nil_or_concat' line with rfl | ⟨line, c, rfl⟩
  · rfl
  · refine trimEndCr_concat line ?_
    rintro rfl
    exact h.cr (List.mem_append_right _ List.mem_cons_self)

theorem map_trimEndCr_crLines (hfirst : trimEndCr first = first)
    (hlines : ∀ line ∈ lines, trimEndCr line = line) :
    (crLines first lines).map trimEndCr = first :: lines := by
  induction lines generalizing first with
  | nil => rw [crLines, List.map_singleton, hfirst]
  | cons line lines ih =>
      obtain ⟨hline, hlines⟩ := List.forall_mem_cons.mp hlines
      rw [crLines, List.map_cons, trimEndCr_append, hfirst, ih hline hlines]

theorem mapM_fromUtf8 (texts : List (List Char)) :
    (texts.map utf8).mapM fromUtf8 = some texts := by
  induction texts with
  | nil => rfl
  | cons text texts ih =>
      rw [List.map_cons, List.mapM_cons, fromUtf8_utf8, ih]
      rfl

/-! ## Heads -/

theorem statusCode_statusLine {status : Nat} (hstatus : status < 2 ^ 16) (reason : List Char) :
    statusCode (statusLine status reason) = some status := by
  have hdigits : ' ' ∉ Nat.toDigits 10 status := by
    intro hmem
    have := toDigits_isDigit status ' ' hmem
    exact absurd this (by decide)
  unfold statusCode statusLine
  rw [splitOnce_append (by decide), Option.bind_some]
  dsimp only
  rw [splitOnce_append hdigits]
  exact Drive.parseUnsigned_toDigits hstatus

/-- A header whose line is found as it was written. -/
structure Splittable (h : List Char × List Char) : Prop where
  line : HeadLine (headerLine h)
  last : trimEndCr (headerLine h) = headerLine h
  colon : ':' ∉ h.1

/-- The head that was written is found again, and the body is what comes behind it. -/
theorem splitResponse_joinLines {status : Nat} {reason : List Char} {headers : Headers}
    (hstatus : status < 2 ^ 16) (hreason : OneLine reason)
    (hheaders : ∀ h ∈ headers, Splittable h) (body : List UInt8) :
    splitResponse (utf8 (joinLines (statusLine status reason) (headers.map headerLine)) ++
        (crlf ++ crlf ++ body)) = some (status, trimHeaders headers, body) := by
  have hfirst := oneLine_statusLine status hreason
  have hlines : ∀ line ∈ headers.map headerLine, HeadLine line ∧ trimEndCr line = line := by
    intro line hline
    obtain ⟨h, hh, rfl⟩ := List.mem_map.mp hline
    exact ⟨(hheaders h hh).line, (hheaders h hh).last⟩
  have hpos := position_joinLines hfirst.lf (fun line hline => (hlines line hline).1) body
  have hsplit := splitOn_joinLines hfirst.lf fun line hline => (hlines line hline).1.lf
  have htrim := map_trimEndCr_crLines (trimEndCr_self hfirst)
    fun line hline => (hlines line hline).2
  generalize hhead : utf8 (joinLines (statusLine status reason) (headers.map headerLine)) = head
    at hpos hsplit ⊢
  obtain ⟨crFirst, crRest, hcr⟩ : ∃ crFirst crRest,
      crLines (statusLine status reason) (headers.map headerLine) = crFirst :: crRest := by
    cases headers with
    | nil => exact ⟨_, _, rfl⟩
    | cons h headers => exact ⟨_, _, rfl⟩
  rw [hcr] at hsplit htrim
  rw [List.map_cons] at hsplit htrim
  obtain ⟨hstatusLine, hrest⟩ := List.cons.inj htrim
  have hutf8 : (crRest.map utf8).mapM fromUtf8 = some crRest := mapM_fromUtf8 crRest
  have hdrop : (head ++ (crlf ++ crlf ++ body)).drop (head.length + 4) = body := by
    rw [← List.drop_drop, List.drop_left]
    rfl
  have hparse : ∀ line ∈ headers.map headerLine,
      (if line.isEmpty then none else parseHeaderLine line) = parseHeaderLine line := by
    intro line hline
    obtain ⟨c, more, rfl, -⟩ := (hlines line hline).1.start
    rfl
  unfold splitResponse
  rw [hpos, Option.bind_some, List.take_left, hsplit]
  dsimp only
  rw [fromUtf8_utf8, Option.bind_some, hstatusLine, statusCode_statusLine hstatus, Option.bind_some,
    hutf8, Option.map_some, hrest, List.filterMap_congr hparse,
    filterMap_headerLine fun h hh => (hheaders h hh).colon, hdrop]

/-! ## Raw responses -/

/-- Line ends before the lines, or behind them. -/
theorem flatMap_lineEnds (lines : List (List Char)) (last : List Char) :
    '\r' :: '\n' :: (lines.flatMap (fun line => line ++ ['\r', '\n']) ++ last) =
      (lines ++ [last]).flatMap fun line => '\r' :: '\n' :: line := by
  induction lines with
  | nil => simp
  | cons line lines ih =>
      rw [List.flatMap_cons, List.cons_append, List.flatMap_cons, ← ih]
      simp

theorem utf8_flatMap {α : Type} (f : α → List Char) (l : List α) :
    utf8 (l.flatMap f) = l.flatMap fun x => utf8 (f x) := List.flatMap_assoc

theorem trim_space (v : List Char) : Drive.trim (' ' :: v) = Drive.trim v := by
  unfold Drive.trim
  rw [List.dropWhile_cons_of_pos (by decide)]

theorem trim_of_noSpace {v : List Char} (h : ∀ c ∈ v, isWhitespace c = false) : Drive.trim v = v :=
  Trim.trim_eq_self h

theorem trim_toDigits (n : Nat) : Drive.trim (Nat.toDigits 10 n) = Nat.toDigits 10 n :=
  trim_of_noSpace fun c hc => not_isWhitespace_of_isDigit (toDigits_isDigit n c hc)

theorem oneLine_toDigits (n : Nat) : OneLine (Nat.toDigits 10 n) := by
  constructor
  · intro h
    exact absurd (toDigits_isDigit n _ h) (by decide)
  · intro h
    exact absurd (toDigits_isDigit n _ h) (by decide)

/-- The header that ends the head of a raw response. -/
def lengthHeader (n : Nat) : List Char × List Char :=
  ("Content-Length".toList, Nat.toDigits 10 n)

/-- A header line with a space behind the colon. -/
def spaced (h : List Char × List Char) : List Char × List Char := (h.1, ' ' :: h.2)

theorem rawResponse_eq (status : Nat) (reason : String) (headers : Headers) (body : List UInt8) :
    rawResponse status reason headers body =
      utf8 (joinLines (statusLine status reason.toList)
        (((headers ++ [lengthHeader body.length]).map spaced).map headerLine)) ++
        (crlf ++ crlf ++ body) := by
  have hlines : joinLines (statusLine status reason.toList)
      (((headers ++ [lengthHeader body.length]).map spaced).map headerLine) ++
        ['\r', '\n', '\r', '\n'] =
      "HTTP/1.1 ".toList ++ Nat.toDigits 10 status ++ ' ' :: reason.toList ++ "\r\n".toList ++
        headers.flatMap (fun h => h.1 ++ ": ".toList ++ h.2 ++ "\r\n".toList) ++
        ("Content-Length: ".toList ++ Nat.toDigits 10 body.length ++ "\r\n\r\n".toList) := by
    have hends := flatMap_lineEnds ((headers.map spaced).map headerLine)
      (headerLine (spaced (lengthHeader body.length)))
    have hversion : "HTTP/1.1 ".toList = "HTTP/1.1".toList ++ [' '] := by decide
    have hname : "Content-Length: ".toList = "Content-Length".toList ++ [':', ' '] := by decide
    have hcolon : ": ".toList = [':', ' '] := by decide
    have hend : "\r\n".toList = ['\r', '\n'] := by decide
    have hends₂ : "\r\n\r\n".toList = ['\r', '\n', '\r', '\n'] := by decide
    unfold joinLines statusLine
    rw [List.map_append, List.map_append, List.map_singleton, List.map_singleton, ← hends,
      List.flatMap_map, List.flatMap_map, hversion, hname, hcolon, hend, hends₂]
    unfold headerLine spaced lengthHeader
    dsimp only
    generalize "HTTP/1.1".toList = version
    generalize "Content-Length".toList = name
    simp only [List.append_assoc, List.cons_append, List.nil_append]
  have hcrlf : utf8 ['\r', '\n', '\r', '\n'] = crlf ++ crlf := rfl
  rw [← List.append_assoc, ← hcrlf, ← utf8_append, hlines]
  simp only [rawResponse, utf8_append, utf8_flatMap]

theorem spaced_splittable {h : List Char × List Char} (hsend : Sendable h) :
    Splittable (spaced h) := by
  have hspace : OneLine [' '] := ⟨by decide, by decide⟩
  have hspaced : Sendable (spaced h) := ⟨hsend.name, hspace.append hsend.value, hsend.colon⟩
  have hline := oneLine_headerLine hspaced
  exact ⟨hline.headLine (by simp [headerLine]), trimEndCr_self hline, hsend.colon⟩

theorem sendable_lengthHeader (n : Nat) : Sendable (lengthHeader n) := by
  have hname : OneLine "Content-Length".toList := ⟨by decide, by decide⟩
  have hcolon : ':' ∉ "Content-Length".toList := by decide
  exact ⟨hname, oneLine_toDigits n, hcolon⟩

/-- The space behind the colon is trimmed, and the length is as it was. -/
theorem trimHeaders_spaced (headers : Headers) (n : Nat) :
    trimHeaders ((headers ++ [lengthHeader n]).map spaced) =
      trimHeaders headers ++ [lengthHeader n] := by
  have hname : Drive.trim "Content-Length".toList = "Content-Length".toList := by decide
  unfold trimHeaders
  rw [List.map_map, List.map_append, List.map_singleton]
  refine congrArg₂ (· ++ ·) (List.map_congr_left fun h _ => ?_) ?_
  · exact congrArg (Prod.mk (Drive.trim h.1)) (trim_space h.2)
  · show [(Drive.trim "Content-Length".toList, Drive.trim (' ' :: Nat.toDigits 10 n))] = _
    rw [hname, trim_space, trim_toDigits]
    rfl

/-- A raw response is taken apart again. -/
theorem splitResponse_rawResponse {status : Nat} {reason : String} {headers : Headers}
    (hstatus : status < 2 ^ 16) (hreason : OneLine reason.toList)
    (hheaders : ∀ h ∈ headers, Splittable (spaced h)) (body : List UInt8) :
    splitResponse (rawResponse status reason headers body) =
      some (status, trimHeaders headers ++ [lengthHeader body.length], body) := by
  have hspaced : ∀ h ∈ (headers ++ [lengthHeader body.length]).map spaced, Splittable h := by
    intro h' hh'
    obtain ⟨h, hh, rfl⟩ := List.mem_map.mp hh'
    rcases List.mem_append.mp hh with hh | hh
    · exact hheaders h hh
    · rw [List.mem_singleton.mp hh]
      exact spaced_splittable (sendable_lengthHeader _)
  rw [rawResponse_eq, splitResponse_joinLines hstatus hreason hspaced body, trimHeaders_spaced]

end Rahgozar.Fronter.Envelope
