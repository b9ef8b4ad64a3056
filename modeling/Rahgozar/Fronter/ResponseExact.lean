import Rahgozar.Fronter.HttpResponse

set_option autoImplicit false

/-! # What the response reader makes of a well-framed response

A response is sent as a head and a body, by length or in chunks (`Sent`). However its bytes are cut
into segments, the reader returns the status, the trimmed headers and the body that were sent, and
nothing of the stream is left. A chunked body must end with its last chunk and the empty line, and
the first line of a chunk must be UTF-8.
-/

namespace Rahgozar.Fronter.Http

open Drive (splitOnce parseUnsigned utf8 isWhitespace)
open Segments (fill fillTo position)
open Proxy.Mitm (Conn Headers crlf fromUtf8 splitCrlf hexDigit fromStrRadix16 parseHeaderLine
  eqIgnoreAsciiCase)

variable {ending : Ending} {buf line rest : List UInt8} {conn : Conn} {digits ext : List Char}
  {n : Nat}

/-! ## Sizes -/

/-- A text of hexadecimal digits, of either case and with leading zeros or not, for a number. -/
structure SpellsHex (digits : List Char) (values : List Nat) (n : Nat) : Prop where
  ne_nil : digits ≠ []
  values_eq : digits.map hexDigit = values.map some
  value : values.foldl (fun acc d => acc * 16 + d) 0 = n

/-- Chunk extensions: nothing, or a text after a semicolon that does not end the line. -/
structure Extension (ext : List Char) : Prop where
  starts : ∀ c ∈ ext.head?, c = ';'
  within : position crlf (utf8 ext) = none

theorem hexDigit_bounds {c : Char} (h : (hexDigit c).isSome = true) :
    48 ≤ c.toNat ∧ c.toNat ≤ 57 ∨ 65 ≤ c.toNat ∧ c.toNat ≤ 70 ∨ 97 ≤ c.toNat ∧ c.toNat ≤ 102 := by
  have hle : ∀ a b : Char, a ≤ b → a.toNat ≤ b.toNat := fun a b h => h
  unfold hexDigit at h
  split_ifs at h with h09 haf hAF
  · exact Or.inl ⟨hle _ _ h09.1, hle _ _ h09.2⟩
  · exact Or.inr (Or.inr ⟨hle _ _ haf.1, hle _ _ haf.2⟩)
  · exact Or.inr (Or.inl ⟨hle _ _ hAF.1, hle _ _ hAF.2⟩)
  · cases h

namespace SpellsHex

variable {values : List Nat} (h : SpellsHex digits values n)

include h

theorem isSome {c : Char} (hc : c ∈ digits) : (hexDigit c).isSome = true := by
  have hmem : hexDigit c ∈ values.map some := h.values_eq ▸ List.mem_map_of_mem hc
  obtain ⟨v, -, hv⟩ := List.mem_map.mp hmem
  rw [← hv]
  rfl

theorem not_mem {c : Char} (hc : (hexDigit c).isSome = false) : c ∉ digits := by
  intro hmem
  rw [h.isSome hmem] at hc
  cases hc

theorem not_isWhitespace {c : Char} (hc : c ∈ digits) : isWhitespace c = false := by
  have hbounds := hexDigit_bounds (h.isSome hc)
  unfold isWhitespace
  simp only [Bool.or_eq_false_iff, Bool.and_eq_false_iff, decide_eq_false_iff_not]
  omega

theorem mapM_eq : digits.mapM hexDigit = some values := by
  have hall : ∀ (digits : List Char) (values : List Nat),
      digits.map hexDigit = values.map some → digits.mapM hexDigit = some values := by
    intro digits
    induction digits with
    | nil =>
        intro values hvalues
        cases values with
        | nil => rfl
        | cons v values => cases hvalues
    | cons c digits ih =>
        intro values hvalues
        cases values with
        | nil => cases hvalues
        | cons v values =>
            obtain ⟨hv, hvalues⟩ := List.cons.inj hvalues
            rw [List.mapM_cons, hv, ih values hvalues]
            rfl
  exact hall digits values h.values_eq

theorem fromStrRadix16_eq (hn : n < 2 ^ 64) : fromStrRadix16 digits = some n := by
  have hplus : digits.head? ≠ some '+' := by
    intro hhead
    exact h.not_mem rfl (List.mem_of_mem_head? hhead)
  have hempty : digits.isEmpty = false := List.isEmpty_eq_false_iff.mpr h.ne_nil
  have hmapM := h.mapM_eq
  unfold fromStrRadix16
  dsimp only
  split
  · exact absurd rfl hplus
  · rw [hempty, hmapM, Option.bind_some, h.value, if_pos hn]
    rfl

/-- Trimming a line that starts with the size leaves the size and some of the extension. -/
theorem trim_append (hext : Extension ext) :
    ∃ more, Drive.trim (digits ++ ext) = digits ++ more ∧ ∀ c ∈ more.head?, c = ';' := by
  have htrim := Trim.trim_append_append (v := []) (w := ext) h.ne_nil
    (fun c hc => h.not_isWhitespace (List.mem_of_mem_head? hc))
    (fun c hc => h.not_isWhitespace (List.mem_of_mem_getLast? hc))
  refine ⟨ext.rdropWhile isWhitespace, htrim, fun c hc => hext.starts c ?_⟩
  obtain ⟨tail, htail⟩ := List.rdropWhile_prefix isWhitespace ext
  rw [← htail, List.head?_append, Option.mem_def.mp hc]
  rfl

/-- The size in the first line of a chunk. -/
theorem chunkSize_eq (hext : Extension ext) (hn : n < 2 ^ 64) :
    chunkSize (utf8 (digits ++ ext)) = .ok (some n) := by
  obtain ⟨more, htrim, hmore⟩ := h.trim_append hext
  have hsize : (digits ++ more).takeWhile (· ≠ ';') = digits := by
    have hdigits : ∀ c ∈ digits, decide (c ≠ ';') = true := by
      intro c hc
      refine decide_eq_true fun heq => ?_
      subst heq
      exact h.not_mem rfl hc
    rw [List.takeWhile_append_of_pos hdigits]
    cases more with
    | nil => rw [List.takeWhile_nil, List.append_nil]
    | cons c more =>
        obtain rfl : c = ';' := hmore c rfl
        rw [List.takeWhile_cons_of_neg (by simp), List.append_nil]
  have hempty : (digits ++ more).isEmpty = false :=
    List.isEmpty_eq_false_iff.mpr (List.append_ne_nil_of_left_ne_nil h.ne_nil more)
  unfold chunkSize
  rw [fromUtf8_utf8]
  dsimp only
  rw [htrim, hempty, if_neg Bool.false_ne_true, hsize, h.fromStrRadix16_eq hn]

/-- The first line of a chunk is one line. -/
theorem line_within (hext : Extension ext) : position crlf (utf8 (digits ++ ext)) = none := by
  have hpass : ∀ x ∈ utf8 digits, crlf.head? ≠ some x := by
    intro x hx heq
    cases heq
    exact not_mem_utf8 (by decide) (h.not_mem rfl) hx
  rw [utf8_append, Segments.position_append_left (by decide) hpass, hext.within]
  rfl

end SpellsHex

/-! ## Chunks -/

/-- A body in chunks: its chunks, and then the last one, of size zero, with trailers. -/
inductive ChunkedBody : (encoded body : List UInt8) → Prop where
  | last {digits ext : List Char} {values : List Nat} {trailers : List (List UInt8)}
      (hzero : SpellsHex digits values 0) (hext : Extension ext)
      (htrailers : ∀ t ∈ trailers, position crlf t = none ∧ t ≠ []) :
      ChunkedBody
        (utf8 (digits ++ ext) ++ (crlf ++ (trailers.flatMap (fun t => t ++ crlf) ++ crlf))) []
  | chunk {digits ext : List Char} {values : List Nat} {data encoded body : List UInt8}
      (hsize : SpellsHex digits values data.length) (hext : Extension ext) (hdata : data ≠ [])
      (h : ChunkedBody encoded body) :
      ChunkedBody (utf8 (digits ++ ext) ++ (crlf ++ (data ++ (crlf ++ encoded)))) (data ++ body)

theorem readTrailers_eq {trailers : List (List UInt8)} {fuel : Nat}
    (hpos : ∀ seg ∈ conn, seg ≠ [])
    (htrailers : ∀ t ∈ trailers, position crlf t = none ∧ t ≠ [])
    (hdata : buf ++ conn.flatten = trailers.flatMap (fun t => t ++ crlf) ++ crlf)
    (hfuel : (buf ++ conn.flatten).length < fuel) :
    readTrailers ending fuel buf conn = .ok [] := by
  induction trailers generalizing fuel buf conn with
  | nil =>
      obtain ⟨fuel, rfl⟩ : ∃ f, fuel = f + 1 := ⟨fuel - 1, by omega⟩
      have hdata : buf ++ conn.flatten = [] ++ (crlf ++ []) := by simpa using hdata
      obtain ⟨buf', conn', hread, hrest, hpos'⟩ :=
        readCrlfLine_eq ending hpos (show position crlf [] = none from rfl) hdata
      have hnil : conn' = [] :=
        (Segments.flatten_eq_nil_iff hpos').mp (List.append_eq_nil_iff.mp hrest).2
      unfold readTrailers
      rw [hread, hnil]
      rfl
  | cons t trailers ih =>
      obtain ⟨fuel, rfl⟩ : ∃ f, fuel = f + 1 := ⟨fuel - 1, by omega⟩
      obtain ⟨⟨hline, hne⟩, htrailers⟩ := List.forall_mem_cons.mp htrailers
      have hdata' : buf ++ conn.flatten
          = t ++ (crlf ++ (trailers.flatMap (fun t => t ++ crlf) ++ crlf)) := by
        rw [hdata, List.flatMap_cons, List.append_assoc, List.append_assoc]
      obtain ⟨buf', conn', hread, hrest, hpos'⟩ := readCrlfLine_eq ending hpos hline hdata'
      have hshorter : (buf' ++ conn'.flatten).length < fuel := by
        rw [hdata', List.length_append, List.length_append, ← hrest] at hfuel
        have hcrlf : crlf.length = 2 := rfl
        omega
      unfold readTrailers
      rw [hread]
      dsimp only
      rw [if_neg (by simpa using hne)]
      exact ih hpos' htrailers hrest hshorter

/-- The body is put together from its chunks, and nothing of the stream is left. -/
theorem readChunks_eq {encoded body out : List UInt8} {fuel : Nat} (h : ChunkedBody encoded body)
    (hsmall : encoded.length < 2 ^ 63) (hpos : ∀ seg ∈ conn, seg ≠ [])
    (hdata : buf ++ conn.flatten = encoded) (hfuel : (buf ++ conn.flatten).length < fuel) :
    readChunks ending fuel out buf conn = .ok (out ++ body, []) := by
  have hcrlf : crlf.length = 2 := rfl
  induction h generalizing fuel out buf conn with
  | last hzero hext htrailers =>
      obtain ⟨fuel, rfl⟩ : ∃ f, fuel = f + 1 := ⟨fuel - 1, by omega⟩
      obtain ⟨buf', conn', hread, hrest, hpos'⟩ :=
        readCrlfLine_eq ending hpos (hzero.line_within hext) hdata
      have hshorter : (buf' ++ conn'.flatten).length < fuel := by
        rw [hdata, List.length_append, List.length_append, ← hrest] at hfuel
        omega
      unfold readChunks
      rw [hread]
      dsimp only
      rw [hzero.chunkSize_eq hext (by decide)]
      dsimp only
      rw [if_pos rfl, readTrailers_eq hpos' htrailers hrest hshorter, List.append_nil]
      rfl
  | @chunk digits ext values data encoded body hsize hext hne h ih =>
      obtain ⟨fuel, rfl⟩ : ∃ f, fuel = f + 1 := ⟨fuel - 1, by omega⟩
      obtain ⟨buf₁, conn₁, hread₁, hrest₁, hpos₁⟩ :=
        readCrlfLine_eq ending hpos (hsize.line_within hext) hdata
      simp only [List.length_append] at hsmall
      obtain ⟨buf₂, conn₂, hread₂, hrest₂, hpos₂⟩ :=
        readChunkData_eq ending hpos₁ (by omega) hrest₁
      have hshorter : (buf₂ ++ conn₂.flatten).length < fuel := by
        rw [hdata] at hfuel
        rw [hrest₂]
        simp only [List.length_append] at hfuel
        omega
      have hzero : data.length ≠ 0 := fun h => hne (List.length_eq_zero_iff.mp h)
      unfold readChunks
      rw [hread₁]
      dsimp only
      rw [hsize.chunkSize_eq hext (by omega)]
      dsimp only
      rw [if_neg hzero, hread₂]
      dsimp only
      rw [ih (by omega) hpos₂ hrest₂ hshorter, List.append_assoc]

/-! ## Bodies -/

/-- How a body is framed under these headers: by a `Content-Length` that says its length, or in
chunks. -/
inductive Framing (headers : Headers) : (encoded body : List UInt8) → Prop where
  | length {body : List UInt8} (hte : isChunked headers = false)
      (hlength : contentLength headers = some body.length) : Framing headers body body
  | chunked {encoded body : List UInt8} (hte : isChunked headers = true)
      (hchunks : ChunkedBody encoded body) : Framing headers encoded body

theorem readBody_eq {headers : Headers} {encoded body : List UInt8}
    (h : Framing headers encoded body) (hsmall : encoded.length < 2 ^ 63)
    (hpos : ∀ seg ∈ conn, seg ≠ []) (hdata : buf ++ conn.flatten = encoded) :
    readBody ending headers buf conn = .ok (body, []) := by
  cases h with
  | length hte hlength =>
      unfold readBody
      rw [hte, if_neg Bool.false_ne_true, hlength]
      dsimp only
      rw [Segments.fillTo_eq (by decide) hpos (congrArg List.length hdata) (Nat.le_refl _),
        if_neg Bool.false_ne_true, hdata]
  | chunked hte hchunks =>
      have hfuel : (buf ++ conn.flatten).length < buf.length + conn.flatten.length + 1 := by
        rw [List.length_append]
        omega
      unfold readBody readChunked
      rw [if_pos hte, readChunks_eq hchunks hsmall hpos hdata hfuel]
      rfl

/-! ## Heads -/

def statusLine (status : Nat) (reason : List Char) : List Char :=
  "HTTP/1.1".toList ++ ' ' :: (Nat.toDigits 10 status ++ ' ' :: reason)

def headerLine (h : List Char × List Char) : List Char := h.1 ++ ':' :: h.2

/-- The lines of a head, and the empty line behind them. -/
def headBytes (status : Nat) (reason : List Char) (headers : Headers) : List UInt8 :=
  utf8 (joinLines (statusLine status reason) (headers.map headerLine)) ++ (crlf ++ crlf)

def trimHeaders (headers : Headers) : Headers :=
  headers.map fun (k, v) => (Drive.trim k, Drive.trim v)

/-- A header with a name and a value that can be sent: each is one line, and the name has no
colon. -/
structure Sendable (h : List Char × List Char) : Prop where
  name : OneLine h.1
  value : OneLine h.2
  colon : ':' ∉ h.1

theorem splitWhitespace_append {word : List Char} (hne : word ≠ [])
    (hword : ∀ c ∈ word, isWhitespace c = false) (more : List Char) :
    splitWhitespace (word ++ ' ' :: more) = word :: splitWhitespace more := by
  unfold splitWhitespace
  rw [List.splitOnP_append_cons_of_forall_mem hword ' ' (by decide),
    List.filter_cons_of_pos (by simpa using hne)]

theorem toDigits_isDigit (n : Nat) : ∀ c ∈ Nat.toDigits 10 n, c.isDigit = true :=
  fun _ hc => Nat.isDigit_of_mem_toDigits (by decide) (by decide) hc

theorem not_isWhitespace_of_isDigit {c : Char} (h : c.isDigit = true) : isWhitespace c = false := by
  have hbounds := Decimal.isDigit_bounds h
  unfold isWhitespace
  simp only [Bool.or_eq_false_iff, Bool.and_eq_false_iff, decide_eq_false_iff_not]
  omega

theorem parseStatusLine_eq {status : Nat} (hstatus : status < 2 ^ 16) (reason : List Char) :
    parseStatusLine (statusLine status reason) = .ok status := by
  have hdigits : ∀ c ∈ Nat.toDigits 10 status, isWhitespace c = false :=
    fun c hc => not_isWhitespace_of_isDigit (toDigits_isDigit status c hc)
  unfold parseStatusLine statusLine
  rw [splitWhitespace_append (by decide) (by simp [isWhitespace]),
    splitWhitespace_append Nat.toDigits_ne_nil hdigits]
  dsimp only
  rw [Drive.parseUnsigned_toDigits hstatus]

theorem oneLine_statusLine (status : Nat) {reason : List Char} (hreason : OneLine reason) :
    OneLine (statusLine status reason) := by
  have hdigits : ∀ c : Char, c.isDigit = false → c ∉ Nat.toDigits 10 status := by
    intro c hc hmem
    rw [toDigits_isDigit status c hmem] at hc
    cases hc
  have hnumber : OneLine (Nat.toDigits 10 status) := ⟨hdigits _ (by decide), hdigits _ (by decide)⟩
  have hversion : OneLine ("HTTP/1.1".toList ++ [' ']) := ⟨by decide, by decide⟩
  have hspace : OneLine [' '] := ⟨by decide, by decide⟩
  have hline := hversion.append (hnumber.append (hspace.append hreason))
  rwa [List.append_assoc] at hline

theorem oneLine_headerLine {h : List Char × List Char} (hsend : Sendable h) :
    OneLine (headerLine h) := by
  have hcolon : OneLine [':'] := ⟨by decide, by decide⟩
  exact hsend.name.append (hcolon.append hsend.value)

theorem filterMap_headerLine {headers : Headers} (hheaders : ∀ h ∈ headers, ':' ∉ h.1) :
    (headers.map headerLine).filterMap parseHeaderLine = trimHeaders headers := by
  unfold trimHeaders
  rw [List.filterMap_map, ← List.filterMap_eq_map]
  refine List.filterMap_congr fun h hh => ?_
  show (splitOnce [':'] (headerLine h)).map _ = _
  unfold headerLine
  rw [splitOnce_append (hheaders h hh)]
  rfl

theorem parseHead_eq {status : Nat} {reason : List Char} {headers : Headers}
    (hstatus : status < 2 ^ 16) (hreason : OneLine reason)
    (hheaders : ∀ h ∈ headers, Sendable h) :
    parseHead (utf8 (joinLines (statusLine status reason) (headers.map headerLine))) =
      .ok (status, trimHeaders headers) := by
  have hlines : ∀ line ∈ headers.map headerLine, OneLine line := by
    intro line hline
    obtain ⟨h, hh, rfl⟩ := List.mem_map.mp hline
    exact oneLine_headerLine (hheaders h hh)
  unfold parseHead
  rw [fromUtf8_utf8]
  dsimp only
  rw [splitCrlf_joinLines (oneLine_statusLine status hreason) hlines, List.headD_cons,
    List.tail_cons, parseStatusLine_eq hstatus,
    filterMap_headerLine fun h hh => (hheaders h hh).colon]
  rfl

/-- A head within the cap is read, with some of what comes after it. -/
theorem readHead_eq {head : List UInt8} (hpos : ∀ seg ∈ conn, seg ≠ [])
    (hdata : conn.flatten = head ++ (crlf ++ crlf ++ rest))
    (hends : position (crlf ++ crlf) (head ++ (crlf ++ crlf ++ rest)) = some head.length)
    (hfits : (head ++ (crlf ++ crlf)).length ≤ 1024 * 1024) :
    ∃ body conn', readHead ending conn =
        .ok (head ++ (crlf ++ crlf ++ body), head.length, conn') ∧
      body ++ conn'.flatten = rest ∧ ∀ seg ∈ conn', seg ≠ [] := by
  have harrives : HeadArrives conn head rest := by
    refine ⟨hdata, hdata ▸ hends, fun n _ hn => ?_⟩
    have hmark : (crlf ++ crlf).length = 4 := rfl
    rw [List.length_append, hmark] at hfits
    omega
  rcases readHead_cases ending hpos with ⟨hnone, -⟩ | ⟨head', body, conn', harrives', hread, hpos'⟩
  · exact absurd harrives (hnone head rest)
  · obtain ⟨rfl, rfl⟩ := harrives.unique harrives'
    exact ⟨body, conn', hread, rfl, hpos'⟩

/-! ## Responses -/

/-- A response as a peer sends it: any status, reason and headers without a content coding, in a
head of at most 1 MiB, and any body, framed as the headers say. No buffer of the program is longer
than `isize::MAX`. -/
structure Sent where
  status : UInt16
  reason : List Char
  headers : Headers
  encoded : List UInt8
  body : List UInt8
  reason_line : OneLine reason
  sendable : ∀ h ∈ headers, Sendable h
  fits : (headBytes status.toNat reason headers).length ≤ 1024 * 1024
  plain : headerGet (trimHeaders headers) "content-encoding" = none
  framing : Framing (trimHeaders headers) encoded body
  small : encoded.length < 2 ^ 63

def Sent.bytes (r : Sent) : List UInt8 := headBytes r.status.toNat r.reason r.headers ++ r.encoded

/-- However the bytes of a response are cut, it is read as it was sent. -/
theorem readHttpResponse_exact (decodeGzip : List UInt8 → Option (List UInt8)) (r : Sent)
    (stream : Stream) (hdata : stream.segs.flatten = r.bytes) :
    readHttpResponse decodeGzip stream =
      .ok (⟨r.status.toNat, trimHeaders r.headers, r.body⟩, []) := by
  have hlines : ∀ line ∈ r.headers.map headerLine, HeadLine line := by
    intro line hline
    obtain ⟨h, hh, rfl⟩ := List.mem_map.mp hline
    exact (oneLine_headerLine (r.sendable h hh)).headLine (by simp [headerLine])
  have hends := position_joinLines (oneLine_statusLine r.status.toNat r.reason_line).lf hlines
    r.encoded
  have hdata : stream.segs.flatten =
      utf8 (joinLines (statusLine r.status.toNat r.reason) (r.headers.map headerLine)) ++
        (crlf ++ crlf ++ r.encoded) := by
    rw [hdata, Sent.bytes, headBytes, List.append_assoc]
  have hfits := r.fits
  have hhead := parseHead_eq r.status.toNat_lt r.reason_line r.sendable
  unfold headBytes at hfits
  generalize utf8 (joinLines (statusLine r.status.toNat r.reason) (r.headers.map headerLine)) = head
    at hends hdata hfits hhead
  obtain ⟨body, conn', hread, hrest, hpos⟩ : ∃ body conn', readHead stream.ending stream.segs =
      .ok (head ++ (crlf ++ crlf ++ body), head.length, conn') ∧
        body ++ conn'.flatten = r.encoded ∧ ∀ seg ∈ conn', seg ≠ [] :=
    readHead_eq stream.nonempty hdata hends hfits
  have hleft : slice (head ++ (crlf ++ crlf ++ body)) 0 head.length = .ok head := slice_left head _
  have hright : slice (head ++ (crlf ++ crlf ++ body)) (head.length + 4)
      (head ++ (crlf ++ crlf ++ body)).length = .ok body := by
    have := slice_right (head ++ (crlf ++ crlf)) body
    rwa [List.length_append, List.append_assoc] at this
  have hbody : readBody stream.ending (trimHeaders r.headers) body conn' = .ok (r.body, []) :=
    readBody_eq r.framing r.small hpos hrest
  unfold readHttpResponse
  rw [hread]
  dsimp only
  rw [hleft, hright]
  dsimp only
  rw [hhead]
  dsimp only
  rw [hbody]
  unfold decodeBody
  rw [r.plain]
  rfl

/-- A chunk with an extension, the last chunk, and a trailer. -/
def sentHello : Sent where
  status := 203
  reason := "Fine".toList
  headers := [("Transfer-Encoding".toList, " Chunked ".toList), ("A".toList, [])]
  encoded := utf8 (['0', '5'] ++ ";x".toList) ++ (crlf ++ ([104, 101, 108, 108, 111] ++ (crlf ++
    (utf8 (['0'] ++ []) ++ (crlf ++ ([[120]].flatMap (fun t => t ++ crlf) ++ crlf))))))
  body := [104, 101, 108, 108, 111]
  reason_line := ⟨by decide, by decide⟩
  sendable := by
    intro h hh
    simp only [List.mem_cons, List.not_mem_nil, or_false] at hh
    rcases hh with rfl | rfl
    · exact ⟨⟨by decide, by decide⟩, ⟨by decide, by decide⟩, by decide⟩
    · exact ⟨⟨by decide, by decide⟩, ⟨by decide, by decide⟩, by decide⟩
  fits := by decide +kernel
  plain := by decide +kernel
  framing := by
    refine .chunked (by decide +kernel) (@ChunkedBody.chunk _ _ [0, 5] _ _ []
      ⟨by decide, by decide, by decide⟩ ⟨by simp, by decide⟩ (by decide)
      (@ChunkedBody.last _ _ [0] _ ⟨by decide, by decide, by decide⟩ ⟨by simp, by decide⟩ ?_))
    intro t ht
    rw [List.mem_singleton] at ht
    rw [ht]
    exact ⟨by decide, by decide⟩
  small := by decide +kernel

/-- The reads end in the middle of a `\r\n`, of a size line and of the data. -/
def helloStream : Stream where
  segs := [sentHello.bytes.take 19, (sentHello.bytes.drop 19).take 38,
    (sentHello.bytes.drop 57).take 6, sentHello.bytes.drop 63]
  ending := .stalled
  nonempty := by decide +kernel

theorem readHttpResponse_exact_hello : readHttpResponse (fun _ => none) helloStream =
    .ok (⟨203, trimHeaders sentHello.headers, [104, 101, 108, 108, 111]⟩, []) :=
  readHttpResponse_exact _ sentHello helloStream (by decide +kernel)

/-- The head of a response in chunks, without its first letter. -/
def chunkedHead : List UInt8 := utf8 "TTP/1.1 200 OK\r\ntransfer-encoding: chunked\r\n\r\n".toList

/-- A chunk whose extension is not UTF-8 is refused, and so is a body without the last chunk. -/
theorem chunked_not_exact :
    readHttpResponse (fun _ => none) (oneSegment 72 (chunkedHead ++ utf8 "5;x=".toList ++ [255] ++
        utf8 "\r\nhello\r\n0\r\n\r\n".toList)) =
      .error (badResponse "bad chunk size") ∧
    readHttpResponse (fun _ => none) (oneSegment 72 (chunkedHead ++
        utf8 "5\r\nhello\r\n".toList)) =
      .error (badResponse "connection closed mid-chunked response") := by
  decide +kernel

end Rahgozar.Fronter.Http
