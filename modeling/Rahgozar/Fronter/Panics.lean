import Rahgozar.Fronter.TunnelBody

set_option autoImplicit false

/-! # Which answers make the client panic

Of all slices and additions in the readers and parsers of answers, two kinds can fail: the size of a
chunk plus two may overflow, and the quotation of a text in a message or in a log line may be cut
inside a character. The file says for each of the functions exactly when that happens.
-/

namespace Rahgozar.Fronter.Envelope

open ByteIndex (Inside find rfind truncate)
open Drive (utf8)
open Segments (position)
open Proxy.Mitm (Conn Headers crlf fromUtf8)
open Http

/-! ## Chunks -/

/-- Behind well-formed chunks and blank lines comes a line with a size that overflows when the
`\r\n` is counted in. -/
inductive HugeChunk : List UInt8 → Prop where
  | size {line rest : List UInt8} {size : Nat} (hline : position crlf line = none)
      (hsize : chunkSize line = .ok (some size)) (hhuge : 2 ^ 64 ≤ size + 2) :
      HugeChunk (line ++ (crlf ++ rest))
  | blank {line rest : List UInt8} (hline : position crlf line = none)
      (hsize : chunkSize line = .ok none) (h : HugeChunk rest) :
      HugeChunk (line ++ (crlf ++ rest))
  | chunk {line data rest : List UInt8} (hline : position crlf line = none)
      (hsize : chunkSize line = .ok (some data.length)) (hdata : data ≠ []) (h : HugeChunk rest) :
      HugeChunk (line ++ (crlf ++ (data ++ (crlf ++ rest))))

section

variable {ending : Ending} {buf line rest out : List UInt8} {conn : Conn} {fuel : Nat}

theorem HugeChunk.exists_line (h : HugeChunk buf) :
    ∃ line rest, position crlf line = none ∧ buf = line ++ (crlf ++ rest) := by
  cases h with
  | size hline _ _ => exact ⟨_, _, hline, rfl⟩
  | blank hline _ _ => exact ⟨_, _, hline, rfl⟩
  | chunk hline _ _ _ => exact ⟨_, _, hline, rfl⟩

/-- What the first line decides. -/
theorem hugeChunk_iff (hline : position crlf line = none) :
    HugeChunk (line ++ (crlf ++ rest)) ↔
      (∃ size, chunkSize line = .ok (some size) ∧ 2 ^ 64 ≤ size + 2) ∨
      (chunkSize line = .ok none ∧ HugeChunk rest) ∨
      ∃ data more, data ≠ [] ∧ chunkSize line = .ok (some data.length) ∧
        rest = data ++ (crlf ++ more) ∧ HugeChunk more := by
  constructor
  · intro h
    generalize hbytes : line ++ (crlf ++ rest) = bytes at h
    cases h with
    | size hline' hsize hhuge =>
        obtain ⟨rfl, rfl⟩ := line_unique hline hline' hbytes
        exact Or.inl ⟨_, hsize, hhuge⟩
    | blank hline' hsize h =>
        obtain ⟨rfl, rfl⟩ := line_unique hline hline' hbytes
        exact Or.inr (Or.inl ⟨hsize, h⟩)
    | chunk hline' hsize hdata h =>
        obtain ⟨rfl, rfl⟩ := line_unique hline hline' hbytes
        exact Or.inr (Or.inr ⟨_, _, hdata, hsize, rfl, h⟩)
  · rintro (⟨size, hsize, hhuge⟩ | ⟨hsize, h⟩ | ⟨data, more, hdata, hsize, rfl, h⟩)
    · exact .size hline hsize hhuge
    · exact .blank hline hsize h
    · exact .chunk hline hsize hdata h

theorem map_eq_panic_iff {α β : Type} {x : Except Fault α} {f : α → β} :
    x.map f = .error .panic ↔ x = .error .panic := by
  cases x with
  | error e =>
      show Except.error e = _ ↔ Except.error e = _
      rw [Except.error.injEq, Except.error.injEq]
  | ok a =>
      constructor
      · intro h
        cases h
      · intro h
        cases h

theorem chunkSize_ne_panic (line : List UInt8) : chunkSize line ≠ .error .panic := by
  unfold chunkSize badResponse
  intro h
  split at h
  · cases h
  · dsimp only at h
    split_ifs at h
    split at h
    · cases h
    · cases h

theorem readTrailers_ne_panic (hpos : ∀ seg ∈ conn, seg ≠ [])
    (hfuel : (buf ++ conn.flatten).length < fuel) :
    readTrailers ending fuel buf conn ≠ .error .panic := by
  induction fuel generalizing buf conn with
  | zero => omega
  | succ fuel ih =>
      unfold readTrailers
      rcases readCrlfLine_cases ending buf hpos with ⟨-, e, hread⟩ | ⟨line, buf', conn', hread, -,
        hdata, hpos'⟩
      · rw [hread]
        intro h
        cases h
      · rw [hread]
        dsimp only
        split_ifs with hempty
        · intro h
          cases h
        · refine ih hpos' ?_
          have hlength := congrArg List.length hdata
          have hcrlf : crlf.length = 2 := rfl
          simp only [List.length_append] at hlength hfuel ⊢
          omega

/-- What the line of a chunk's size decides about the bytes behind it. -/
theorem hugeChunk_size_iff {size : Nat} (hline : position crlf line = none)
    (hsize : chunkSize line = .ok (some size)) (hzero : size ≠ 0) :
    HugeChunk (line ++ (crlf ++ rest)) ↔ 2 ^ 64 ≤ size + 2 ∨
      ∃ data more, data.length = size ∧ rest = data ++ (crlf ++ more) ∧ HugeChunk more := by
  rw [hugeChunk_iff hline, hsize]
  constructor
  · rintro (⟨size', heq, hhuge⟩ | ⟨heq, -⟩ | ⟨data, more, -, heq, hrest, h⟩)
    · cases heq
      exact Or.inl hhuge
    · cases heq
    · exact Or.inr ⟨data, more, (Option.some.inj (Except.ok.inj heq)).symm, hrest, h⟩
  · rintro (hhuge | ⟨data, more, rfl, hrest, h⟩)
    · exact Or.inl ⟨size, rfl, hhuge⟩
    · refine Or.inr (Or.inr ⟨data, more, fun hnil => hzero ?_, rfl, hrest, h⟩)
      rw [hnil, List.length_nil]

theorem not_hugeChunk_of_no_line (hnone : position crlf buf = none) : ¬ HugeChunk buf := by
  intro h
  obtain ⟨line, rest, hline, rfl⟩ := h.exists_line
  have hcr : (13 : UInt8) ≠ 10 := by decide
  have hfirst := Segments.position_separator hcr hline rest
  exact absurd (hfirst.symm.trans hnone) (Option.some_ne_none _)

theorem not_hugeChunk_of_error {e : Fault} (hline : position crlf line = none)
    (hsize : chunkSize line = .error e) : ¬ HugeChunk (line ++ (crlf ++ rest)) := by
  rw [hugeChunk_iff hline, hsize]
  simp

theorem hugeChunk_blank_iff (hline : position crlf line = none)
    (hsize : chunkSize line = .ok none) : HugeChunk (line ++ (crlf ++ rest)) ↔ HugeChunk rest := by
  rw [hugeChunk_iff hline, hsize]
  simp

theorem not_hugeChunk_last (hline : position crlf line = none)
    (hsize : chunkSize line = .ok (some 0)) : ¬ HugeChunk (line ++ (crlf ++ rest)) := by
  rw [hugeChunk_iff hline, hsize]
  rintro (⟨size, heq, hhuge⟩ | ⟨heq, -⟩ | ⟨data, more, hne, heq, -⟩)
  · cases heq
    omega
  · cases heq
  · have hzero := (Option.some.inj (Except.ok.inj heq)).symm
    exact hne (List.length_eq_zero_iff.mp hzero)

/-- The bytes of the chunk do not all arrive. -/
theorem not_hugeChunk_of_short {size : Nat} (hline : position crlf line = none)
    (hsize : chunkSize line = .ok (some size)) (hzero : size ≠ 0) (hfits : size + 2 < 2 ^ 64)
    (hshort : rest.length < size + 2) : ¬ HugeChunk (line ++ (crlf ++ rest)) := by
  have hcrlf : crlf.length = 2 := rfl
  rw [hugeChunk_size_iff hline hsize hzero, or_iff_right (by omega)]
  rintro ⟨data, more, rfl, hrest, -⟩
  rw [hrest] at hshort
  simp only [List.length_append] at hshort
  omega

/-- They arrive, and so do the two behind them. -/
theorem hugeChunk_data_iff {data after : List UInt8} (hline : position crlf line = none)
    (hsize : chunkSize line = .ok (some data.length)) (hzero : data.length ≠ 0)
    (hfits : data.length + 2 < 2 ^ 64) (hafter : after.length = 2) :
    HugeChunk (line ++ (crlf ++ (data ++ (after ++ rest)))) ↔ after = crlf ∧ HugeChunk rest := by
  rw [hugeChunk_size_iff hline hsize hzero, or_iff_right (by omega)]
  constructor
  · rintro ⟨data', more, hlength, heq, h⟩
    obtain ⟨-, htail⟩ := List.append_inj heq hlength.symm
    obtain ⟨rfl, rfl⟩ := List.append_inj htail hafter
    exact ⟨rfl, h⟩
  · rintro ⟨rfl, h⟩
    exact ⟨data, rest, rfl, rfl, h⟩

/-- The loop panics exactly when it comes to a size that overflows. -/
theorem readChunks_panic_iff (hpos : ∀ seg ∈ conn, seg ≠ [])
    (hfuel : (buf ++ conn.flatten).length < fuel) :
    readChunks ending fuel out buf conn = .error .panic ↔ HugeChunk (buf ++ conn.flatten) := by
  induction fuel generalizing out buf conn with
  | zero => omega
  | succ fuel ih =>
      unfold readChunks
      rcases readCrlfLine_cases ending buf hpos with ⟨hnone, e, hread⟩ | ⟨line, buf', conn', hread,
        hline, hdata, hpos'⟩
      · rw [hread]
        exact iff_of_false (fun h => by cases h) (not_hugeChunk_of_no_line hnone)
      · have hshorter : (buf' ++ conn'.flatten).length < fuel := by
          have hlength := congrArg List.length hdata
          have hcrlf : crlf.length = 2 := rfl
          simp only [List.length_append] at hlength hfuel ⊢
          omega
        rw [hread, hdata]
        dsimp only
        cases hsize : chunkSize line with
        | error e =>
            refine iff_of_false (fun h => ?_) (not_hugeChunk_of_error hline hsize)
            rw [Except.error.inj h] at hsize
            exact chunkSize_ne_panic line hsize
        | ok size =>
            cases size with
            | none => exact (ih hpos' hshorter).trans (hugeChunk_blank_iff hline hsize).symm
            | some size =>
                dsimp only
                split_ifs with hzero
                · subst hzero
                  refine iff_of_false (fun h => ?_) (not_hugeChunk_last hline hsize)
                  exact readTrailers_ne_panic hpos' hshorter (map_eq_panic_iff.mp h)
                · by_cases hfits : size + 2 < 2 ^ 64
                  · rcases readChunkData_cases ending buf' hpos' hfits with ⟨hshort, e, hread'⟩ |
                      ⟨data, after, buf₂, conn₂, rfl, hafter, hdata', hpos₂, hread'⟩
                    · rw [hread']
                      exact iff_of_false (fun h => by cases h)
                        (not_hugeChunk_of_short hline hsize hzero hfits hshort)
                    · rw [hread', hdata', hugeChunk_data_iff hline hsize hzero hfits hafter]
                      by_cases hends : after = crlf
                      · have hshorter₂ : (buf₂ ++ conn₂.flatten).length < fuel := by
                          rw [hdata'] at hshorter
                          simp only [List.length_append] at hshorter ⊢
                          omega
                        rw [if_neg (not_not.mpr hends), and_iff_right hends]
                        exact ih hpos₂ hshorter₂
                      · rw [if_pos hends]
                        exact iff_of_false (fun h => by cases h) fun h => hends h.1
                  · -- the size overflows in `size + 2`
                    have hpanic : readChunkData ending size buf' conn' = .error .panic := by
                      unfold readChunkData addUsize
                      rw [if_neg hfits]
                    rw [hpanic, hugeChunk_size_iff hline hsize hzero]
                    exact iff_of_true rfl (Or.inl (by omega))

/-! ## Responses -/

theorem parseHead_ne_panic (head : List UInt8) : parseHead head ≠ .error .panic := by
  have hstatus : ∀ line, parseStatusLine line ≠ .error .panic := by
    intro line h
    unfold parseStatusLine badResponse at h
    split at h
    · split at h
      · cases h
      · cases h
    · cases h
  unfold parseHead badResponse
  intro h
  split at h
  · cases h
  · exact hstatus _ (map_eq_panic_iff.mp h)

theorem readBody_panic_iff (headers : Headers) (hpos : ∀ seg ∈ conn, seg ≠ []) :
    readBody ending headers buf conn = .error .panic ↔
      isChunked headers = true ∧ HugeChunk (buf ++ conn.flatten) := by
  unfold readBody
  by_cases hchunked : isChunked headers = true
  · rw [if_pos hchunked]
    have hloop : readChunked ending buf conn = .error .panic ↔ HugeChunk (buf ++ conn.flatten) :=
      readChunks_panic_iff hpos (by rw [List.length_append]; omega)
    rw [hloop]
    simp [hchunked]
  · rw [if_neg hchunked]
    rw [iff_false_right fun h => hchunked h.1]
    intro h
    split at h
    · dsimp only at h
      split_ifs at h
      cases h
    · cases ending with
      | eof => cases h
      | unexpectedEof message => cases h
      | io message => cases h
      | stalled => cases h

end

/-- The reader of responses panics exactly on a response in chunks, one of which has a size that
overflows. -/
theorem readHttpResponse_panic_iff (decodeGzip : List UInt8 → Option (List UInt8))
    (stream : Stream) : readHttpResponse decodeGzip stream = .error .panic ↔
      ∃ head rest status headers, HeadArrives stream.segs head rest ∧
        parseHead head = .ok (status, headers) ∧ isChunked headers = true ∧ HugeChunk rest := by
  unfold readHttpResponse
  rcases readHead_cases stream.ending stream.nonempty with ⟨hnone, e, hread⟩ | ⟨head, body, conn',
    harrives, hread, hpos⟩
  · rw [hread]
    constructor
    · intro h
      cases h
    · rintro ⟨head, rest, -, -, harrives, -⟩
      exact absurd harrives (hnone head rest)
  · have hleft : slice (head ++ (crlf ++ crlf ++ body)) 0 head.length = .ok head :=
      slice_left head _
    have hright : slice (head ++ (crlf ++ crlf ++ body)) (head.length + 4)
        (head ++ (crlf ++ crlf ++ body)).length = .ok body := by
      have := slice_right (head ++ (crlf ++ crlf)) body
      rwa [List.length_append, List.append_assoc] at this
    rw [hread]
    dsimp only
    rw [hleft, hright]
    dsimp only
    -- a response has one head
    have hunique : (∃ head' rest status headers, HeadArrives stream.segs head' rest ∧
        parseHead head' = .ok (status, headers) ∧ isChunked headers = true ∧ HugeChunk rest) ↔
        ∃ status headers, parseHead head = .ok (status, headers) ∧ isChunked headers = true ∧
          HugeChunk (body ++ conn'.flatten) := by
      constructor
      · rintro ⟨head', rest, status, headers, harrives', hhead, hchunked, hhuge⟩
        obtain ⟨rfl, rfl⟩ := harrives.unique harrives'
        exact ⟨status, headers, hhead, hchunked, hhuge⟩
      · rintro ⟨status, headers, hhead, hchunked, hhuge⟩
        exact ⟨head, _, status, headers, harrives, hhead, hchunked, hhuge⟩
    rw [hunique]
    cases hhead : parseHead head with
    | error e =>
        have he : e ≠ .panic := by
          rintro rfl
          exact parseHead_ne_panic head hhead
        simp [he]
    | ok parsed =>
        obtain ⟨status, headers⟩ := parsed
        dsimp only
        rw [map_eq_panic_iff, readBody_panic_iff headers hpos]
        simp

/-! ## Quotations -/

/-- A text that is cut for a message, inside a character. -/
theorem quoted_eq_panic_iff (message : String) (text : List Char) :
    quoted message text = .panic ↔ Inside text 200 := by
  rw [← ByteIndex.truncate_eq_none_iff]
  unfold quoted badResponse
  cases truncate text 200 with
  | none => simp
  | some cut => simp

theorem bracedJson_panic_iff (noJson noEnd : List Char → Fault) (text : List Char) :
    bracedJson noJson noEnd text = .error .panic ↔
      '{' ∉ text ∧ noJson text = .panic ∨ '{' ∈ text ∧ '}' ∉ text ∧ noEnd text = .panic := by
  unfold bracedJson
  cases hfind : find ['{'] text with
  | none =>
      have hopen := ByteIndex.find_singleton_eq_none_iff.mp hfind
      simp [hopen]
  | some start =>
      have hopen : '{' ∈ text := by
        by_contra hnot
        rw [ByteIndex.find_singleton_eq_none_iff.mpr hnot] at hfind
        cases hfind
      dsimp only
      cases hrfind : rfind '}' text with
      | none =>
          have hclose := ByteIndex.rfind_eq_none_iff.mp hrfind
          simp [hopen, hclose]
      | some stop =>
          have hclose : '}' ∈ text := by
            by_contra hnot
            rw [ByteIndex.rfind_eq_none_iff.mpr hnot] at hrfind
            cases hrfind
          dsimp only
          by_cases horder : stop < start
          · simp [horder, hopen, hclose, badResponse]
          · have hslice := ByteIndex.slice_find_rfind hfind hrfind (Nat.le_of_not_lt horder)
            obtain ⟨json, hjson⟩ := Option.isSome_iff_exists.mp hslice
            have hbrace : Char.utf8Size '}' = 1 := rfl
            rw [hbrace] at hjson
            simp [horder, hopen, hclose, hjson]

/-! ## Envelopes -/

section

variable (crates : Crates)

theorem slice_of_le {buf : List UInt8} {start stop : Nat} (hle : start ≤ stop)
    (hstop : stop ≤ buf.length) : slice buf start stop = .ok ((buf.take stop).drop start) :=
  if_pos ⟨hle, hstop⟩

/-- The digits of an escape are sliced only if they are there. -/
theorem hexEscape_ne_error (digits : Nat) (rest : List UInt8) (e : Fault) :
    hexEscape digits rest ≠ .error e := by
  intro h
  unfold hexEscape at h
  by_cases hshort : rest.length ≤ digits + 1
  · rw [if_pos hshort] at h
    cases h
  · rw [if_neg hshort, slice_of_le (by omega) (by omega)] at h
    cases h

theorem decodeJsEscapes_ne_error {fuel : Nat} {rest : List UInt8} (hfuel : rest.length < fuel)
    (out : List Char) (e : Fault) : decodeJsEscapes fuel rest out ≠ .error e := by
  induction fuel generalizing rest out with
  | zero => omega
  | succ fuel ih =>
      cases rest with
      | nil =>
          intro h
          cases h
      | cons c more =>
          rw [List.length_cons] at hfuel
          unfold decodeJsEscapes
          split_ifs with hplain
          · exact ih (by omega) _
          · cases more with
            | nil =>
                intro h
                cases h
            | cons esc after =>
                rw [List.length_cons] at hfuel
                dsimp only
                -- what is left behind an escape is shorter
                have hdrop : ∀ digits, (after.drop digits).length < fuel := by
                  intro digits
                  rw [List.length_drop]
                  omega
                split_ifs with hx hu
                · cases hescape : hexEscape 2 (c :: esc :: after) with
                  | error e' => exact absurd hescape (hexEscape_ne_error _ _ _)
                  | ok ch =>
                      cases ch with
                      | none =>
                          intro h
                          cases h
                      | some ch => exact ih (hdrop 2) _
                · cases hescape : hexEscape 4 (c :: esc :: after) with
                  | error e' => exact absurd hescape (hexEscape_ne_error _ _ _)
                  | ok ch =>
                      cases ch with
                      | none =>
                          intro h
                          cases h
                      | some ch => exact ih (hdrop 4) _
                · split
                  · intro h
                    cases h
                  · exact ih (by omega) _

/-- The slices between the markers are slices. -/
theorem extractAppsScriptUserHtml_ne_error (text : List Char) (e : Fault) :
    extractAppsScriptUserHtml crates text ≠ .error e := by
  intro h
  unfold extractAppsScriptUserHtml at h
  cases hfound : find initMarker text with
  | none =>
      rw [hfound] at h
      cases h
  | some found =>
      rw [hfound] at h
      dsimp only at h
      obtain ⟨a, behind, htext, hlen⟩ := ByteIndex.find_eq_some hfound
      have hbehind : ByteIndex.slice text (found + ByteIndex.byteLen initMarker)
          (ByteIndex.byteLen text) = some behind := by
        have := ByteIndex.slice_append (a ++ initMarker) behind []
        rwa [List.append_nil, List.append_assoc, ← htext, ByteIndex.byteLen_append, hlen,
          show found + ByteIndex.byteLen initMarker + ByteIndex.byteLen behind =
            ByteIndex.byteLen text by
              rw [htext, ByteIndex.byteLen_append, ByteIndex.byteLen_append]
              omega] at this
      rw [hbehind] at h
      dsimp only at h
      cases hstop : find initEnd behind with
      | none =>
          rw [hstop] at h
          cases h
      | some stop =>
          obtain ⟨encoded, tail, hencoded, hlen'⟩ := ByteIndex.find_eq_some hstop
          have hslice : ByteIndex.slice text (found + ByteIndex.byteLen initMarker)
              (stop + (found + ByteIndex.byteLen initMarker)) = some encoded := by
            have := ByteIndex.slice_append (a ++ initMarker) encoded (initEnd ++ tail)
            rwa [← hencoded, List.append_assoc, ← htext, ByteIndex.byteLen_append, hlen, hlen',
              Nat.add_comm _ stop] at this
          rw [hstop] at h
          dsimp only at h
          rw [hslice] at h
          dsimp only at h
          have hdecode : ∀ e, decodeJsStringEscapes encoded ≠ .error e :=
            decodeJsEscapes_ne_error (Nat.lt_succ_self _) []
          cases hdecoded : decodeJsStringEscapes encoded with
          | error e' => exact hdecode e' hdecoded
          | ok decoded =>
              rw [hdecoded] at h
              cases h

/-- The text is not the JSON of a relay response. -/
def Unparsed (text : List Char) : Prop := ∃ e, crates.relayResponse text = .error e

/-- A text that the relay's parser quotes, cut inside a character: what it found in the sandbox of
`HtmlService`, or all of it if it has no braces. -/
def CutInQuotation (text : List Char) : Prop :=
  (∃ unwrapped, extractAppsScriptUserHtml crates text = .ok (some unwrapped) ∧
    Unparsed crates unwrapped ∧ Inside unwrapped 200) ∨
  (extractAppsScriptUserHtml crates text = .ok none ∧ ('{' ∉ text ∨ '}' ∉ text) ∧ Inside text 200)

theorem relayRaw_ne_panic (allowBrotliZstd : Bool) (data : RelayResponse) :
    relayRaw crates allowBrotliZstd data ≠ .error .panic := by
  have hbody : ∀ {failure : List Char → Fault} (b : Option (List Char)),
      (∀ b, failure b ≠ .panic) → decodedBody failure b ≠ .error .panic := by
    intro failure b hfailure h
    unfold decodedBody at h
    split at h
    · cases h
    · split at h
      · cases h
      · exact hfailure _ (Except.error.inj h)
  intro h
  unfold relayRaw relayError at h
  split at h
  · cases h
  · refine hbody _ (fun b hb => ?_) (map_eq_panic_iff.mp h)
    cases hb

theorem parseRelayJson_panic_iff (allowBrotliZstd : Bool) (body : List UInt8) :
    parseRelayJson crates allowBrotliZstd body = .error .panic ↔
      ∃ text, (fromUtf8 body).map Drive.trim = some text ∧ text ≠ [] ∧ Unparsed crates text ∧
        CutInQuotation crates text := by
  -- only the way to the JSON of the answer can panic
  have hdata : parseRelayJson crates allowBrotliZstd body = .error .panic ↔
      relayData crates body = .error .panic := by
    unfold parseRelayJson
    cases relayData crates body with
    | error e => simp
    | ok data =>
        have := relayRaw_ne_panic crates allowBrotliZstd data
        simp [this]
  rw [hdata]
  unfold relayData
  cases hutf8 : fromUtf8 body with
  | none => simp [badResponse]
  | some text =>
      simp only [Option.map_some, Option.some.injEq, exists_eq_left']
      generalize Drive.trim text = text
      by_cases hempty : text = []
      · simp [hempty, badResponse]
      · have hisEmpty : text.isEmpty = false := List.isEmpty_eq_false_iff.mpr hempty
        rw [hisEmpty, if_neg Bool.false_ne_true]
        cases hparse : crates.relayResponse text with
        | ok data => simp [Unparsed, hparse]
        | error e =>
            have hunparsed : Unparsed crates text := ⟨e, hparse⟩
            simp only [ne_eq, hempty, not_false_eq_true, hunparsed, true_and]
            unfold CutInQuotation
            -- the text may be a page of Apps Script's around the answer
            cases hextract : extractAppsScriptUserHtml crates text with
            | error e' => exact absurd hextract (extractAppsScriptUserHtml_ne_error crates _ _)
            | ok html =>
                cases html with
                | some unwrapped =>
                    cases hinner : crates.relayResponse unwrapped with
                    | ok data => simp [Unparsed, hinner]
                    | error e' => simp [Unparsed, hinner, quoted_eq_panic_iff]
                | none =>
                    -- it is not: the JSON is between braces, and a text without them is quoted
                    dsimp only
                    have hbraced := bracedJson_panic_iff (quoted "no json in: ")
                      (quoted "no json end in: ") text
                    simp only [quoted_eq_panic_iff] at hbraced
                    have hsame : ('{' ∉ text ∧ Inside text 200 ∨
                        '{' ∈ text ∧ '}' ∉ text ∧ Inside text 200) ↔
                        ('{' ∉ text ∨ '}' ∉ text) ∧ Inside text 200 := by tauto
                    rw [hsame] at hbraced
                    cases hjson : bracedJson (quoted "no json in: ") (quoted "no json end in: ")
                        text with
                    | error e' =>
                        rw [hjson, Except.error.injEq] at hbraced
                        simpa using hbraced
                    | ok json =>
                        rw [hjson] at hbraced
                        have hnot : ¬ (('{' ∉ text ∨ '}' ∉ text) ∧ Inside text 200) := by
                          intro h
                          cases hbraced.mpr h
                        cases hlast : crates.relayResponse json with
                        | ok data => simp [hnot, hlast]
                        | error e' => simp [hnot, hlast]

/-- The parser of exit-node envelopes slices within bounds. -/
theorem parseExitNodeResponse_ne_panic (allowBrotliZstd : Bool) (body : List UInt8) :
    parseExitNodeResponse crates allowBrotliZstd body ≠ .error .panic := by
  have hvalue : exitValue crates body ≠ .error .panic := by
    -- the mark, if there is one, is inside the body
    have hstart : ((position (crlf ++ crlf) body).map (· + 4)).getD 0 ≤ body.length := by
      cases hfirst : position (crlf ++ crlf) body with
      | none => exact Nat.zero_le _
      | some i => exact Segments.position_le hfirst
    intro h
    unfold exitValue relayError at h
    dsimp only at h
    rw [slice_of_le hstart (Nat.le_refl _)] at h
    dsimp only at h
    split at h
    · cases h
    · rw [slice_of_le (Nat.zero_le _) (Nat.min_le_left _ _)] at h
      cases h
  have hraw : ∀ v, exitRaw crates allowBrotliZstd v ≠ .error .panic := by
    intro v h
    unfold exitRaw relayError decodedBody at h
    split at h
    · cases h
    · dsimp only at h
      cases hb : (get v "b").bind Settings.Json.asString with
      | none =>
          rw [hb] at h
          dsimp only at h
          split_ifs at h
          cases h
      | some b =>
          rw [hb] at h
          dsimp only at h
          cases hdecode : Base64.decode b with
          | none =>
              rw [hdecode] at h
              cases h
          | some body =>
              rw [hdecode] at h
              dsimp only at h
              split_ifs at h
              cases h
  intro h
  unfold parseExitNodeResponse at h
  split at h
  · rename_i e hexit
    exact hvalue (by rw [hexit, Except.error.inj h])
  · exact hraw _ h

end

/-! ## Answers of the tunnel -/

/-- A text without a brace, whose quotation is cut inside a character. -/
def CutWithoutBrace (body : List UInt8) : Prop :=
  ∃ text, (fromUtf8 body).map Drive.trim = some text ∧ '{' ∉ text ∧ Inside text 200

theorem jsonText_panic_iff (kind : String) (body : List UInt8) :
    jsonText kind body = .error .panic ↔ CutWithoutBrace body := by
  unfold jsonText CutWithoutBrace
  cases hutf8 : fromUtf8 body with
  | none => simp [badResponse]
  | some text =>
      simp only [Option.map_some, Option.some.injEq, exists_eq_left']
      generalize Drive.trim text = text
      by_cases hstarts : text.head? = some '{'
      · have hopen : '{' ∈ text := List.mem_of_mem_head? hstarts
        simp [hstarts, hopen]
      · rw [if_neg hstarts, bracedJson_panic_iff, quoted_eq_panic_iff]
        simp [badResponse]

theorem httpFailure_ne_panic {α : Type} (label : String) (status : Nat) (body : List UInt8) :
    (httpFailure label status body : List Effect × Except Fault α).2 ≠ .error .panic := by
  intro h
  cases h

theorem finalizeTunnelResponse_panic_iff {T : Type} (fromStr : List Char → Except String T)
    (status : Nat) (respBody : List UInt8) :
    (finalizeTunnelResponse fromStr status respBody).2 = .error .panic ↔
      status = 200 ∧ CutWithoutBrace respBody := by
  unfold finalizeTunnelResponse
  by_cases hstatus : status = 200
  · rw [if_neg (not_not.mpr hstatus), ← jsonText_panic_iff "tunnel"]
    cases jsonText "tunnel" respBody with
    | error e => simp [hstatus]
    | ok json =>
        dsimp only
        cases fromStr json with
        | ok resp => simp
        | error e => simp
  · rw [if_pos hstatus]
    simp [hstatus, httpFailure_ne_panic]

theorem traceJson_cases (trace : Bool) (json : List Char) (n : Nat) :
    traceJson trace json n = .error .panic ∧ trace = true ∧ Inside json n ∨
      traceJson trace json n = .ok () ∧ ¬ (trace = true ∧ Inside json n) := by
  unfold traceJson
  rw [← ByteIndex.truncate_eq_none_iff]
  cases trace with
  | false => simp
  | true =>
      cases truncate json n with
      | none => simp
      | some cut => simp

/-- A batch is also quoted in two log lines, if the level is `trace`. -/
theorem finalizeBatchResponse_panic_iff {R : Type} (crates : BatchCrates R)
    (trace zstdEnabled : Bool) (status : Nat) (respBody : List UInt8) :
    (finalizeBatchResponse crates trace zstdEnabled status respBody).2 = .error .panic ↔
      status = 200 ∧ (CutWithoutBrace respBody ∨ trace = true ∧
        ∃ json, jsonText "batch" respBody = .ok json ∧
          (Inside json 500 ∨ (∃ e, crates.fromStr json = .error e) ∧ Inside json 300)) := by
  unfold finalizeBatchResponse
  by_cases hstatus : status = 200
  · rw [if_neg (not_not.mpr hstatus), ← jsonText_panic_iff "batch"]
    cases jsonText "batch" respBody with
    | error e => simp [hstatus]
    | ok json =>
        dsimp only
        rcases traceJson_cases trace json 500 with ⟨hcut, htrace, hinside⟩ | ⟨hcut, hinside⟩
        · rw [hcut]
          simp [hstatus, htrace, hinside]
        · rw [hcut]
          dsimp only
          cases hparse : crates.fromStr json with
          | ok resp =>
              constructor
              · intro h
                cases h
              · rintro ⟨-, h | ⟨htrace, json', hjson, h⟩⟩
                · cases h
                · obtain rfl := Except.ok.inj hjson
                  rcases h with h | ⟨⟨e, he⟩, -⟩
                  · exact absurd ⟨htrace, h⟩ hinside
                  · rw [hparse] at he
                    cases he
          | error e =>
              dsimp only
              rcases traceJson_cases trace json 300 with ⟨hcut', htrace, hinside'⟩ |
                ⟨hcut', hinside'⟩
              · rw [hcut']
                simp [hstatus, htrace, hinside', hparse]
              · rw [hcut']
                constructor
                · intro h
                  cases h
                · rintro ⟨-, h | ⟨htrace, json', hjson, h⟩⟩
                  · cases h
                  · obtain rfl := Except.ok.inj hjson
                    rcases h with h | ⟨-, h⟩
                    · exact absurd ⟨htrace, h⟩ hinside
                    · exact absurd ⟨htrace, h⟩ hinside'
  · rw [if_pos hstatus]
    simp [hstatus, httpFailure_ne_panic]

/-- The functions that read and parse what an edge sends, and exactly when each of them panics. -/
theorem panics_iff {T R : Type} (crates : Crates) (fromStr : List Char → Except String T)
    (batchCrates : BatchCrates R) :
    (∀ stream, readHttpResponse crates.decodeGzip stream = .error .panic ↔
      ∃ head rest status headers, HeadArrives stream.segs head rest ∧
        parseHead head = .ok (status, headers) ∧ isChunked headers = true ∧ HugeChunk rest) ∧
    (∀ allowBrotliZstd body, parseRelayJson crates allowBrotliZstd body = .error .panic ↔
      ∃ text, (fromUtf8 body).map Drive.trim = some text ∧ text ≠ [] ∧ Unparsed crates text ∧
        CutInQuotation crates text) ∧
    (∀ allowBrotliZstd body,
      parseExitNodeResponse crates allowBrotliZstd body ≠ .error .panic) ∧
    (∀ status body, (finalizeTunnelResponse fromStr status body).2 = .error .panic ↔
      status = 200 ∧ CutWithoutBrace body) ∧
    (∀ trace zstdEnabled status body,
      (finalizeBatchResponse batchCrates trace zstdEnabled status body).2 = .error .panic ↔
        status = 200 ∧ (CutWithoutBrace body ∨ trace = true ∧
          ∃ json, jsonText "batch" body = .ok json ∧
            (Inside json 500 ∨ (∃ e, batchCrates.fromStr json = .error e) ∧ Inside json 300))) :=
  ⟨readHttpResponse_panic_iff crates.decodeGzip, parseRelayJson_panic_iff crates,
    parseExitNodeResponse_ne_panic crates, finalizeTunnelResponse_panic_iff fromStr,
    finalizeBatchResponse_panic_iff batchCrates⟩

/-- The other crates, on texts that are not JSON and on bodies that are not compressed. -/
def noJsonCrates : Crates where
  relayResponse := fun _ => .error "expected value at line 1 column 1"
  value := fun _ => none
  valueFromSlice := fun _ => .error "expected value at line 1 column 1"
  base64Error := fun _ => "Invalid padding"
  decodeGzip := fun _ => none
  decodeBrotli := fun _ => none
  decodeZstd := fun _ => none
  floatText := id

/-- 199 letters and one of two bytes. -/
def cutText : List Char := List.replicate 199 'a' ++ ['é']

/-- A chunk of `2^64 - 1` bytes, and texts in which byte 200 is inside a character. -/
theorem panics_on_answers :
    readHttpResponse noJsonCrates.decodeGzip (oneSegment 72 (utf8
        "TTP/1.1 200 OK\r\ntransfer-encoding: chunked\r\n\r\nffffffffffffffff\r\n".toList)) =
      .error .panic ∧
    parseRelayJson noJsonCrates false (utf8 cutText) = .error .panic ∧
    (finalizeTunnelResponse (fun _ => (.error "expected value" : Except String Unit)) 200
      (utf8 cutText)).2 = .error .panic := by
  exact ⟨by decide +kernel, by decide +kernel, by decide +kernel⟩

end Rahgozar.Fronter.Envelope
