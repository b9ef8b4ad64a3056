import Rahgozar.Lib.Chunks
import Rahgozar.Lib.Traverse
import Rahgozar.Fronter.ResponseExact

set_option autoImplicit false

/-! # Three decoders of chunked bodies

`read_chunked` reads the responses of the edge, `read_chunked_request_body` the requests of the
browser, both as the bytes arrive; `decode_chunked` (`src/doh.rs`) takes a DoH answer that has
arrived as a whole. The two readers are the decoder of `Chunks`, each with its own reading of a
size line, however the stream is cut into reads.
-/

namespace Rahgozar.Chunked

open Drive (trim utf8 isWhitespace)
open Segments (position fill)
open Proxy.Mitm (Conn crlf fromUtf8 hexDigit fromStrRadix16)
open Fronter.Http (Ending SpellsHex)
open Chunks (LineSize FirstLine)

/-! ## DoH answers -/

/-- `to_ascii_lowercase` of bytes -/
def asciiLowercase (bytes : List UInt8) : List UInt8 :=
  bytes.map fun b => if 65 ≤ b ∧ b ≤ 90 then b + 32 else b

def headerIsChunked (headerBlock : List UInt8) : Bool :=
  let lower := asciiLowercase headerBlock
  (position (utf8 "transfer-encoding:".toList) lower).isSome &&
    (position (utf8 "chunked".toList) lower).isSome

/-- The size in a line of `decode_chunked`. -/
def answerSize (line : List UInt8) : Option Nat :=
  (fromUtf8 line).bind fun text => fromStrRadix16 (trim ((trim text).takeWhile (· ≠ ';')))

/-- `usize::checked_add` -/
def checkedAdd (a b : Nat) : Option Nat := if a + b < 2 ^ 64 then some (a + b) else none

/-- The loop of `decode_chunked`. -/
def decodeChunks : (fuel : Nat) → (out body : List UInt8) → Option (List UInt8)
  | 0, _, _ => none
  | fuel + 1, out, body =>
      match position crlf body with
      | none => none
      | some lineEnd =>
          match answerSize (body.take lineEnd) with
          | none => none
          | some size =>
              let dataStart := lineEnd + 2
              if size = 0 then some out
              else
                match checkedAdd dataStart size with
                | none => none
                | some dataEnd =>
                    if body.length < dataEnd then none
                    else
                      let out := out ++ (body.take dataEnd).drop dataStart
                      match checkedAdd dataEnd 2 with
                      | none => none
                      | some next =>
                          if body.length < next then some out
                          else decodeChunks fuel out (body.drop next)

/-- There are fewer turns than bytes, so that the fuel does not run out. -/
def decodeChunked (body : List UInt8) : Option (List UInt8) :=
  decodeChunks (body.length + 1) [] body

def httpResponseBody (resp : List UInt8) : Option (List UInt8) :=
  match position (crlf ++ crlf) resp with
  | none => none
  | some sep =>
      let body := resp.drop (sep + 4)
      if headerIsChunked (resp.take sep) then decodeChunked body else some body

/-! ## The two readers decode the stream -/

/-- A size line as `read_chunked` reads it. -/
def edgeLine (line : List UInt8) : LineSize :=
  match Fronter.Http.chunkSize line with
  | .error _ => .bad
  | .ok none => .blank
  | .ok (some n) => .size n

def edgeFits (_ n : Nat) : Bool := decide (n + 2 < 2 ^ 64)

/-- A size line as `read_chunked_request_body` reads it. -/
def requestLine (line : List UInt8) : LineSize :=
  if line.isEmpty then .blank
  else
    match Proxy.Mitm.chunkSize line with
    | .error _ => .bad
    | .ok n => .size n

def requestFits (len n : Nat) : Bool := decide (len + n ≤ Proxy.Mitm.maxRequestBodyBytes)

variable {buf line rest : List UInt8} {conn : Conn} {fuel : Nat}

theorem firstLine (hline : position crlf line = none) (rest : List UInt8) :
    FirstLine crlf line rest (line ++ (crlf ++ rest)) :=
  ⟨rfl, Segments.position_separator (by decide) hline rest⟩

theorem edge_readTrailers (ending : Ending) (hpos : ∀ seg ∈ conn, seg ≠ []) :
    (Fronter.Http.readTrailers ending fuel buf conn).toOption.isSome =
      Chunks.skipTrailers crlf fuel (buf ++ conn.flatten) := by
  induction fuel generalizing buf conn with
  | zero => rfl
  | succ fuel ih =>
    rw [Fronter.Http.readTrailers]
    rcases Fronter.Http.readCrlfLine_cases ending buf hpos with ⟨hnone, e, hread⟩ |
      ⟨line, buf', conn', hread, hline, hdata, hpos'⟩
    · rw [hread, Chunks.skipTrailers_none hnone]
      rfl
    · rw [hread, hdata, Chunks.skipTrailers_line (firstLine hline _), ← ih hpos']
      cases line with
      | nil => rfl
      | cons b line => rfl

/-- `read_chunked` decodes the stream, wherever the reads end. -/
theorem edge_readChunks (ending : Ending) {out : List UInt8} (hpos : ∀ seg ∈ conn, seg ≠ []) :
    (Fronter.Http.readChunks ending fuel out buf conn).toOption.map Prod.fst =
      Chunks.decode crlf edgeLine edgeFits fuel out (buf ++ conn.flatten) := by
  induction fuel generalizing buf conn out with
  | zero => rfl
  | succ fuel ih =>
    rw [Fronter.Http.readChunks]
    rcases Fronter.Http.readCrlfLine_cases ending buf hpos with ⟨hnone, e, hread⟩ |
      ⟨line, buf', conn', hread, hline, hdata, hpos'⟩
    · rw [hread, Chunks.decode_none hnone]
      rfl
    · rw [hread, hdata]
      dsimp only
      have hfirst := firstLine hline (buf' ++ conn'.flatten)
      cases hsize : Fronter.Http.chunkSize line with
      | error e =>
        rw [Chunks.decode_bad hfirst (by rw [edgeLine, hsize])]
        rfl
      | ok size =>
        cases size with
        | none => rw [Chunks.decode_blank hfirst (by rw [edgeLine, hsize]), ih hpos']
        | some n =>
          have hn : edgeLine line = .size n := by rw [edgeLine, hsize]
          dsimp only
          by_cases hzero : n = 0
          · subst hzero
            rw [if_pos rfl, Chunks.decode_last hfirst hn, ← edge_readTrailers ending hpos']
            cases Fronter.Http.readTrailers ending fuel buf' conn' <;> rfl
          · rw [if_neg hzero, Chunks.decode_size hfirst hn hzero]
            by_cases hsmall : n + 2 < 2 ^ 64
            · have hfits : edgeFits out.length n = true := decide_eq_true hsmall
              rw [if_pos hfits]
              have hcrlf : crlf.length = 2 := rfl
              rcases Fronter.Http.readChunkData_cases ending buf' hpos' hsmall with
                ⟨hshort, e, hread'⟩ |
                ⟨data, after, buf₂, conn₂, hlen, hafter, hdata₂, hpos₂, hread'⟩
              · have hnot : ¬ ((buf' ++ conn'.flatten).drop n).take crlf.length = crlf := by
                  intro heq
                  have hlength := congrArg List.length heq
                  rw [List.length_take, List.length_drop, hcrlf] at hlength
                  omega
                rw [hread', if_neg hnot]
                rfl
              · rw [hread', hdata₂, ← hlen, List.drop_left, List.take_left, ← List.drop_drop,
                  List.drop_left, hcrlf, ← hafter, List.take_left, List.drop_left]
                by_cases hsep : after = crlf
                · rw [if_neg (not_not.mpr hsep), if_pos hsep, ← ih hpos₂]
                · rw [if_pos hsep, if_neg hsep]
                  rfl
            · rw [if_neg (by simpa [edgeFits] using hsmall), Fronter.Http.readChunkData,
                Fronter.Http.addUsize, if_neg hsmall]
              rfl

theorem request_readCrlfLine (buf : List UInt8) (hpos : ∀ seg ∈ conn, seg ≠ []) :
    (position crlf (buf ++ conn.flatten) = none ∧
      ∃ e, Proxy.Mitm.readCrlfLine buf conn = .error e) ∨
    ∃ line buf' conn', Proxy.Mitm.readCrlfLine buf conn = .ok (line, buf', conn') ∧
      position crlf line = none ∧
      buf ++ conn.flatten = line ++ (crlf ++ (buf' ++ conn'.flatten)) ∧
      ∀ seg ∈ conn', seg ≠ [] := by
  let done := fun buf : List UInt8 => (position crlf buf).isSome
  have hreached : Segments.Reached done buf conn (fill 8192 done buf conn) :=
    Segments.fill_reached done buf (by decide) hpos
  unfold Proxy.Mitm.readCrlfLine
  generalize fill 8192 done buf conn = f at hreached ⊢
  dsimp only
  have hdone : (position crlf f.buf).isSome = !f.eof := hreached.done
  have hdata := hreached.data
  cases heof : f.eof with
  | true =>
    rw [heof, Bool.not_true, Option.isSome_eq_false_iff, Option.isNone_iff_eq_none] at hdone
    rw [hreached.ended heof, List.flatten_nil, List.append_nil] at hdata
    exact Or.inl ⟨hdata ▸ hdone, _, rfl⟩
  | false =>
    rw [heof, Bool.not_false] at hdone
    obtain ⟨idx, hidx⟩ := Option.isSome_iff_exists.mp hdone
    have hsplit := Segments.position_eq_some hidx
    refine Or.inr ⟨f.buf.take idx, f.buf.drop (idx + 2), f.rest, ?_,
      Segments.position_take_self (by decide) hidx, ?_, hreached.pos⟩
    · rw [if_neg Bool.false_ne_true, hidx]
    · calc buf ++ conn.flatten
          = f.buf ++ f.rest.flatten := hdata.symm
        _ = f.buf.take idx ++ (crlf ++ f.buf.drop (idx + 2)) ++ f.rest.flatten :=
            congrArg (· ++ f.rest.flatten) hsplit
        _ = f.buf.take idx ++ (crlf ++ (f.buf.drop (idx + 2) ++ f.rest.flatten)) := by
            rw [List.append_assoc, List.append_assoc]

/-- There are as many bytes in the buffer as wanted, or they do not come. -/
theorem request_fillBuffer (want : Nat) (buf : List UInt8) (hpos : ∀ seg ∈ conn, seg ≠ []) :
    ((buf ++ conn.flatten).length < want ∧
      ∃ e, Proxy.Mitm.fillBuffer want buf conn = .error e) ∨
    ∃ buf' conn', Proxy.Mitm.fillBuffer want buf conn = .ok (buf', conn') ∧
      want ≤ buf'.length ∧ buf' ++ conn'.flatten = buf ++ conn.flatten ∧
      ∀ seg ∈ conn', seg ≠ [] := by
  let done := fun buf : List UInt8 => decide (want ≤ buf.length)
  have hreached : Segments.Reached done buf conn (fill 8192 done buf conn) :=
    Segments.fill_reached done buf (by decide) hpos
  unfold Proxy.Mitm.fillBuffer
  generalize fill 8192 done buf conn = f at hreached ⊢
  dsimp only
  have hdone : decide (want ≤ f.buf.length) = !f.eof := hreached.done
  have hdata := hreached.data
  cases heof : f.eof with
  | true =>
    rw [heof, Bool.not_true, decide_eq_false_iff_not, not_le] at hdone
    rw [hreached.ended heof, List.flatten_nil, List.append_nil] at hdata
    exact Or.inl ⟨hdata ▸ hdone, _, rfl⟩
  | false =>
    rw [heof, Bool.not_false, decide_eq_true_eq] at hdone
    exact Or.inr ⟨f.buf, f.rest, rfl, hdone, hdata, hreached.pos⟩

theorem request_readTrailers (hpos : ∀ seg ∈ conn, seg ≠ []) :
    (Proxy.Mitm.readTrailers fuel buf conn).toOption.isSome =
      Chunks.skipTrailers crlf fuel (buf ++ conn.flatten) := by
  induction fuel generalizing buf conn with
  | zero => rfl
  | succ fuel ih =>
    rw [Proxy.Mitm.readTrailers]
    rcases request_readCrlfLine buf hpos with ⟨hnone, e, hread⟩ |
      ⟨line, buf', conn', hread, hline, hdata, hpos'⟩
    · rw [hread, Chunks.skipTrailers_none hnone]
      rfl
    · rw [hread, hdata, Chunks.skipTrailers_line (firstLine hline _), ← ih hpos']
      cases line with
      | nil => rfl
      | cons b line => rfl

/-- `read_chunked_request_body` decodes the stream, wherever the reads end. -/
theorem request_readChunks {out : List UInt8} (hpos : ∀ seg ∈ conn, seg ≠ []) :
    (Proxy.Mitm.readChunks fuel out buf conn).toOption.map Prod.fst =
      Chunks.decode crlf requestLine requestFits fuel out (buf ++ conn.flatten) := by
  induction fuel generalizing buf conn out with
  | zero => rfl
  | succ fuel ih =>
    rw [Proxy.Mitm.readChunks]
    rcases request_readCrlfLine buf hpos with ⟨hnone, e, hread⟩ |
      ⟨line, buf', conn', hread, hline, hdata, hpos'⟩
    · rw [hread, Chunks.decode_none hnone]
      rfl
    · rw [hread, hdata]
      dsimp only
      have hfirst := firstLine hline (buf' ++ conn'.flatten)
      cases hempty : line.isEmpty with
      | true =>
        rw [if_pos rfl, Chunks.decode_blank hfirst (by rw [requestLine, if_pos hempty]), ih hpos']
      | false =>
        rw [if_neg Bool.false_ne_true]
        have hsizeOf : requestLine line = match Proxy.Mitm.chunkSize line with
            | .error _ => .bad
            | .ok n => .size n := by rw [requestLine, hempty, if_neg Bool.false_ne_true]
        cases hsize : Proxy.Mitm.chunkSize line with
        | error e =>
          rw [Chunks.decode_bad hfirst (by rw [hsizeOf, hsize])]
          rfl
        | ok n =>
          have hn : requestLine line = .size n := by rw [hsizeOf, hsize]
          dsimp only
          by_cases hzero : n = 0
          · subst hzero
            rw [if_pos rfl, Chunks.decode_last hfirst hn, ← request_readTrailers hpos']
            cases Proxy.Mitm.readTrailers fuel buf' conn' <;> rfl
          · rw [if_neg hzero, Chunks.decode_size hfirst hn hzero]
            by_cases hlarge : Proxy.Mitm.maxRequestBodyBytes < out.length + n
            · have hfits : ¬ requestFits out.length n = true := by
                simpa [requestFits] using hlarge
              rw [if_pos hlarge, if_neg hfits]
              rfl
            · have hfits : requestFits out.length n = true := by
                simpa [requestFits] using hlarge
              have hcrlf : crlf.length = 2 := rfl
              rw [if_neg hlarge, if_pos hfits]
              rcases request_fillBuffer (n + 2) buf' hpos' with ⟨hshort, e, hread'⟩ |
                ⟨buf₂, conn₂, hread', hle, hdata₂, hpos₂⟩
              · have hnot : ¬ ((buf' ++ conn'.flatten).drop n).take crlf.length = crlf := by
                  intro heq
                  have hlength := congrArg List.length heq
                  rw [List.length_take, List.length_drop, hcrlf] at hlength
                  omega
                rw [hread', if_neg hnot]
                rfl
              · rw [hread', ← hdata₂, hcrlf, List.take_append_of_le_length (by omega),
                  List.drop_append_of_le_length (by omega : n ≤ buf₂.length),
                  List.drop_append_of_le_length hle,
                  List.take_append_of_le_length (by rw [List.length_drop]; omega)]
                dsimp only
                by_cases hsep : (buf₂.drop n).take 2 = crlf
                · rw [if_neg (not_not.mpr hsep), if_pos hsep, ← ih hpos₂]
                · rw [if_pos hsep, if_neg hsep]
                  rfl

/-! ## Size lines -/

/-- A size in hexadecimal digits, and extensions: blanks may stand in front of the first semicolon,
and behind it there is anything but the end of the line. -/
structure SizeLine where
  digits : List Char
  values : List Nat
  size : Nat
  spells : SpellsHex digits values size
  space : List Char
  ext : List UInt8
  blank : ∀ c ∈ space, c = ' ' ∨ c = '\t'
  starts : space = [] ∧ ext = [] ∨ ∃ after, ext = 59 :: after
  within : (13 : UInt8) ∉ ext

def SizeLine.bytes (l : SizeLine) : List UInt8 := utf8 (l.digits ++ l.space) ++ l.ext

/-- The extensions are UTF-8. -/
def SizeLine.IsText (l : SizeLine) : Prop := (fromUtf8 l.ext).isSome

/-- The extensions are UTF-8, and nothing stands between the size and the first semicolon. -/
structure SizeLine.Plain (l : SizeLine) : Prop where
  text : l.IsText
  space : l.space = []

theorem fromUtf8_append (text : List Char) (rest : List UInt8) :
    fromUtf8 (utf8 text ++ rest) = (fromUtf8 rest).map (text ++ ·) := by
  induction text with
  | nil =>
    show fromUtf8 rest = (fromUtf8 rest).map ([] ++ ·)
    simp
  | cons c text ih =>
    rw [Fronter.Http.utf8_cons, List.append_assoc, Fronter.Http.fromUtf8_encode, ih, Option.map_map]
    rfl

theorem position_crlf_none {l : List UInt8} (h : (13 : UInt8) ∉ l) : position crlf l = none := by
  have hhead : ∀ x ∈ l, crlf.head? ≠ some x := by
    intro x hx heq
    exact h (Option.some.inj heq ▸ hx)
  have hpos := Segments.position_append_left (by decide) hhead []
  rwa [List.append_nil] at hpos

namespace SizeLine

variable (l : SizeLine)

theorem isWhitespace_space {c : Char} (hc : c ∈ l.space) : isWhitespace c = true := by
  rcases l.blank c hc with rfl | rfl
  · decide
  · decide

theorem line_within : position crlf l.bytes = none := by
  apply position_crlf_none
  rw [bytes, List.mem_append, not_or]
  refine ⟨Fronter.Http.not_mem_utf8 (by decide) fun hmem => ?_, l.within⟩
  rcases List.mem_append.mp hmem with hdigit | hspace
  · exact l.spells.not_mem (by decide) hdigit
  · rcases l.blank _ hspace with h | h
    · exact absurd h (by decide)
    · exact absurd h (by decide)

theorem semicolon_notMem : ∀ c ∈ l.digits ++ l.space, decide (c ≠ ';') = true := by
  intro c hc
  refine decide_eq_true fun heq => ?_
  subst heq
  rcases List.mem_append.mp hc with hdigit | hspace
  · exact l.spells.not_mem (by decide) hdigit
  · rcases l.blank _ hspace with h | h
    · exact absurd h (by decide)
    · exact absurd h (by decide)

theorem isWhitespace_semicolon : isWhitespace ';' = false := by decide

/-- Trimming stops at the digits, and at the end of a middle part. -/
theorem trim_append (mid w : List Char) (hmid : (mid.getLast?).all (fun c => !isWhitespace c)) :
    trim (l.digits ++ mid ++ w) = l.digits ++ mid ++ w.rdropWhile isWhitespace := by
  have hdigit : ∀ c ∈ l.digits, isWhitespace c = false := fun c hc => l.spells.not_isWhitespace hc
  have hne : l.digits ++ mid ≠ [] := List.append_ne_nil_of_left_ne_nil l.spells.ne_nil _
  have hhead : ∀ c ∈ (l.digits ++ mid).head?, isWhitespace c = false := by
    intro c hc
    rw [List.head?_append_of_ne_nil _ l.spells.ne_nil] at hc
    exact hdigit c (List.mem_of_mem_head? hc)
  have hlast : ∀ c ∈ (l.digits ++ mid).getLast?, isWhitespace c = false := by
    intro c hc
    cases hm : mid.getLast? with
    | none =>
      rw [List.getLast?_eq_none_iff.mp hm, List.append_nil] at hc
      exact hdigit c (List.mem_of_mem_getLast? hc)
    | some d =>
      rw [List.getLast?_append, hm, Option.some_or, Option.mem_some] at hc
      subst hc
      simpa [hm] using hmid
  exact Trim.trim_append_append (v := []) hne hhead hlast

/-- The text in front of the first semicolon is the size and the blanks behind it. -/
theorem text_eq (h : l.IsText) : ∃ text, fromUtf8 l.bytes = some text ∧ trim text ≠ [] ∧
    (trim text).takeWhile (· ≠ ';') = l.digits ++ l.space := by
  obtain ⟨e, he⟩ := Option.isSome_iff_exists.mp h
  have hbytes : fromUtf8 l.bytes = some (l.digits ++ l.space ++ e) := by
    rw [bytes, fromUtf8_append, he, Option.map_some]
  rcases l.starts with ⟨hspace, hext⟩ | ⟨after, hext⟩
  · have htrim := l.trim_append [] [] rfl
    have hempty : e = [] := by
      rw [hext] at he
      exact (Option.some.inj he).symm
    have htext : trim (l.digits ++ l.space ++ e) = l.digits := by
      rw [hspace, hempty, List.append_nil]
      simpa using htrim
    refine ⟨_, hbytes, by rw [htext]; exact l.spells.ne_nil, ?_⟩
    have hall := List.takeWhile_eq_self_iff.mpr l.semicolon_notMem
    rw [hspace, List.append_nil] at hall ⊢
    rw [hspace, List.append_nil] at htext
    rw [htext]
    exact hall
  · have hcons : fromUtf8 l.ext = (fromUtf8 after).map (';' :: ·) := by
      rw [hext]
      exact Fronter.Http.fromUtf8_encode ';' after
    obtain ⟨e', -, rfl⟩ := Option.map_eq_some_iff.mp (hcons.symm.trans he)
    have htrim := l.trim_append (l.space ++ [';']) e' (by simp [isWhitespace_semicolon])
    have htext : trim (l.digits ++ l.space ++ ';' :: e') =
        l.digits ++ l.space ++ ';' :: e'.rdropWhile isWhitespace := by
      simpa using htrim
    refine ⟨_, hbytes, ?_, ?_⟩
    · rw [htext]
      simp
    · rw [htext, List.takeWhile_append_of_pos l.semicolon_notMem, List.takeWhile_cons_of_neg
        (by simp), List.append_nil]

/-- A blank behind the size is no digit. -/
theorem fromStrRadix16_space (h : l.space ≠ []) : fromStrRadix16 (l.digits ++ l.space) = none := by
  obtain ⟨c, hc⟩ := List.exists_mem_of_ne_nil _ h
  have hdigit : hexDigit c = none := by
    rcases l.blank c hc with rfl | rfl
    · decide
    · decide
  have hnone : (l.digits ++ l.space).mapM hexDigit = none :=
    Traverse.mapM_eq_none (List.mem_append_right _ hc) hdigit
  have hplus : (l.digits ++ l.space).head? ≠ some '+' := by
    rw [List.head?_append_of_ne_nil _ l.spells.ne_nil]
    exact fun hhead => l.spells.not_mem (by decide) (List.mem_of_mem_head? hhead)
  unfold fromStrRadix16
  dsimp only
  split
  next rest heq => exact absurd (congrArg List.head? heq) hplus
  next => rw [hnone, Option.bind_none, ite_self]

theorem trim_space : trim (l.digits ++ l.space) = l.digits := by
  have hnone : l.space.rdropWhile isWhitespace = [] := by
    rw [List.rdropWhile_eq_nil_iff]
    exact fun c hc => l.isWhitespace_space hc
  have htrim := l.trim_append [] l.space rfl
  rw [hnone] at htrim
  simpa using htrim

/-! ### How the decoders read a line -/

theorem bytes_ne_nil : l.bytes ≠ [] := by
  intro h
  rw [bytes, List.append_eq_nil_iff] at h
  have hread := Fronter.Http.fromUtf8_utf8 (l.digits ++ l.space)
  rw [h.1] at hread
  exact l.spells.ne_nil (List.append_eq_nil_iff.mp (Option.some.inj hread).symm).1

theorem fromUtf8_bytes_none (h : ¬ l.IsText) : fromUtf8 l.bytes = none := by
  have hnone : fromUtf8 l.ext = none := Option.not_isSome_iff_eq_none.mp h
  rw [bytes, fromUtf8_append, hnone, Option.map_none]

/-- A plain line says its size, in each of the two readers. -/
theorem plain_size (h : l.Plain) (hsmall : l.size < 2 ^ 64) :
    edgeLine l.bytes = .size l.size ∧ requestLine l.bytes = .size l.size := by
  obtain ⟨text, htext, hne, hsize⟩ := l.text_eq h.text
  rw [h.space, List.append_nil] at hsize
  have hedge : Fronter.Http.chunkSize l.bytes = .ok (some l.size) := by
    unfold Fronter.Http.chunkSize
    rw [htext]
    dsimp only
    rw [List.isEmpty_eq_false_iff.mpr hne, if_neg Bool.false_ne_true, hsize,
      l.spells.fromStrRadix16_eq hsmall]
  have hrequest : Proxy.Mitm.chunkSize l.bytes = .ok l.size := by
    unfold Proxy.Mitm.chunkSize
    rw [htext]
    dsimp only
    rw [hsize, l.spells.fromStrRadix16_eq hsmall]
  constructor
  · rw [edgeLine, hedge]
  · rw [requestLine, List.isEmpty_eq_false_iff.mpr l.bytes_ne_nil, if_neg Bool.false_ne_true,
      hrequest]

/-- Any other line is bad for both of them. -/
theorem not_plain_size (h : ¬ l.Plain) :
    edgeLine l.bytes = .bad ∧ requestLine l.bytes = .bad := by
  have hbad : (∃ e, Fronter.Http.chunkSize l.bytes = .error e) ∧
      ∃ e, Proxy.Mitm.chunkSize l.bytes = .error e := by
    unfold Fronter.Http.chunkSize Proxy.Mitm.chunkSize
    by_cases htext : l.IsText
    · obtain ⟨text, hread, hne, hsize⟩ := l.text_eq htext
      rw [hread]
      dsimp only
      rw [List.isEmpty_eq_false_iff.mpr hne, if_neg Bool.false_ne_true, hsize,
        l.fromStrRadix16_space fun hspace => h ⟨htext, hspace⟩]
      exact ⟨⟨_, rfl⟩, _, rfl⟩
    · rw [l.fromUtf8_bytes_none htext]
      exact ⟨⟨_, rfl⟩, _, rfl⟩
  obtain ⟨⟨e, hedge⟩, e', hrequest⟩ := hbad
  constructor
  · rw [edgeLine, hedge]
  · rw [requestLine, List.isEmpty_eq_false_iff.mpr l.bytes_ne_nil, if_neg Bool.false_ne_true,
      hrequest]

/-- `decode_chunked` trims the size once more, so that blanks behind it do not matter. -/
theorem answerSize_eq (hsmall : l.size < 2 ^ 64) :
    answerSize l.bytes = some l.size ∧ l.IsText ∨ answerSize l.bytes = none ∧ ¬ l.IsText := by
  unfold answerSize
  by_cases htext : l.IsText
  · obtain ⟨text, hread, -, hsize⟩ := l.text_eq htext
    refine Or.inl ⟨?_, htext⟩
    rw [hread, Option.bind_some, hsize, l.trim_space, l.spells.fromStrRadix16_eq hsmall]
  · rw [l.fromUtf8_bytes_none htext]
    exact Or.inr ⟨rfl, htext⟩

end SizeLine

end Rahgozar.Chunked
