import Rahgozar.Proxy.ChunkedDecoders

set_option autoImplicit false

/-! # Messages in chunks and their three decoders

A complete message is decoded by all three exactly when nothing but extensions in UTF-8 stands
behind the sizes of its lines; a chunk that is not followed by `\r\n` stops the two readers, but
not `decode_chunked`.
-/

namespace Rahgozar.Chunked

open Drive (utf8)
open Segments (position)
open Proxy.Mitm (Conn crlf)
open Fronter.Http (Ending)
open Chunks (LineSize FirstLine)

variable {buf : List UInt8} {conn : Conn} {fuel : Nat}

/-! ## Messages -/

structure Chunk where
  line : SizeLine
  data : List UInt8
  ne_nil : data ≠ []
  size_eq : line.size = data.length

def encodeChunks (chunks : List Chunk) : List UInt8 :=
  chunks.flatMap fun c => c.line.bytes ++ (crlf ++ (c.data ++ crlf))

def dataOf (chunks : List Chunk) : List UInt8 := chunks.flatMap Chunk.data

/-- The last size line, of size zero, and the trailer fields. -/
def encodeEnd (last : SizeLine) (trailers : List (List UInt8)) : List UInt8 :=
  last.bytes ++ (crlf ++ (trailers.flatMap (fun t => t ++ crlf) ++ crlf))

/-- A complete message in chunks, within the limits of the decoders. -/
structure Message where
  chunks : List Chunk
  last : SizeLine
  trailers : List (List UInt8)
  last_zero : last.size = 0
  fields : ∀ t ∈ trailers, t ≠ [] ∧ (13 : UInt8) ∉ t
  body_le : (dataOf chunks).length ≤ Proxy.Mitm.maxRequestBodyBytes
  small : (encodeChunks chunks ++ encodeEnd last trailers).length < 2 ^ 63

/-- A message with a chunk whose data is followed by something else than the separator. -/
structure Broken where
  chunks : List Chunk
  line : SizeLine
  data : List UInt8
  tail : List UInt8
  ne_nil : data ≠ []
  size_eq : line.size = data.length
  not_crlf : ¬ crlf <+: tail
  small : (encodeChunks chunks ++ (line.bytes ++ (crlf ++ (data ++ tail)))).length < 2 ^ 63

theorem encodeChunks_cons (c : Chunk) (chunks : List Chunk) (rest : List UInt8) :
    encodeChunks (c :: chunks) ++ rest =
      c.line.bytes ++ (crlf ++ (c.data ++ (crlf ++ (encodeChunks chunks ++ rest)))) := by
  rw [encodeChunks, List.flatMap_cons]
  simp only [List.append_assoc]
  rfl

/-! ### The two readers -/

section Readers

variable {lineSize : List UInt8 → LineSize} {fits : Nat → Nat → Bool} {last : SizeLine}
  {trailers : List (List UInt8)} {out : List UInt8}

/-- A message is decoded if and only if its size lines are plain. -/
theorem decode_message
    (hline : ∀ l : SizeLine, l.size < 2 ^ 64 →
      l.Plain ∧ lineSize l.bytes = .size l.size ∨ ¬ l.Plain ∧ lineSize l.bytes = .bad)
    (hfits : ∀ len n, len + n ≤ Proxy.Mitm.maxRequestBodyBytes → fits len n = true)
    (hzero : last.size = 0) (hfields : ∀ t ∈ trailers, t ≠ [] ∧ (13 : UInt8) ∉ t)
    (chunks : List Chunk) (rest : List UInt8)
    (hbody : (out ++ dataOf chunks).length ≤ Proxy.Mitm.maxRequestBodyBytes)
    (hfuel : (encodeChunks chunks ++ encodeEnd last trailers).length < fuel) {b : List UInt8} :
    Chunks.decode crlf lineSize fits fuel out
        (encodeChunks chunks ++ (encodeEnd last trailers ++ rest)) = some b ↔
      ((∀ c ∈ chunks, c.line.Plain) ∧ last.Plain) ∧ b = out ++ dataOf chunks := by
  induction chunks generalizing fuel out with
  | nil =>
    -- the last line, and the trailers
    obtain ⟨fuel, rfl⟩ : ∃ f, fuel = f + 1 := ⟨fuel - 1, by omega⟩
    have hend : encodeChunks [] ++ (encodeEnd last trailers ++ rest) = last.bytes ++
        (crlf ++ (trailers.flatMap (fun t => t ++ crlf) ++ (crlf ++ rest))) := by
      simp [encodeChunks, encodeEnd]
    have hfirst := firstLine last.line_within
      (trailers.flatMap (fun t => t ++ crlf) ++ (crlf ++ rest))
    rw [hend]
    rcases hline last (by omega) with ⟨hplain, hsize⟩ | ⟨hbad, hsize⟩
    · have hlines := Proxy.Mitm.length_le_lines trailers
      have hskip : Chunks.skipTrailers crlf fuel
          (trailers.flatMap (fun t => t ++ crlf) ++ (crlf ++ rest)) = true := by
        refine Chunks.skipTrailers_lines (fun t ht => ⟨(hfields t ht).1, fun rest => ?_⟩)
          (fun rest => firstLine rfl rest) ?_ rest
        · exact firstLine (position_crlf_none (hfields t ht).2) rest
        · have hcrlf : crlf.length = 2 := rfl
          simp only [encodeEnd, List.length_append] at hfuel
          omega
      rw [hzero] at hsize
      rw [Chunks.decode_last hfirst hsize, hskip, if_pos rfl, Option.some_inj]
      simp [hplain, dataOf, eq_comm]
    · rw [Chunks.decode_bad hfirst hsize]
      simp [hbad]
  | cons c chunks ih =>
    obtain ⟨fuel, rfl⟩ : ∃ f, fuel = f + 1 := ⟨fuel - 1, by omega⟩
    have hcrlf : crlf.length = 2 := rfl
    have hlen := congrArg List.length (encodeChunks_cons c chunks (encodeEnd last trailers))
    simp only [List.length_append] at hlen hfuel hbody
    have hcons : dataOf (c :: chunks) = c.data ++ dataOf chunks := List.flatMap_cons
    rw [hcons, List.length_append] at hbody
    have hmax : Proxy.Mitm.maxRequestBodyBytes < 2 ^ 64 := by decide
    have hfirst := firstLine c.line.line_within
      (c.data ++ (crlf ++ (encodeChunks chunks ++ (encodeEnd last trailers ++ rest))))
    rw [encodeChunks_cons]
    rcases hline c.line (by rw [c.size_eq]; omega) with ⟨hplain, hsize⟩ | ⟨hbad, hsize⟩
    · rw [c.size_eq] at hsize
      rw [Chunks.decode_chunk hfirst hsize c.ne_nil (hfits _ _ (by omega)),
        ih (by simp only [List.length_append]; omega) (by simp only [List.length_append]; omega),
        hcons, List.append_assoc]
      simp [hplain]
    · rw [Chunks.decode_bad hfirst hsize]
      simp [hbad]

/-- A message with a chunk that is not followed by the separator is not decoded. -/
theorem decode_broken {line : SizeLine} {data tail : List UInt8}
    (hline : ∀ l : SizeLine, l.size < 2 ^ 64 →
      l.Plain ∧ lineSize l.bytes = .size l.size ∨ ¬ l.Plain ∧ lineSize l.bytes = .bad)
    (hne : data ≠ []) (hsize : line.size = data.length) (htail : ¬ crlf <+: tail)
    (chunks : List Chunk)
    (hsmall : (encodeChunks chunks ++ (line.bytes ++ (crlf ++ (data ++ tail)))).length < 2 ^ 63) :
    Chunks.decode crlf lineSize fits fuel out
      (encodeChunks chunks ++ (line.bytes ++ (crlf ++ (data ++ tail)))) = none := by
  induction chunks generalizing fuel out with
  | nil =>
    have hfirst := firstLine line.line_within (data ++ tail)
    have hlt : line.size < 2 ^ 64 := by
      simp only [List.length_append] at hsmall
      omega
    show Chunks.decode crlf lineSize fits fuel out (line.bytes ++ (crlf ++ (data ++ tail))) = none
    rcases hline line hlt with ⟨-, hline'⟩ | ⟨-, hbad⟩
    · rw [hsize] at hline'
      exact Chunks.decode_broken hfirst hline' hne htail
    · exact Chunks.decode_bad hfirst hbad
  | cons c chunks ih =>
    rw [encodeChunks_cons] at hsmall ⊢
    have hfirst := firstLine c.line.line_within
      (c.data ++ (crlf ++ (encodeChunks chunks ++ (line.bytes ++ (crlf ++ (data ++ tail))))))
    have hlt : c.line.size < 2 ^ 64 := by
      rw [c.size_eq]
      simp only [List.length_append] at hsmall
      omega
    rcases hline c.line hlt with ⟨-, hline'⟩ | ⟨-, hbad⟩
    · cases fuel with
      | zero => rfl
      | succ fuel =>
        rw [c.size_eq] at hline'
        by_cases hfits : fits out.length c.data.length = true
        · rw [Chunks.decode_chunk hfirst hline' c.ne_nil hfits]
          refine ih ?_
          simp only [List.length_append] at hsmall ⊢
          omega
        · have hn : c.data.length ≠ 0 := fun hn => c.ne_nil (List.length_eq_zero_iff.mp hn)
          rw [Chunks.decode_size hfirst hline' hn, if_neg hfits]
    · exact Chunks.decode_bad hfirst hbad

end Readers

/-! ### DoH answers -/

section Answers

variable {out line bytes data tail : List UInt8}

/-- One chunk of `decode_chunked`: the two bytes behind the data are not looked at, and where there
are fewer the body ends. -/
theorem decodeChunks_chunk (h : FirstLine crlf line (data ++ tail) bytes)
    (hsize : answerSize line = some data.length) (hdata : data ≠ [])
    (hsmall : bytes.length < 2 ^ 63) :
    decodeChunks (fuel + 1) out bytes =
      if tail.length < 2 then some (out ++ data)
      else decodeChunks fuel (out ++ data) (tail.drop 2) := by
  have hn : data.length ≠ 0 := fun hn => hdata (List.length_eq_zero_iff.mp hn)
  have hlen : bytes.length = line.length + 2 + data.length + tail.length := by
    rw [h.data]
    simp only [List.length_append]
    have hcrlf : crlf.length = 2 := rfl
    omega
  have hfront : bytes.take (line.length + 2 + data.length) = line ++ crlf ++ data := by
    have hsplit : bytes = (line ++ crlf ++ data) ++ tail := by
      rw [h.data]
      simp only [List.append_assoc]
    have hfrontlen : (line ++ crlf ++ data).length = line.length + 2 + data.length := by
      simp only [List.length_append]
      rfl
    rw [hsplit, ← hfrontlen, List.take_left]
  have hdrop : bytes.drop (line.length + 2) = data ++ tail := h.drop
  rw [decodeChunks, h.first]
  dsimp only
  rw [h.take, hsize]
  dsimp only
  rw [if_neg hn, checkedAdd, if_pos (by omega)]
  dsimp only
  rw [if_neg (by omega), checkedAdd, if_pos (by omega), hfront, List.append_assoc line,
    ← List.drop_drop, List.drop_left]
  dsimp only
  have hdata' : (crlf ++ data).drop 2 = data := rfl
  have hnext : bytes.drop (line.length + 2 + data.length + 2) = tail.drop 2 := by
    rw [← List.drop_drop, ← List.drop_drop, hdrop, List.drop_left]
  rw [hdata', hnext]
  by_cases hfew : tail.length < 2
  · rw [if_pos hfew, if_pos (by omega)]
  · rw [if_neg hfew, if_neg (by omega)]

theorem decodeChunks_last {rest : List UInt8} (h : FirstLine crlf line rest bytes)
    (hsize : answerSize line = some 0) : decodeChunks (fuel + 1) out bytes = some out := by
  rw [decodeChunks, h.first]
  dsimp only
  rw [h.take, hsize]
  rfl

theorem decodeChunks_bad {rest : List UInt8} (h : FirstLine crlf line rest bytes)
    (hsize : answerSize line = none) : decodeChunks fuel out bytes = none := by
  cases fuel with
  | zero => rfl
  | succ fuel =>
    rw [decodeChunks, h.first]
    dsimp only
    rw [h.take, hsize]

/-- A message is decoded if and only if its size lines are UTF-8. -/
theorem decodeChunks_message {last : SizeLine} {trailers : List (List UInt8)}
    (hzero : last.size = 0) (chunks : List Chunk)
    (hsmall : (encodeChunks chunks ++ encodeEnd last trailers).length < 2 ^ 63)
    (hfuel : (encodeChunks chunks ++ encodeEnd last trailers).length < fuel) {b : List UInt8} :
    decodeChunks fuel out (encodeChunks chunks ++ encodeEnd last trailers) = some b ↔
      ((∀ c ∈ chunks, c.line.IsText) ∧ last.IsText) ∧ b = out ++ dataOf chunks := by
  induction chunks generalizing fuel out with
  | nil =>
    obtain ⟨fuel, rfl⟩ : ∃ f, fuel = f + 1 := ⟨fuel - 1, by omega⟩
    have hfirst := firstLine last.line_within (trailers.flatMap (fun t => t ++ crlf) ++ crlf)
    show decodeChunks (fuel + 1) out (last.bytes ++
      (crlf ++ (trailers.flatMap (fun t => t ++ crlf) ++ crlf))) = some b ↔ _
    rcases last.answerSize_eq (by omega) with ⟨hsize, htext⟩ | ⟨hsize, htext⟩
    · rw [hzero] at hsize
      rw [decodeChunks_last hfirst hsize]
      simp [htext, dataOf, eq_comm]
    · rw [decodeChunks_bad hfirst hsize]
      simp [htext]
  | cons c chunks ih =>
    obtain ⟨fuel, rfl⟩ : ∃ f, fuel = f + 1 := ⟨fuel - 1, by omega⟩
    rw [encodeChunks_cons] at hsmall hfuel ⊢
    have hcons : dataOf (c :: chunks) = c.data ++ dataOf chunks := List.flatMap_cons
    have hfirst := firstLine c.line.line_within
      (c.data ++ (crlf ++ (encodeChunks chunks ++ encodeEnd last trailers)))
    have hlens := hsmall
    have hcrlf : crlf.length = 2 := rfl
    simp only [List.length_append] at hlens hfuel
    rcases c.line.answerSize_eq (by rw [c.size_eq]; omega) with ⟨hsize, htext⟩ | ⟨hsize, htext⟩
    · rw [c.size_eq] at hsize
      have htail : ¬ (crlf ++ (encodeChunks chunks ++ encodeEnd last trailers)).length < 2 := by
        simp only [List.length_append]
        omega
      have hrest : (crlf ++ (encodeChunks chunks ++ encodeEnd last trailers)).drop 2 =
          encodeChunks chunks ++ encodeEnd last trailers := rfl
      rw [decodeChunks_chunk hfirst hsize c.ne_nil hsmall, if_neg htail, hrest,
        ih (by simp only [List.length_append]; omega) (by simp only [List.length_append]; omega),
        hcons, List.append_assoc]
      simp [htext]
    · rw [decodeChunks_bad hfirst hsize]
      simp [htext]

/-- What `decode_chunked` takes: chunks of which the data is followed by any two bytes, up to a
line of size zero or the end of the input. -/
inductive Tolerated : (bytes : List UInt8) → Prop where
  | last {bytes line rest : List UInt8} (h : FirstLine crlf line rest bytes)
      (hsize : answerSize line = some 0) : Tolerated bytes
  | ends {bytes line data tail : List UInt8} (h : FirstLine crlf line (data ++ tail) bytes)
      (hsize : answerSize line = some data.length) (hdata : data ≠ [])
      (htail : tail.length < 2) : Tolerated bytes
  | chunk {bytes line data tail : List UInt8} (h : FirstLine crlf line (data ++ tail) bytes)
      (hsize : answerSize line = some data.length) (hdata : data ≠ [])
      (htail : ¬ tail.length < 2) (hrest : Tolerated (tail.drop 2)) : Tolerated bytes

theorem Tolerated.decodes (h : Tolerated bytes) (hsmall : bytes.length < 2 ^ 63)
    (hfuel : bytes.length < fuel) : (decodeChunks fuel out bytes).isSome = true := by
  induction h generalizing fuel out with
  | last h hsize =>
    obtain ⟨fuel, rfl⟩ : ∃ f, fuel = f + 1 := ⟨fuel - 1, by omega⟩
    rw [decodeChunks_last h hsize]
    rfl
  | ends h hsize hdata htail =>
    obtain ⟨fuel, rfl⟩ : ∃ f, fuel = f + 1 := ⟨fuel - 1, by omega⟩
    rw [decodeChunks_chunk h hsize hdata hsmall, if_pos htail]
    rfl
  | chunk h hsize hdata htail _ ih =>
    obtain ⟨fuel, rfl⟩ : ∃ f, fuel = f + 1 := ⟨fuel - 1, by omega⟩
    have hlen := congrArg List.length h.data
    have hcrlf : crlf.length = 2 := rfl
    simp only [List.length_append] at hlen
    rw [decodeChunks_chunk h hsize hdata hsmall, if_neg htail]
    exact ih (by rw [List.length_drop]; omega) (by rw [List.length_drop]; omega)

theorem tolerated_of_decodes (hsmall : bytes.length < 2 ^ 63)
    (h : (decodeChunks fuel out bytes).isSome = true) : Tolerated bytes := by
  induction fuel generalizing out bytes with
  | zero => cases h
  | succ fuel ih =>
    cases hpos : position crlf bytes with
    | none =>
      rw [decodeChunks, hpos] at h
      cases h
    | some i =>
      have hfirst := Chunks.firstLine_of_position hpos
      set line := bytes.take i with hline
      set rest := bytes.drop (i + crlf.length) with hrest
      have hlen := congrArg List.length hfirst.data
      have hcrlf : crlf.length = 2 := rfl
      simp only [List.length_append] at hlen
      cases hsize : answerSize line with
      | none =>
        rw [decodeChunks_bad hfirst hsize] at h
        cases h
      | some n =>
        by_cases hzero : n = 0
        · subst hzero
          exact .last hfirst hsize
        · by_cases hshort : rest.length < n
          · -- the input ends within the data
            have hlinelen : line.length = i := by
              have hle := Segments.position_le hpos
              rw [hline, List.length_take]
              omega
            rw [decodeChunks, hpos] at h
            dsimp only at h
            rw [← hline, hsize] at h
            dsimp only at h
            rw [if_neg hzero, checkedAdd] at h
            split_ifs at h with hsum
            · dsimp only at h
              rw [if_pos (by omega)] at h
              cases h
            · cases h
          · -- all of the data is there, and two bytes behind it are skipped
            have hdata : (rest.take n).length = n := by
              rw [List.length_take]
              omega
            have hne : rest.take n ≠ [] := by
              intro hnil
              rw [hnil] at hdata
              exact hzero hdata.symm
            have hfirst' : FirstLine crlf line (rest.take n ++ rest.drop n) bytes := by
              rw [List.take_append_drop]
              exact hfirst
            have hsize' : answerSize line = some (rest.take n).length := by rw [hdata, hsize]
            rw [decodeChunks_chunk hfirst' hsize' hne hsmall] at h
            by_cases htail : (rest.drop n).length < 2
            · exact .ends hfirst' hsize' hne htail
            · rw [if_neg htail] at h
              refine .chunk hfirst' hsize' hne htail (ih ?_ h)
              rw [List.length_drop, List.length_drop]
              omega

/-- A message with a chunk that is not followed by the separator is refused if and only if one of
its size lines is not UTF-8, or what stands two bytes behind the chunk is not taken. -/
theorem decodeChunks_broken {line : SizeLine} (hne : data ≠ []) (hsize : line.size = data.length)
    (chunks : List Chunk)
    (hsmall : (encodeChunks chunks ++ (line.bytes ++ (crlf ++ (data ++ tail)))).length < 2 ^ 63)
    (hfuel : (encodeChunks chunks ++ (line.bytes ++ (crlf ++ (data ++ tail)))).length < fuel) :
    decodeChunks fuel out (encodeChunks chunks ++ (line.bytes ++ (crlf ++ (data ++ tail)))) = none ↔
      ((∀ c ∈ chunks, c.line.IsText) ∧ line.IsText →
        2 ≤ tail.length ∧ ¬ Tolerated (tail.drop 2)) := by
  have hcrlf : crlf.length = 2 := rfl
  induction chunks generalizing fuel out with
  | nil =>
    obtain ⟨fuel, rfl⟩ : ∃ f, fuel = f + 1 := ⟨fuel - 1, by omega⟩
    have hfirst := firstLine line.line_within (data ++ tail)
    have hsmall' : (line.bytes ++ (crlf ++ (data ++ tail))).length < 2 ^ 63 := hsmall
    have hfuel' : (line.bytes ++ (crlf ++ (data ++ tail))).length < fuel + 1 := hfuel
    have hlens := hsmall'
    simp only [List.length_append] at hlens hfuel'
    show decodeChunks (fuel + 1) out (line.bytes ++ (crlf ++ (data ++ tail))) = none ↔ _
    rcases line.answerSize_eq (by omega) with ⟨hline, htext⟩ | ⟨hline, htext⟩
    · rw [hsize] at hline
      rw [decodeChunks_chunk hfirst hline hne hsmall']
      have hnone : (∀ c ∈ ([] : List Chunk), c.line.IsText) ∧ line.IsText := ⟨by simp, htext⟩
      -- two bytes are skipped, whatever they are, and the rest has to be taken
      by_cases hfew : tail.length < 2
      · rw [if_pos hfew]
        exact iff_of_false (by simp) fun h => absurd (h hnone).1 (by omega)
      · have hdrop : (tail.drop 2).length < 2 ^ 63 := by
          rw [List.length_drop]
          omega
        have hdrop' : (tail.drop 2).length < fuel := by
          rw [List.length_drop]
          omega
        have htaken : (decodeChunks fuel (out ++ data) (tail.drop 2)).isSome = true ↔
            Tolerated (tail.drop 2) :=
          ⟨tolerated_of_decodes hdrop, fun h => h.decodes hdrop hdrop'⟩
        rw [if_neg hfew, ← Option.not_isSome_iff_eq_none, htaken]
        exact ⟨fun h _ => ⟨by omega, h⟩, fun h => (h hnone).2⟩
    · rw [decodeChunks_bad hfirst hline]
      exact iff_of_true rfl fun h => absurd h.2 htext
  | cons c chunks ih =>
    obtain ⟨fuel, rfl⟩ : ∃ f, fuel = f + 1 := ⟨fuel - 1, by omega⟩
    rw [encodeChunks_cons] at hsmall hfuel ⊢
    have hfirst := firstLine c.line.line_within
      (c.data ++ (crlf ++ (encodeChunks chunks ++ (line.bytes ++ (crlf ++ (data ++ tail))))))
    have hlens := hsmall
    simp only [List.length_append] at hlens hfuel
    rcases c.line.answerSize_eq (by rw [c.size_eq]; omega) with ⟨hline, htext⟩ | ⟨hline, htext⟩
    · rw [c.size_eq] at hline
      -- behind a whole chunk it is the separator that is skipped
      have hlong : ¬ (crlf ++
          (encodeChunks chunks ++ (line.bytes ++ (crlf ++ (data ++ tail))))).length < 2 := by
        simp only [List.length_append]
        omega
      have hrest :
          (crlf ++ (encodeChunks chunks ++ (line.bytes ++ (crlf ++ (data ++ tail))))).drop 2 =
            encodeChunks chunks ++ (line.bytes ++ (crlf ++ (data ++ tail))) := rfl
      rw [decodeChunks_chunk hfirst hline c.ne_nil hsmall, if_neg hlong, hrest]
      refine (ih ?_ ?_).trans ?_
      · simp only [List.length_append]
        omega
      · simp only [List.length_append]
        omega
      · simp [htext]
    · rw [decodeChunks_bad hfirst hline]
      exact iff_of_true rfl fun h => absurd (h.1 c List.mem_cons_self) htext

end Answers

/-! ## Agreement -/

def Message.encoded (m : Message) : List UInt8 :=
  encodeChunks m.chunks ++ encodeEnd m.last m.trailers

def Message.body (m : Message) : List UInt8 := dataOf m.chunks

def Message.lines (m : Message) : List SizeLine := m.chunks.map Chunk.line ++ [m.last]

/-- The three decoders return the body, and the two readers do however the stream is cut into
reads and whatever comes behind the message. -/
structure Message.Agree (m : Message) : Prop where
  edge : ∀ (ending : Ending) (buf : List UInt8) (conn : Conn) (rest : List UInt8),
    (∀ seg ∈ conn, seg ≠ []) → buf ++ conn.flatten = m.encoded ++ rest →
      ∃ conn', Fronter.Http.readChunked ending buf conn = .ok (m.body, conn')
  request : ∀ (buf : List UInt8) (conn : Conn) (rest : List UInt8),
    (∀ seg ∈ conn, seg ≠ []) → buf ++ conn.flatten = m.encoded ++ rest →
      ∃ conn', Proxy.Mitm.readChunkedRequestBody buf conn = .ok (m.body, conn')
  answer : decodeChunked m.encoded = some m.body

def Broken.bytes (b : Broken) : List UInt8 :=
  encodeChunks b.chunks ++ (b.line.bytes ++ (crlf ++ (b.data ++ b.tail)))

def Broken.lines (b : Broken) : List SizeLine := b.chunks.map Chunk.line ++ [b.line]

/-- None of the decoders returns a body. -/
structure Broken.Refused (b : Broken) : Prop where
  edge : ∀ (ending : Ending) (buf : List UInt8) (conn : Conn),
    (∀ seg ∈ conn, seg ≠ []) → buf ++ conn.flatten = b.bytes →
      ∀ r, Fronter.Http.readChunked ending buf conn ≠ .ok r
  request : ∀ (buf : List UInt8) (conn : Conn),
    (∀ seg ∈ conn, seg ≠ []) → buf ++ conn.flatten = b.bytes →
      ∀ r, Proxy.Mitm.readChunkedRequestBody buf conn ≠ .ok r
  answer : decodeChunked b.bytes = none

theorem edgeLine_cases (l : SizeLine) (h : l.size < 2 ^ 64) :
    l.Plain ∧ edgeLine l.bytes = .size l.size ∨ ¬ l.Plain ∧ edgeLine l.bytes = .bad := by
  by_cases hplain : l.Plain
  · exact Or.inl ⟨hplain, (l.plain_size hplain h).1⟩
  · exact Or.inr ⟨hplain, (l.not_plain_size hplain).1⟩

theorem requestLine_cases (l : SizeLine) (h : l.size < 2 ^ 64) :
    l.Plain ∧ requestLine l.bytes = .size l.size ∨ ¬ l.Plain ∧ requestLine l.bytes = .bad := by
  by_cases hplain : l.Plain
  · exact Or.inl ⟨hplain, (l.plain_size hplain h).2⟩
  · exact Or.inr ⟨hplain, (l.not_plain_size hplain).2⟩

theorem edgeFits_of_le (len n : Nat) (h : len + n ≤ Proxy.Mitm.maxRequestBodyBytes) :
    edgeFits len n = true := by
  have hmax : Proxy.Mitm.maxRequestBodyBytes + 2 < 2 ^ 64 := by decide
  exact decide_eq_true (by omega)

theorem requestFits_of_le (len n : Nat) (h : len + n ≤ Proxy.Mitm.maxRequestBodyBytes) :
    requestFits len n = true := decide_eq_true h

/-- `read_chunked` has returned `b`. -/
theorem edge_eq_ok_iff (ending : Ending) (hpos : ∀ seg ∈ conn, seg ≠ []) {b : List UInt8} :
    (∃ conn', Fronter.Http.readChunked ending buf conn = .ok (b, conn')) ↔
      Chunks.decode crlf edgeLine edgeFits (buf.length + conn.flatten.length + 1) []
        (buf ++ conn.flatten) = some b := by
  rw [← edge_readChunks ending hpos, Fronter.Http.readChunked]
  cases Fronter.Http.readChunks ending (buf.length + conn.flatten.length + 1) [] buf conn with
  | error e => simp [Except.toOption]
  | ok r =>
    obtain ⟨out, conn'⟩ := r
    simp [Except.toOption]

theorem request_eq_ok_iff (hpos : ∀ seg ∈ conn, seg ≠ []) {b : List UInt8} :
    (∃ conn', Proxy.Mitm.readChunkedRequestBody buf conn = .ok (b, conn')) ↔
      Chunks.decode crlf requestLine requestFits (buf.length + conn.flatten.length + 1) []
        (buf ++ conn.flatten) = some b := by
  rw [← request_readChunks hpos, Proxy.Mitm.readChunkedRequestBody]
  cases Proxy.Mitm.readChunks (buf.length + conn.flatten.length + 1) [] buf conn with
  | error e => simp [Except.toOption]
  | ok r =>
    obtain ⟨out, conn'⟩ := r
    simp [Except.toOption]

theorem Message.lines_iff (m : Message) (p : SizeLine → Prop) :
    (∀ l ∈ m.lines, p l) ↔ (∀ c ∈ m.chunks, p c.line) ∧ p m.last := by
  simp [Message.lines, or_imp, forall_and]

theorem Broken.lines_iff (b : Broken) (p : SizeLine → Prop) :
    (∀ l ∈ b.lines, p l) ↔ (∀ c ∈ b.chunks, p c.line) ∧ p b.line := by
  simp [Broken.lines, or_imp, forall_and]

/-- A DoH answer with a head that says so has its body decoded. -/
theorem httpResponseBody_chunked {head body : List UInt8}
    (hend : position (crlf ++ crlf) (head ++ (crlf ++ crlf ++ body)) = some head.length)
    (hchunked : headerIsChunked head = true) :
    httpResponseBody (head ++ (crlf ++ crlf ++ body)) = decodeChunked body := by
  have hdrop : (head ++ (crlf ++ crlf ++ body)).drop (head.length + 4) = body := by
    rw [← List.drop_drop, List.drop_left]
    rfl
  rw [httpResponseBody, hend]
  dsimp only
  rw [List.take_left, hchunked, if_pos rfl, hdrop]

/-- The three decoders agree on a message if and only if its size lines are plain. -/
theorem message_agree_iff (m : Message) : m.Agree ↔ ∀ l ∈ m.lines, l.Plain := by
  have hdecode : ∀ {lineSize fits} {buf rest : List UInt8} {conn : Conn},
      (∀ l : SizeLine, l.size < 2 ^ 64 →
        l.Plain ∧ lineSize l.bytes = LineSize.size l.size ∨ ¬ l.Plain ∧ lineSize l.bytes = .bad) →
      (∀ len n, len + n ≤ Proxy.Mitm.maxRequestBodyBytes → fits len n = true) →
      buf ++ conn.flatten = m.encoded ++ rest →
      (Chunks.decode crlf lineSize fits (buf.length + conn.flatten.length + 1) []
        (buf ++ conn.flatten) = some m.body ↔ ∀ l ∈ m.lines, l.Plain) := by
    intro lineSize fits buf rest conn hline hfits hdata
    have hlen := congrArg List.length hdata
    simp only [List.length_append, Message.encoded] at hlen
    rw [hdata, Message.encoded, List.append_assoc, decode_message hline hfits m.last_zero m.fields
      m.chunks rest m.body_le (by simp only [List.length_append]; omega), m.lines_iff]
    simp [Message.body]
  constructor
  · intro h
    have hdata : m.encoded ++ ([] : Conn).flatten = m.encoded ++ [] := rfl
    have hread := h.request m.encoded [] [] (by simp) hdata
    rw [request_eq_ok_iff (by simp)] at hread
    exact (hdecode requestLine_cases requestFits_of_le hdata).mp hread
  · intro h
    refine ⟨fun ending buf conn rest hpos hdata => ?_, fun buf conn rest hpos hdata => ?_, ?_⟩
    · rw [edge_eq_ok_iff ending hpos]
      exact (hdecode edgeLine_cases edgeFits_of_le hdata).mpr h
    · rw [request_eq_ok_iff hpos]
      exact (hdecode requestLine_cases requestFits_of_le hdata).mpr h
    · have htext := (m.lines_iff _).mp fun l hl => (h l hl).text
      exact (decodeChunks_message m.last_zero m.chunks m.small (Nat.lt_succ_self _)).mpr
        ⟨htext, rfl⟩

/-- They all refuse a message with a chunk that is not followed by `\r\n` if and only if one of its
size lines is not UTF-8, or there are two bytes behind the chunk and behind them nothing that
`decode_chunked` takes. -/
theorem broken_refused_iff (b : Broken) : b.Refused ↔
    ((∀ l ∈ b.lines, l.IsText) → 2 ≤ b.tail.length ∧ ¬ Tolerated (b.tail.drop 2)) := by
  rw [b.lines_iff]
  have hanswer : decodeChunked b.bytes = none ↔ _ :=
    decodeChunks_broken b.ne_nil b.size_eq b.chunks b.small (Nat.lt_succ_self _)
  constructor
  · intro h
    exact hanswer.mp h.answer
  · intro h
    refine ⟨fun ending buf conn hpos hdata r hread => ?_, fun buf conn hpos hdata r hread => ?_,
      hanswer.mpr h⟩
    · have hsome := (edge_eq_ok_iff ending hpos).mp ⟨r.2, hread⟩
      rw [hdata, Broken.bytes,
        decode_broken edgeLine_cases b.ne_nil b.size_eq b.not_crlf b.chunks b.small] at hsome
      cases hsome
    · have hsome := (request_eq_ok_iff hpos).mp ⟨r.2, hread⟩
      rw [hdata, Broken.bytes,
        decode_broken requestLine_cases b.ne_nil b.size_eq b.not_crlf b.chunks b.small] at hsome
      cases hsome

/-- The three decoders agree on a complete message if and only if nothing stands between the sizes
and the semicolons of its lines and the lines are UTF-8; and none of them takes a chunk that is not
followed by `\r\n` if and only if `decode_chunked` takes nothing two bytes behind it. -/
theorem chunked_decoders_agree (m : Message) (b : Broken) :
    (m.Agree ↔ ∀ l ∈ m.lines, l.Plain) ∧
    (b.Refused ↔
      ((∀ l ∈ b.lines, l.IsText) → 2 ≤ b.tail.length ∧ ¬ Tolerated (b.tail.drop 2))) :=
  ⟨message_agree_iff m, broken_refused_iff b⟩

/-- The line `5 ;x`. -/
def blankLine : SizeLine where
  digits := ['5']
  values := [5]
  size := 5
  spells := ⟨by decide, by decide, by decide⟩
  space := [' ']
  ext := utf8 ";x".toList
  blank := List.forall_mem_singleton.mpr (Or.inl rfl)
  starts := Or.inr ⟨utf8 "x".toList, by decide⟩
  within := by decide

/-- The line `5`. -/
def plainLine : SizeLine where
  digits := ['5']
  values := [5]
  size := 5
  spells := ⟨by decide, by decide, by decide⟩
  space := []
  ext := []
  blank := List.forall_mem_nil _
  starts := Or.inl ⟨rfl, rfl⟩
  within := by decide

def lastLine : SizeLine where
  digits := ['0']
  values := [0]
  size := 0
  spells := ⟨by decide, by decide, by decide⟩
  space := []
  ext := []
  blank := List.forall_mem_nil _
  starts := Or.inl ⟨rfl, rfl⟩
  within := by decide

/-- Both readers refuse a blank in front of a semicolon, which `decode_chunked` takes; and
`decode_chunked` takes a chunk that is followed by two other bytes. -/
theorem decoders_disagree :
    let m : Message := ⟨[⟨blankLine, utf8 "hello".toList, by decide, by decide⟩], lastLine, [],
      rfl, by simp, by decide, by decide⟩
    let b : Broken := ⟨[], plainLine, utf8 "hello".toList, utf8 "XY0\r\n\r\n".toList, by decide,
      by decide, by decide, by decide⟩
    m.encoded = utf8 "5 ;x\r\nhello\r\n0\r\n\r\n".toList ∧
      decodeChunked m.encoded = some (utf8 "hello".toList) ∧ ¬ m.Agree ∧
      b.bytes = utf8 "5\r\nhelloXY0\r\n\r\n".toList ∧
      decodeChunked b.bytes = some (utf8 "hello".toList) ∧ ¬ b.Refused := by
  intro m b
  have htaken : decodeChunked b.bytes = some (utf8 "hello".toList) := by decide +kernel
  refine ⟨by decide, by decide +kernel, fun h => ?_, by decide, htaken, fun h => ?_⟩
  · have hplain := (message_agree_iff m).mp h blankLine (by simp [m, Message.lines])
    exact absurd hplain.space (by decide)
  · have hnone := h.answer
    rw [htaken] at hnone
    cases hnone

end Rahgozar.Chunked
