import Rahgozar.Lib.Cursor
import Rahgozar.Drive.Wire

set_option autoImplicit false

/-! # The batch codec, read by read

`decode` moves a cursor through its input; a read past the end of the cursor panics. Here the
decoders are written with reads that fail in this case, and none of them ever does. The inputs
that decode are the encodings of batches, where bytes may stand behind the payload of a frame and
be counted in the length of the frame.
-/

namespace Rahgozar.Drive

/-- `copy_to_slice` into a `SessionId`. -/
def readSid (cursor : List UInt8) : Option (SessionId × List UInt8) :=
  if h : 16 ≤ cursor.length then some (⟨cursor.take 16, List.length_take_of_le h⟩, cursor.drop 16)
  else none

theorem readSid_append (sid : SessionId) (rest : List UInt8) :
    readSid (sid.val ++ rest) = some (sid, rest) := by
  have hlen := sid.property
  have hle : 16 ≤ (sid.val ++ rest).length := by simp [hlen]
  rw [readSid, dif_pos hle]
  simp only [List.take_left' hlen, List.drop_left' hlen]

theorem readSid_eq_some {cursor rest : List UInt8} {sid : SessionId}
    (h : readSid cursor = some (sid, rest)) : cursor = sid.val ++ rest := by
  by_cases hle : 16 ≤ cursor.length
  · rw [readSid, dif_pos hle] at h
    cases h
    exact (List.take_append_drop 16 cursor).symm
  · rw [readSid, dif_neg hle] at h
    cases h

/-! ## The decoders -/

/-- `none`: a read went past the end. -/
def WireFrame.decodeReading (input : List UInt8) : Option (Except DecodeError WireFrame) :=
  if input.length < headerLen then some (.error (.tooShort input.length))
  else do
    let (version, cursor) ← Cursor.next input
    if version ≠ wireVersion then some (.error (.unsupportedVersion version))
    else do
      let (kindByte, cursor) ← Cursor.next cursor
      match FrameKind.fromU8 kindByte with
      | none => some (.error (.unknownKind kindByte))
      | some kind => do
          let (sid, cursor) ← readSid cursor
          let (seq, cursor) ← Cursor.getUint 8 cursor
          let (len, cursor) ← Cursor.getUint 4 cursor
          if maxPayload < len then some (.error (.payloadTooLarge len))
          else if cursor.length < len then some (.error (.payloadTruncated len cursor.length))
          else do
            let (payload, _) ← Cursor.split len cursor
            some (.ok ⟨version, kind, sid, seq, payload⟩)

namespace Batch

def decodeFramesReading (index : Nat) :
    Nat → List UInt8 → Option (Except DecodeError (List WireFrame × List UInt8))
  | 0, cursor => some (.ok ([], cursor))
  | count + 1, cursor =>
      if cursor.length < batchPerFrameOverhead then
        some (.error (.batchFrameTruncated index 0 cursor.length))
      else do
        let (frameLen, cursor) ← Cursor.getUint 4 cursor
        if cursor.length < frameLen then
          some (.error (.batchFrameTruncated index frameLen cursor.length))
        else do
          let (frameBytes, cursor) ← Cursor.split frameLen cursor
          let decoded ← WireFrame.decodeReading frameBytes
          match decoded with
          | .error inner => some (.error (.batchFrameDecode index inner))
          | .ok frame => do
              let others ← decodeFramesReading (index + 1) count cursor
              some (others.map fun p => (frame :: p.1, p.2))

def decodeReading (input : List UInt8) : Option (Except DecodeError Batch) :=
  if input.length < batchHeaderLen then some (.error (.tooShort input.length))
  else do
    let (magic, cursor) ← Cursor.split 4 input
    if magic ≠ batchMagic then some (.error .batchBadMagic)
    else do
      let (count, cursor) ← Cursor.next cursor
      if count.toNat = 0 ∨ maxBatchFrames < count.toNat then
        some (.error (.batchBadCount count.toNat))
      else do
        let decoded ← decodeFramesReading 0 count.toNat cursor
        match decoded with
        | .error e => some (.error e)
        | .ok (frames, []) => some (.ok ⟨frames⟩)
        | .ok (_, b :: trailing) => some (.error (.batchTrailingBytes (b :: trailing).length))

end Batch

/-! ## No read fails -/

theorem WireFrame.decodeReading_eq (input : List UInt8) :
    decodeReading input = some (decode input) := by
  by_cases hshort : input.length < headerLen
  · rw [decodeReading, if_pos hshort, decode, dif_pos hshort]
  · obtain ⟨version, kindByte, cursor, rfl⟩ : ∃ v k cursor, input = v :: k :: cursor := by
      match input, hshort with
      | v :: k :: cursor, _ => exact ⟨v, k, cursor, rfl⟩
      | [], hshort => exact absurd (show 0 < 30 by decide) hshort
      | [_], hshort => exact absurd (show 1 < 30 by decide) hshort
    have hlen : 28 ≤ cursor.length := by
      simp only [headerLen, List.length_cons] at hshort
      omega
    have hsid : readSid cursor = some (⟨cursor.take 16, List.length_take_of_le (by omega)⟩,
        cursor.drop 16) := dif_pos (by omega)
    have hseq : Cursor.getUint 8 (cursor.drop 16) =
        some (BigEndian.get ((cursor.drop 16).take 8), cursor.drop 24) := by
      rw [Cursor.getUint_of_le (by rw [List.length_drop]; omega), List.drop_drop]
    have hpay : Cursor.getUint 4 (cursor.drop 24) =
        some (BigEndian.get ((cursor.drop 24).take 4), cursor.drop 28) := by
      rw [Cursor.getUint_of_le (by rw [List.length_drop]; omega), List.drop_drop]
    have hrest : (version :: kindByte :: cursor).drop headerLen = cursor.drop 28 := rfl
    rw [decodeReading, if_neg hshort, decode, dif_neg hshort]
    simp only [Cursor.next_cons, Option.bind_eq_bind, Option.bind_some, hsid, hseq, hpay, hrest,
      List.getD_cons_zero, List.getD_cons_succ, List.drop_succ_cons, List.drop_zero]
    by_cases hversion : version ≠ wireVersion
    · rw [if_pos hversion, if_pos hversion]
    · rw [if_neg hversion, if_neg hversion]
      cases FrameKind.fromU8 kindByte with
      | none => rfl
      | some kind =>
          dsimp only
          by_cases hmax : maxPayload < BigEndian.get ((cursor.drop 24).take 4)
          · rw [if_pos hmax, if_pos hmax]
          · rw [if_neg hmax, if_neg hmax]
            by_cases hroom : (cursor.drop 28).length < BigEndian.get ((cursor.drop 24).take 4)
            · rw [if_pos hroom, if_pos hroom]
            · rw [if_neg hroom, if_neg hroom, Cursor.split_of_le (Nat.not_lt.mp hroom)]
              rfl

namespace Batch

theorem decodeFramesReading_eq (index count : Nat) (cursor : List UInt8) :
    decodeFramesReading index count cursor = some (decodeFrames index count cursor) := by
  induction count generalizing index cursor with
  | zero => rfl
  | succ count ih =>
      by_cases hshort : cursor.length < batchPerFrameOverhead
      · rw [decodeFramesReading, if_pos hshort, decodeFrames, if_pos hshort]
      · have hle : 4 ≤ cursor.length := Nat.not_lt.mp hshort
        rw [decodeFramesReading, if_neg hshort, decodeFrames, if_neg hshort,
          Cursor.getUint_of_le hle]
        simp only [Option.bind_eq_bind, Option.bind_some]
        by_cases hroom : (cursor.drop 4).length < BigEndian.get (cursor.take 4)
        · rw [if_pos hroom, if_pos hroom]
        · rw [if_neg hroom, if_neg hroom, Cursor.split_of_le (Nat.not_lt.mp hroom)]
          simp only [Option.bind_some, WireFrame.decodeReading_eq, ih]
          cases WireFrame.decode ((cursor.drop 4).take (BigEndian.get (cursor.take 4))) with
          | error inner => rfl
          | ok frame =>
              cases decodeFrames (index + 1) count
                ((cursor.drop 4).drop (BigEndian.get (cursor.take 4))) <;> rfl

theorem decodeReading_eq (input : List UInt8) : decodeReading input = some (decode input) := by
  by_cases hshort : input.length < batchHeaderLen
  · rw [decodeReading, if_pos hshort, decode, if_pos hshort]
  · have hle : 5 ≤ input.length := Nat.not_lt.mp hshort
    have hcount : input.drop 4 = input[4] :: input.drop 5 := List.drop_eq_getElem_cons hle
    have hgetD : input.getD 4 0 = input[4] := by
      rw [List.getD_eq_getElem?_getD, List.getElem?_eq_getElem hle, Option.getD_some]
    have hrest : input.drop batchHeaderLen = input.drop 5 := rfl
    rw [decodeReading, if_neg hshort, decode, if_neg hshort, Cursor.split_of_le (by omega)]
    simp only [Option.bind_eq_bind, Option.bind_some, hcount, Cursor.next_cons,
      decodeFramesReading_eq, hgetD, hrest]
    by_cases hmagic : input.take 4 ≠ batchMagic
    · rw [if_pos hmagic, if_pos hmagic]
    · rw [if_neg hmagic, if_neg hmagic]
      by_cases hbad : input[4].toNat = 0 ∨ maxBatchFrames < input[4].toNat
      · rw [if_pos hbad, if_pos hbad]
      · rw [if_neg hbad, if_neg hbad]
        cases decodeFrames 0 input[4].toNat (input.drop 5) with
        | error e => rfl
        | ok p =>
            obtain ⟨frames, trailing⟩ := p
            cases trailing <;> rfl

end Batch

/-! ## What decodes -/

theorem FrameKind.toU8_fromU8 {b : UInt8} {k : FrameKind} (h : fromU8 b = some k) : k.toU8 = b := by
  unfold fromU8 at h
  split_ifs at h with h1 h2 h3 h4 h5 h6 <;> cases h
  · exact h1.symm
  · exact h2.symm
  · exact h3.symm
  · exact h4.symm
  · exact h5.symm
  · exact h6.symm

namespace WireFrame

variable {f : WireFrame} {input pad : List UInt8}

theorem encode_append (f : WireFrame) (pad : List UInt8) :
    f.encode ++ pad = f.version :: f.kind.toU8 :: (f.sid.val ++ (BigEndian.put 8 f.seq ++
      (BigEndian.put 4 f.payload.length ++ (f.payload ++ pad)))) := by
  simp only [encode, List.cons_append, List.append_assoc]

/-- Bytes behind the payload are not looked at. -/
theorem decode_encode_append (h : f.Sendable) (pad : List UInt8) :
    decode (f.encode ++ pad) = .ok f := by
  have hlong : ¬ (f.encode ++ pad).length < headerLen := by
    rw [List.length_append, length_encode]
    omega
  have hmax : ¬ maxPayload < f.payload.length := Nat.not_lt.mpr h.payload
  have hroom : ¬ (f.payload ++ pad).length < f.payload.length := by
    rw [List.length_append]
    omega
  have hseq : f.seq < 256 ^ 8 := h.seq
  have hlen : f.payload.length < 256 ^ 4 := lt_of_le_of_lt h.payload (by decide)
  have hread : decodeReading (f.encode ++ pad) = some (.ok f) := by
    rw [decodeReading, if_neg hlong, encode_append]
    simp only [Option.bind_eq_bind, Option.bind_some, Cursor.next_cons, FrameKind.fromU8_toU8,
      readSid_append, Cursor.getUint_put hseq, Cursor.getUint_put hlen, Cursor.split_append]
    rw [if_neg (not_not.mpr h.version), if_neg hmax, if_neg hroom]
  exact Option.some_injective _ ((decodeReading_eq _).symm.trans hread)

/-- What decodes is a frame, with any bytes behind it. -/
theorem decode_eq_ok (h : decode input = .ok f) : f.Sendable ∧ ∃ pad, input = f.encode ++ pad := by
  have hread : decodeReading input = some (.ok f) :=
    (decodeReading_eq input).trans (congrArg some h)
  unfold decodeReading at hread
  split_ifs at hread
  · cases hread
  · obtain ⟨⟨version, c1⟩, h1, hread⟩ := Option.bind_eq_some_iff.mp hread
    dsimp only at hread
    split_ifs at hread with hversion
    · cases hread
    · obtain ⟨⟨kindByte, c2⟩, h2, hread⟩ := Option.bind_eq_some_iff.mp hread
      dsimp only at hread
      cases hkind : FrameKind.fromU8 kindByte with
      | none =>
          rw [hkind] at hread
          cases hread
      | some kind =>
          rw [hkind] at hread
          obtain ⟨⟨sid, c3⟩, h3, hread⟩ := Option.bind_eq_some_iff.mp hread
          obtain ⟨⟨seq, c4⟩, h4, hread⟩ := Option.bind_eq_some_iff.mp hread
          obtain ⟨⟨len, c5⟩, h5, hread⟩ := Option.bind_eq_some_iff.mp hread
          dsimp only at hread
          split_ifs at hread with hmax hroom
          · cases hread
          · cases hread
          · obtain ⟨⟨payload, pad⟩, h6, hread⟩ := Option.bind_eq_some_iff.mp hread
            cases hread
            -- what each read took off the cursor
            have e1 : input = version :: c1 := Cursor.next_eq_some h1
            have e2 : c1 = kindByte :: c2 := Cursor.next_eq_some h2
            have e3 : c2 = sid.val ++ c3 := readSid_eq_some h3
            obtain ⟨hseq, e4⟩ : seq < 256 ^ 8 ∧ c3 = BigEndian.put 8 seq ++ c4 :=
              Cursor.getUint_eq_some h4
            have e5 : c4 = BigEndian.put 4 len ++ c5 := (Cursor.getUint_eq_some h5).2
            obtain ⟨hlen, e6⟩ : payload.length = len ∧ c5 = payload ++ pad :=
              Cursor.split_eq_some h6
            subst hlen
            constructor
            · exact ⟨not_not.mp hversion, hseq, Nat.not_lt.mp hmax⟩
            · refine ⟨pad, ?_⟩
              rw [encode_append, FrameKind.toU8_fromU8 hkind, e1, e2, e3, e4, e5, e6]

end WireFrame

/-- An entry of a batch: a frame, and the bytes behind its payload that its length counts. -/
structure Padded where
  frame : WireFrame
  pad : List UInt8

def Padded.encode (e : Padded) : List UInt8 :=
  BigEndian.put 4 (e.frame.encode ++ e.pad).length ++ (e.frame.encode ++ e.pad)

/-- The length is a `u32`. -/
structure Padded.Fits (e : Padded) : Prop where
  sendable : e.frame.Sendable
  length : (e.frame.encode ++ e.pad).length < 256 ^ 4

namespace Batch

theorem decodeFrames_padded {entries : List Padded} (h : ∀ e ∈ entries, e.Fits) (index : Nat)
    (trailing : List UInt8) :
    decodeFrames index entries.length (entries.flatMap Padded.encode ++ trailing) =
      .ok (entries.map Padded.frame, trailing) := by
  induction entries generalizing index with
  | nil => rfl
  | cons e entries ih =>
      have he : e.Fits := h e List.mem_cons_self
      have hcursor : (e :: entries).flatMap Padded.encode ++ trailing =
          BigEndian.put 4 (e.frame.encode ++ e.pad).length ++ ((e.frame.encode ++ e.pad) ++
            (entries.flatMap Padded.encode ++ trailing)) := by
        simp only [List.flatMap_cons, Padded.encode, List.append_assoc]
      have hlong : ¬ ((e :: entries).flatMap Padded.encode ++ trailing).length <
          batchPerFrameOverhead := by
        rw [hcursor, List.length_append, BigEndian.length_put]
        unfold batchPerFrameOverhead
        omega
      have hroom : ¬ ((e.frame.encode ++ e.pad) ++
          (entries.flatMap Padded.encode ++ trailing)).length <
            (e.frame.encode ++ e.pad).length := by
        rw [List.length_append]
        omega
      have hread : decodeFramesReading index (entries.length + 1)
          ((e :: entries).flatMap Padded.encode ++ trailing) =
            some (.ok (e.frame :: entries.map Padded.frame, trailing)) := by
        rw [decodeFramesReading, if_neg hlong, hcursor]
        simp only [Option.bind_eq_bind, Cursor.getUint_put he.length, Option.bind_some,
          Cursor.split_append, WireFrame.decodeReading_eq,
          WireFrame.decode_encode_append he.sendable, decodeFramesReading_eq,
          ih (fun e' he' => h e' (List.mem_cons_of_mem _ he'))]
        rw [if_neg hroom]
        rfl
      exact Option.some_injective _ ((decodeFramesReading_eq _ _ _).symm.trans hread)

theorem decodeFrames_eq_ok {index count : Nat} {cursor trailing : List UInt8}
    {frames : List WireFrame} (h : decodeFrames index count cursor = .ok (frames, trailing)) :
    ∃ entries : List Padded, entries.length = count ∧ (∀ e ∈ entries, e.Fits) ∧
      frames = entries.map Padded.frame ∧
      cursor = entries.flatMap Padded.encode ++ trailing := by
  induction count generalizing index cursor frames with
  | zero =>
      cases h
      exact ⟨[], rfl, fun _ he => absurd he List.not_mem_nil, rfl, rfl⟩
  | succ count ih =>
      have hread := (decodeFramesReading_eq index (count + 1) cursor).trans (congrArg some h)
      unfold decodeFramesReading at hread
      split_ifs at hread
      · cases hread
      · obtain ⟨⟨frameLen, c1⟩, h1, hread⟩ := Option.bind_eq_some_iff.mp hread
        dsimp only at hread
        split_ifs at hread
        · cases hread
        · obtain ⟨⟨frameBytes, c2⟩, h2, hread⟩ := Option.bind_eq_some_iff.mp hread
          dsimp only at hread
          rw [WireFrame.decodeReading_eq, Option.bind_eq_bind, Option.bind_some] at hread
          cases hframe : WireFrame.decode frameBytes with
          | error inner =>
              rw [hframe] at hread
              cases hread
          | ok frame =>
              rw [hframe, decodeFramesReading_eq] at hread
              cases hrest : decodeFrames (index + 1) count c2 with
              | error e =>
                  rw [hrest] at hread
                  cases hread
              | ok p =>
                  rw [hrest] at hread
                  cases hread
                  -- the frame and its padding, and the entries behind it
                  obtain ⟨entries, hlen, hfits, hframes, hc2⟩ := ih hrest
                  obtain ⟨hsend, pad, hpad⟩ := WireFrame.decode_eq_ok hframe
                  obtain ⟨hlt, e1⟩ : frameLen < 256 ^ 4 ∧ cursor = BigEndian.put 4 frameLen ++ c1 :=
                    Cursor.getUint_eq_some h1
                  obtain ⟨hbytes, e2⟩ : frameBytes.length = frameLen ∧ c1 = frameBytes ++ c2 :=
                    Cursor.split_eq_some h2
                  subst hpad hbytes
                  refine ⟨⟨frame, pad⟩ :: entries, congrArg (· + 1) hlen, ?_, ?_, ?_⟩
                  · intro e he
                    rcases List.mem_cons.mp he with rfl | hmem
                    · exact ⟨hsend, hlt⟩
                    · exact hfits e hmem
                  · rw [List.map_cons, hframes]
                  · rw [e1, e2, hc2]
                    simp only [List.flatMap_cons, Padded.encode, List.append_assoc]

/-- A batch with padded entries. -/
def encodePadded (entries : List Padded) : List UInt8 :=
  batchMagic ++ (UInt8.ofNat entries.length :: entries.flatMap Padded.encode)

/-- What the decoder takes. -/
structure Wellformed (entries : List Padded) : Prop where
  pos : 0 < entries.length
  cap : entries.length ≤ maxBatchFrames
  fits : ∀ e ∈ entries, e.Fits

theorem decode_encodePadded {entries : List Padded} (h : Wellformed entries) :
    decode (encodePadded entries) = .ok ⟨entries.map Padded.frame⟩ := by
  have hlong : ¬ (encodePadded entries).length < batchHeaderLen := by
    simp [encodePadded, batchMagic, batchHeaderLen]
  have hcap : entries.length ≤ 255 := h.cap
  have hcount : (UInt8.ofNat entries.length).toNat = entries.length := by
    have hmod : (UInt8.ofNat entries.length).toNat = entries.length % 256 := UInt8.toNat_ofNat
    omega
  have hbad : ¬ (entries.length = 0 ∨ maxBatchFrames < entries.length) := by
    rintro (hzero | hover)
    · exact absurd hzero (Nat.pos_iff_ne_zero.mp h.pos)
    · exact absurd hover (Nat.not_lt.mpr h.cap)
  have hframes : decodeFrames 0 entries.length (entries.flatMap Padded.encode) =
      .ok (entries.map Padded.frame, []) := by
    have happ := decodeFrames_padded h.fits 0 []
    rwa [List.append_nil] at happ
  have hread : decodeReading (encodePadded entries) = some (.ok ⟨entries.map Padded.frame⟩) := by
    rw [decodeReading, if_neg hlong, encodePadded]
    have hmagic := Cursor.split_append batchMagic
      (UInt8.ofNat entries.length :: entries.flatMap Padded.encode)
    rw [show batchMagic.length = 4 from rfl] at hmagic
    simp only [hmagic, Option.bind_eq_bind, Option.bind_some, Cursor.next_cons, hcount,
      decodeFramesReading_eq, hframes]
    rw [if_neg (not_not.mpr rfl), if_neg hbad]
  exact Option.some_injective _ ((decodeReading_eq _).symm.trans hread)

theorem decode_eq_ok {x : List UInt8} {b : Batch} (h : decode x = .ok b) :
    ∃ entries : List Padded, Wellformed entries ∧ b = ⟨entries.map Padded.frame⟩ ∧
      x = encodePadded entries := by
  have hread : decodeReading x = some (.ok b) := (decodeReading_eq x).trans (congrArg some h)
  unfold decodeReading at hread
  split_ifs at hread
  · cases hread
  · obtain ⟨⟨magic, c1⟩, h1, hread⟩ := Option.bind_eq_some_iff.mp hread
    dsimp only at hread
    split_ifs at hread with hmagic
    · cases hread
    · obtain ⟨⟨count, c2⟩, h2, hread⟩ := Option.bind_eq_some_iff.mp hread
      dsimp only at hread
      split_ifs at hread with hbad
      · cases hread
      · rw [decodeFramesReading_eq, Option.bind_eq_bind, Option.bind_some] at hread
        cases hframes : decodeFrames 0 count.toNat c2 with
        | error e =>
            rw [hframes] at hread
            cases hread
        | ok p =>
            obtain ⟨frames, trailing⟩ := p
            rw [hframes] at hread
            cases trailing with
            | cons byte trailing => cases hread
            | nil =>
                cases hread
                obtain ⟨entries, hlen, hfits, hmap, hc2⟩ := decodeFrames_eq_ok hframes
                have e1 : x = magic ++ c1 := (Cursor.split_eq_some h1).2
                have e2 : c1 = count :: c2 := Cursor.next_eq_some h2
                have hcount : UInt8.ofNat entries.length = count := by
                  rw [hlen, UInt8.ofNat_toNat]
                push Not at hbad
                rw [← hlen] at hbad
                refine ⟨entries, ⟨Nat.pos_of_ne_zero hbad.1, hbad.2, hfits⟩, by rw [hmap], ?_⟩
                rw [encodePadded, hcount, e1, e2, hc2, not_not.mp hmagic, List.append_nil]

/-! ## The round trip -/

/-- An entry of the encoder. -/
def plain (f : WireFrame) : Padded := ⟨f, []⟩

theorem plain_fits {f : WireFrame} (h : f.Sendable) : (plain f).Fits := by
  have hpay := h.payload
  have henc : (plain f).frame.encode ++ (plain f).pad = f.encode := List.append_nil _
  refine ⟨h, ?_⟩
  rw [henc, WireFrame.length_encode]
  unfold maxPayload at hpay
  unfold headerLen
  omega

theorem encodePadded_plain (frames : List WireFrame) :
    encodePadded (frames.map plain) = encode ⟨frames⟩ := by
  have hentry : Padded.encode ∘ plain = encodeEntry := by
    funext f
    simp [Padded.encode, plain, encodeEntry]
  rw [encodePadded, List.length_map, List.flatMap_map, encode]
  exact congrArg (fun entry => batchMagic ++ (UInt8.ofNat frames.length :: frames.flatMap entry))
    hentry

/-- A batch that may be sent decodes to itself, and no byte string makes the decoder read past
its end. -/
theorem decode_encode_and_reads_inside :
    (∀ b : Batch, 1 ≤ b.frames.length → b.frames.length ≤ maxBatchFrames →
      (∀ f ∈ b.frames, f.Sendable) → decode b.encode = .ok b) ∧
    (∀ x : List UInt8, decodeReading x = some (decode x)) := by
  constructor
  · intro b hpos hcap hsend
    have hwf : Wellformed (b.frames.map plain) := by
      refine ⟨?_, ?_, ?_⟩
      · rwa [List.length_map]
      · rwa [List.length_map]
      · intro e he
        obtain ⟨f, hf, rfl⟩ := List.mem_map.mp he
        exact plain_fits (hsend f hf)
    have hframes : (b.frames.map plain).map Padded.frame = b.frames := by
      rw [List.map_map]
      exact List.map_id _
    have hdec := decode_encodePadded hwf
    rwa [encodePadded_plain, hframes] at hdec
  · exact decodeReading_eq

/-- The first frame of a session, without a payload. -/
def opening : WireFrame := ⟨wireVersion, .hello, ⟨List.replicate 16 9, rfl⟩, 0, []⟩

/-- The frames of a short session. -/
def conversation : List WireFrame :=
  [opening,
    { opening with kind := .connect, seq := 1, payload := "example.com".toUTF8.toList },
    { opening with kind := .data, seq := 2, payload := List.replicate 300 7 },
    { opening with kind := .eof, seq := 3 }]

theorem decode_encode_conversation :
    decode (encode ⟨conversation⟩) = .ok ⟨conversation⟩ := by
  apply decode_encode_and_reads_inside.1
  · decide
  · decide
  · have hsend : ∀ f ∈ conversation, f.version = wireVersion ∧ f.seq < 2 ^ 64 ∧
        f.payload.length ≤ maxPayload := by decide +kernel
    exact fun f hf => ⟨(hsend f hf).1, (hsend f hf).2.1, (hsend f hf).2.2⟩

/-! ## Surplus bytes -/

/-- A batch that the decoder takes, with bytes behind the payload of some frame. -/
def HasSurplus (x : List UInt8) : Prop :=
  ∃ entries : List Padded, Wellformed entries ∧ (∃ e ∈ entries, e.pad ≠ []) ∧
    x = encodePadded entries

theorem eq_plain {entries : List Padded} (h : ∀ e ∈ entries, e.pad = []) :
    (entries.map Padded.frame).map plain = entries := by
  rw [List.map_map]
  apply (List.map_congr_left _).trans (List.map_id entries)
  intro e he
  show (⟨e.frame, []⟩ : Padded) = e
  rw [← h e he]

theorem length_encodePadded (entries : List Padded) :
    (encodePadded entries).length =
      (encode ⟨entries.map Padded.frame⟩).length + (entries.map fun e => e.pad.length).sum := by
  have hentries : (entries.flatMap Padded.encode).length =
      ((entries.map Padded.frame).flatMap encodeEntry).length +
        (entries.map fun e => e.pad.length).sum := by
    induction entries with
    | nil => rfl
    | cons e entries ih =>
        simp only [List.flatMap_cons, List.map_cons, List.sum_cons, List.length_append, ih,
          Padded.encode, encodeEntry, BigEndian.length_put]
        omega
  simp only [encodePadded, encode, List.length_append, List.length_cons, hentries]
  omega

/-- Decoding is strict exactly on the inputs without surplus bytes inside a frame: there the
declared length of the frame is checked, and its last bytes are not. -/
theorem encode_decode_iff (x : List UInt8) :
    (∀ b : Batch, decode x = .ok b → b.encode = x) ↔ ¬ HasSurplus x := by
  constructor
  · rintro h ⟨entries, hwf, ⟨e, he, hpad⟩, rfl⟩
    have henc := congrArg List.length (h _ (decode_encodePadded hwf))
    have hlen := length_encodePadded entries
    have hsum : (entries.map fun e => e.pad.length).sum ≠ 0 := by
      intro hzero
      have hnil := List.sum_eq_zero_iff.mp hzero _ (List.mem_map_of_mem he)
      exact hpad (List.length_eq_zero_iff.mp hnil)
    omega
  · intro hno b hdec
    obtain ⟨entries, hwf, rfl, rfl⟩ := decode_eq_ok hdec
    have hpads : ∀ e ∈ entries, e.pad = [] := by
      intro e he
      by_contra hpad
      exact hno ⟨entries, hwf, ⟨e, he, hpad⟩, rfl⟩
    rw [← encodePadded_plain, eq_plain hpads]

/-- One frame of 30 bytes that is declared with 31. -/
def surplus : List UInt8 := encodePadded [⟨opening, [0]⟩]

theorem surplus_accepted : ¬ ∀ b : Batch, decode surplus = .ok b → b.encode = surplus := by
  intro h
  have hdec : decode surplus = .ok ⟨[opening]⟩ := by decide +kernel
  exact absurd (h _ hdec) (by decide)

end Batch

end Rahgozar.Drive
