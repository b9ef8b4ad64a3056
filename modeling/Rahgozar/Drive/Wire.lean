import Rahgozar.Lib.BigEndian

set_option autoImplicit false

/-! # Frames and batches (`drive-wire/src/frame.rs`)

The body of a mailbox file, once opened, is a batch: a magic, the number of frames in one byte, and
each frame behind its length. Integers are big-endian and cut to their width when they are written.
-/

namespace Rahgozar.Drive

def wireVersion : UInt8 := 1
def headerLen : Nat := 30
def maxPayload : Nat := 4 * 1024 * 1024
def batchMagic : List UInt8 := [82, 71, 50, 66]
def maxBatchFrames : Nat := 255
def batchHeaderLen : Nat := 5
def batchPerFrameOverhead : Nat := 4

/-- Sequence numbers are `u64`. -/
def u64Size : Nat := 2 ^ 64

/-- 16 random bytes. -/
abbrev SessionId := { bytes : List UInt8 // bytes.length = 16 }

inductive FrameKind where
  | hello
  | connect
  | data
  | eof
  | close
  | error
deriving DecidableEq

def FrameKind.toU8 : FrameKind → UInt8
  | hello => 1
  | connect => 2
  | data => 3
  | eof => 4
  | close => 5
  | error => 6

def FrameKind.fromU8 (b : UInt8) : Option FrameKind :=
  if b = 1 then some hello
  else if b = 2 then some connect
  else if b = 3 then some data
  else if b = 4 then some eof
  else if b = 5 then some close
  else if b = 6 then some error
  else none

structure WireFrame where
  version : UInt8
  kind : FrameKind
  sid : SessionId
  seq : Nat
  payload : List UInt8
deriving DecidableEq

inductive DecodeError where
  | tooShort (len : Nat)
  | unsupportedVersion (version : UInt8)
  | unknownKind (kind : UInt8)
  | payloadTooLarge (len : Nat)
  | payloadTruncated (declared available : Nat)
  | batchBadMagic
  | batchBadCount (count : Nat)
  | batchFrameTruncated (index declared remaining : Nat)
  | batchFrameDecode (index : Nat) (inner : DecodeError)
  | batchTrailingBytes (len : Nat)
deriving DecidableEq

namespace WireFrame

def encode (f : WireFrame) : List UInt8 :=
  f.version :: f.kind.toU8 :: (f.sid.val ++
    (BigEndian.put 8 f.seq ++ (BigEndian.put 4 f.payload.length ++ f.payload)))

def decode (input : List UInt8) : Except DecodeError WireFrame :=
  if h : input.length < headerLen then .error (.tooShort input.length)
  else
    let version := input.getD 0 0
    if version ≠ wireVersion then .error (.unsupportedVersion version)
    else
      let kindByte := input.getD 1 0
      match FrameKind.fromU8 kindByte with
      | none => .error (.unknownKind kindByte)
      | some kind =>
          have hsid : ((input.drop 2).take 16).length = 16 := by
            unfold headerLen at h
            simp only [List.length_take, List.length_drop]
            omega
          let seq := BigEndian.get ((input.drop 18).take 8)
          let len := BigEndian.get ((input.drop 26).take 4)
          let rest := input.drop headerLen
          if maxPayload < len then .error (.payloadTooLarge len)
          else if rest.length < len then .error (.payloadTruncated len rest.length)
          else .ok ⟨version, kind, ⟨(input.drop 2).take 16, hsid⟩, seq, rest.take len⟩

/-- A frame the decoder takes. -/
structure Sendable (f : WireFrame) : Prop where
  version : f.version = wireVersion
  seq : f.seq < u64Size
  payload : f.payload.length ≤ maxPayload

theorem length_encode (f : WireFrame) : f.encode.length = headerLen + f.payload.length := by
  have hsid := f.sid.property
  simp only [encode, List.length_cons, List.length_append, BigEndian.length_put, hsid, headerLen]
  omega

end WireFrame

theorem FrameKind.fromU8_toU8 (k : FrameKind) : fromU8 k.toU8 = some k := by
  cases k <;> decide

namespace WireFrame

variable {f : WireFrame}

/-! The fields, each behind the ones before it. -/

theorem encode_drop_two (f : WireFrame) : f.encode.drop 2 = f.sid.val ++
    (BigEndian.put 8 f.seq ++ (BigEndian.put 4 f.payload.length ++ f.payload)) := rfl

theorem encode_sid (f : WireFrame) : (f.encode.drop 2).take 16 = f.sid.val := by
  rw [encode_drop_two, List.take_left' f.sid.property]

theorem encode_drop_seq (f : WireFrame) : f.encode.drop 18 =
    BigEndian.put 8 f.seq ++ (BigEndian.put 4 f.payload.length ++ f.payload) := by
  rw [show 18 = 2 + 16 from rfl, ← List.drop_drop, encode_drop_two, List.drop_left' f.sid.property]

theorem encode_drop_len (f : WireFrame) :
    f.encode.drop 26 = BigEndian.put 4 f.payload.length ++ f.payload := by
  rw [show 26 = 18 + 8 from rfl, ← List.drop_drop, encode_drop_seq,
    List.drop_left' (BigEndian.length_put 8 _)]

theorem encode_drop_header (f : WireFrame) : f.encode.drop headerLen = f.payload := by
  rw [show headerLen = 26 + 4 from rfl, ← List.drop_drop, encode_drop_len,
    List.drop_left' (BigEndian.length_put 4 _)]

theorem encode_seq (h : f.Sendable) : BigEndian.get ((f.encode.drop 18).take 8) = f.seq := by
  rw [encode_drop_seq, List.take_left' (BigEndian.length_put 8 _)]
  exact BigEndian.get_put_of_lt h.seq

theorem encode_len (h : f.Sendable) :
    BigEndian.get ((f.encode.drop 26).take 4) = f.payload.length := by
  have hlt : f.payload.length < 256 ^ 4 := lt_of_le_of_lt h.payload (by decide)
  rw [encode_drop_len, List.take_left' (BigEndian.length_put 4 _)]
  exact BigEndian.get_put_of_lt hlt

theorem decode_encode (h : f.Sendable) : decode f.encode = .ok f := by
  have hlong : ¬ f.encode.length < headerLen := by
    rw [length_encode]
    omega
  have hpayload : ¬ maxPayload < f.payload.length := Nat.not_lt.mpr h.payload
  unfold decode
  rw [dif_neg hlong]
  simp only [encode_seq h, encode_len h, encode_drop_header, encode_sid]
  have hversion : f.encode.getD 0 0 = wireVersion := h.version
  have hkind : FrameKind.fromU8 (f.encode.getD 1 0) = some f.kind := FrameKind.fromU8_toU8 f.kind
  rw [hversion, if_neg (not_not.mpr rfl), hkind]
  dsimp only
  rw [if_neg hpayload, if_neg (lt_irrefl _), List.take_length, ← h.version]

end WireFrame

/-! ## Batches -/

structure Batch where
  frames : List WireFrame
deriving DecidableEq

namespace Batch

def encodeEntry (f : WireFrame) : List UInt8 := BigEndian.put 4 f.encode.length ++ f.encode

def encode (b : Batch) : List UInt8 :=
  batchMagic ++ (UInt8.ofNat b.frames.length :: b.frames.flatMap encodeEntry)

/-- The frames from number `index` on, and the bytes behind the last one. -/
def decodeFrames (index : Nat) : Nat → List UInt8 → Except DecodeError (List WireFrame × List UInt8)
  | 0, cursor => .ok ([], cursor)
  | count + 1, cursor =>
      if cursor.length < batchPerFrameOverhead then
        .error (.batchFrameTruncated index 0 cursor.length)
      else
        let frameLen := BigEndian.get (cursor.take 4)
        let rest := cursor.drop 4
        if rest.length < frameLen then .error (.batchFrameTruncated index frameLen rest.length)
        else
          match WireFrame.decode (rest.take frameLen) with
          | .error inner => .error (.batchFrameDecode index inner)
          | .ok frame =>
              match decodeFrames (index + 1) count (rest.drop frameLen) with
              | .error e => .error e
              | .ok (frames, trailing) => .ok (frame :: frames, trailing)

def decode (input : List UInt8) : Except DecodeError Batch :=
  if input.length < batchHeaderLen then .error (.tooShort input.length)
  else if input.take 4 ≠ batchMagic then .error .batchBadMagic
  else
    let count := (input.getD 4 0).toNat
    if count = 0 ∨ maxBatchFrames < count then .error (.batchBadCount count)
    else
      match decodeFrames 0 count (input.drop batchHeaderLen) with
      | .error e => .error e
      | .ok (frames, []) => .ok ⟨frames⟩
      | .ok (_, b :: trailing) => .error (.batchTrailingBytes (b :: trailing).length)

theorem decodeFrames_encode {frames : List WireFrame} (h : ∀ f ∈ frames, f.Sendable) (index : Nat)
    (rest : List UInt8) :
    decodeFrames index frames.length (frames.flatMap encodeEntry ++ rest) = .ok (frames, rest) := by
  induction frames generalizing index with
  | nil => rfl
  | cons f frames ih =>
      have hf : f.Sendable := h f List.mem_cons_self
      have hcursor : (f :: frames).flatMap encodeEntry ++ rest = BigEndian.put 4 f.encode.length ++
          (f.encode ++ (frames.flatMap encodeEntry ++ rest)) := by
        rw [List.flatMap_cons, encodeEntry]
        simp only [List.append_assoc]
      -- the length fits in its four bytes because a payload is at most 4 MiB
      have hlen : BigEndian.get (BigEndian.put 4 f.encode.length) = f.encode.length := by
        refine BigEndian.get_put_of_lt ?_
        have hpay := hf.payload
        rw [WireFrame.length_encode]
        unfold maxPayload at hpay
        unfold headerLen
        omega
      have hlong : ¬ (BigEndian.put 4 f.encode.length ++
          (f.encode ++ (frames.flatMap encodeEntry ++ rest))).length < batchPerFrameOverhead := by
        rw [List.length_append, BigEndian.length_put]
        unfold batchPerFrameOverhead
        omega
      have hroom : ¬ (f.encode ++ (frames.flatMap encodeEntry ++ rest)).length
          < f.encode.length := by
        rw [List.length_append]
        omega
      rw [hcursor, List.length_cons, decodeFrames, if_neg hlong]
      simp only [List.take_left' (BigEndian.length_put 4 f.encode.length),
        List.drop_left' (BigEndian.length_put 4 f.encode.length), hlen]
      rw [if_neg hroom, List.take_left, List.drop_left, WireFrame.decode_encode hf]
      dsimp only
      rw [ih (fun g hg => h g (List.mem_cons_of_mem _ hg))]

/-- What decodes is what was encoded. A batch of more than 255 frames has its count cut to a byte,
and is refused for the bytes behind the frames that are counted. -/
theorem eq_of_decode_encode {b b' : Batch} (h : ∀ f ∈ b.frames, f.Sendable)
    (hdec : decode b.encode = .ok b') : b' = b := by
  obtain ⟨frames⟩ := b
  replace h : ∀ f ∈ frames, f.Sendable := h
  let count := (UInt8.ofNat frames.length).toNat
  have hle : count ≤ frames.length := by
    have hcount : count = frames.length % 256 := UInt8.toNat_ofNat
    rw [hcount]
    exact Nat.mod_le _ _
  -- the decoder reads the counted frames and leaves the others
  have hsplit : frames.flatMap encodeEntry
      = (frames.take count).flatMap encodeEntry ++ (frames.drop count).flatMap encodeEntry := by
    rw [← List.flatMap_append, List.take_append_drop]
  have hframes : decodeFrames 0 count (frames.flatMap encodeEntry)
      = .ok (frames.take count, (frames.drop count).flatMap encodeEntry) := by
    have htake : ∀ f ∈ frames.take count, f.Sendable := fun f hf => h f (List.mem_of_mem_take hf)
    have henc := decodeFrames_encode htake 0 ((frames.drop count).flatMap encodeEntry)
    rwa [List.length_take, Nat.min_eq_left hle, ← hsplit] at henc
  have hlong : ¬ (encode ⟨frames⟩).length < batchHeaderLen := by
    simp [encode, batchMagic, batchHeaderLen]
  have hmagic : (encode ⟨frames⟩).take 4 = batchMagic := rfl
  unfold decode at hdec
  rw [if_neg hlong, if_neg (not_not.mpr hmagic)] at hdec
  dsimp only at hdec
  split_ifs at hdec
  rw [show (encode ⟨frames⟩).drop batchHeaderLen = frames.flatMap encodeEntry from rfl,
    show ((encode ⟨frames⟩).getD 4 0).toNat = count from rfl, hframes] at hdec
  -- no bytes are left, so no frame is left
  cases hrest : frames.drop count with
  | nil =>
      rw [hrest] at hdec
      cases hdec
      have hall : frames.take count = frames := by
        have := List.take_append_drop count frames
        rwa [hrest, List.append_nil] at this
      rw [hall]
  | cons f rest =>
      obtain ⟨b, bytes, hbytes⟩ : ∃ b bytes, (f :: rest).flatMap encodeEntry = b :: bytes :=
        List.exists_cons_of_ne_nil fun hnil => by
          have hlen := congrArg List.length hnil
          simp [encodeEntry] at hlen
      rw [hrest, hbytes] at hdec
      cases hdec

end Batch

end Rahgozar.Drive
