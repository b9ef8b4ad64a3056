import Rahgozar.Lib.Records
import Rahgozar.Lib.Varint

set_option autoImplicit false

/-! # Video requests with one quality track (`src/domain_fronter.rs`)

A request for a video segment is a protobuf message; its fields with number 3 select quality
tracks. `strip_sabr_quality_tracks` walks over the top-level fields and leaves out all of those but
the first, if there is a field with number 2 as well. What cannot be read as a field ends the walk
and is copied.
-/

namespace Rahgozar.Fronter.Sabr

/-! ## The walk -/

/-- The length of a payload of this wire type; nothing if it is cut off or the type is unknown. -/
def payloadLength (wireType : UInt8) (rest : List UInt8) : Option Nat :=
  if wireType = 0 then Varint.skip rest
  else if wireType = 1 then if rest.length < 8 then none else some 8
  else if wireType = 2 then
    match Varint.read 0 0 rest with
    | none => none
    | some (valLen, k) =>
        if rest.length - k < valLen.toNat then none else some (k + valLen.toNat)
  else if wireType = 5 then if rest.length < 4 then none else some 4
  else none

/-- One turn of the walk: the number of the field at the front and its length. -/
def readField (rest : List UInt8) : Option (UInt32 × Nat) :=
  match Varint.read 0 0 rest with
  | none => none
  | some (tag, k) =>
      (payloadLength (tag &&& 0x07).toUInt8 (rest.drop k)).map fun m =>
        ((tag >>> 3).toUInt32, k + m)

structure Walk where
  segments : List (UInt32 × Nat × Nat)
  hasField2 : Bool
  field3Count : Nat
  tailStart : Nat

def Walk.push (w : Walk) (fieldNumber : UInt32) (segStart segEnd : Nat) : Walk :=
  { w with
    segments := w.segments ++ [(fieldNumber, segStart, segEnd)]
    hasField2 := w.hasField2 || fieldNumber == 2
    field3Count := w.field3Count + if fieldNumber = 3 then 1 else 0 }

/-- The loop from position `i` on. -/
def walk (body : List UInt8) : (fuel i : Nat) → Walk → Walk
  | 0, _, w => w
  | fuel + 1, i, w =>
      if i < body.length then
        match readField (body.drop i) with
        | some (fieldNumber, n) => walk body fuel (i + n) (w.push fieldNumber i (i + n))
        | none => { w with tailStart := i }
      else w

/-- `&body[a..b]`, which panics outside the body. -/
def slice (body : List UInt8) (a b : Nat) : Option (List UInt8) :=
  if a ≤ b ∧ b ≤ body.length then some ((body.take b).drop a) else none

/-- The second pass. -/
def copySegments (body : List UInt8) :
    List (UInt32 × Nat × Nat) → (field3Kept : Bool) → Option (List UInt8)
  | [], _ => some []
  | (fieldNumber, segStart, segEnd) :: segments, field3Kept =>
      if fieldNumber = 3 then
        if field3Kept then copySegments body segments true
        else do
          let segment ← slice body segStart segEnd
          return segment ++ (← copySegments body segments true)
      else do
        let segment ← slice body segStart segEnd
        return segment ++ (← copySegments body segments field3Kept)

/-- `strip_sabr_quality_tracks`; nothing if it panics. -/
def stripSabrQualityTracks (body : List UInt8) : Option (List UInt8) :=
  let w := walk body body.length 0 ⟨[], false, 0, body.length⟩
  if !w.hasField2 || w.field3Count < 2 then some body
  else do
    let out ← copySegments body w.segments false
    if w.tailStart < body.length then
      return out ++ (← slice body w.tailStart body.length)
    else return out

/-! ## Fields are records -/

section

variable {wireType : UInt8} {rest : List UInt8} {n : Nat}

theorem payloadLength_le (h : payloadLength wireType rest = some n) : n ≤ rest.length := by
  unfold payloadLength at h
  split_ifs at h
  · exact Varint.skip_le h
  · cases h
    omega
  · split at h
    · cases h
    · rename_i valLen k hread
      have := Varint.read_le hread
      split_ifs at h
      cases h
      omega
  · cases h
    omega

theorem payloadLength_append (h : payloadLength wireType rest = some n) (x : List UInt8) :
    payloadLength wireType (rest ++ x) = some n := by
  unfold payloadLength at h ⊢
  simp only [List.length_append]
  split_ifs at h ⊢
  · exact Varint.skip_append h x
  all_goals first | omega | exact h | skip
  split at h
  · cases h
  · rename_i valLen k hread
    rw [Varint.read_append hread x]
    dsimp only
    have := Varint.read_le hread
    split_ifs at h
    rw [if_neg (by omega)]
    exact h

theorem payloadLength_of_append {x : List UInt8}
    (h : payloadLength wireType (rest ++ x) = some n) (hle : n ≤ rest.length) :
    payloadLength wireType rest = some n := by
  unfold payloadLength at h ⊢
  simp only [List.length_append] at h
  split_ifs at h ⊢
  · exact Varint.skip_of_append h hle
  all_goals first | (cases h; omega) | exact h | skip
  split at h
  · cases h
  · rename_i valLen k hread
    split_ifs at h
    cases h
    rw [Varint.read_of_append hread (by omega)]
    dsimp only
    rw [if_neg (by omega)]

theorem readField_eq_some {fieldNumber : UInt32} :
    readField rest = some (fieldNumber, n) ↔ ∃ tag k m, Varint.read 0 0 rest = some (tag, k) ∧
      payloadLength (tag &&& 0x07).toUInt8 (rest.drop k) = some m ∧
      fieldNumber = (tag >>> 3).toUInt32 ∧ n = k + m := by
  unfold readField
  constructor
  · intro h
    split at h
    · cases h
    · rename_i tag k hread
      obtain ⟨m, hm, heq⟩ := Option.map_eq_some_iff.mp h
      cases heq
      exact ⟨tag, k, m, hread, hm, rfl, rfl⟩
  · rintro ⟨tag, k, m, hread, hm, rfl, rfl⟩
    rw [hread]
    dsimp only
    rw [hm]
    rfl

end

/-- What is read does not depend on what follows it. -/
def fieldReader : Records.Reader UInt8 UInt32 where
  read := readField
  pos h := by
    obtain ⟨tag, k, m, hread, -, -, rfl⟩ := readField_eq_some.mp h
    have := Varint.read_pos hread
    omega
  le h := by
    obtain ⟨tag, k, m, hread, hm, -, rfl⟩ := readField_eq_some.mp h
    have := Varint.read_le hread
    have := payloadLength_le hm
    rw [List.length_drop] at this
    omega
  append x h := by
    obtain ⟨tag, k, m, hread, hm, rfl, rfl⟩ := readField_eq_some.mp h
    refine readField_eq_some.mpr ⟨tag, k, m, Varint.read_append hread x, ?_, rfl, rfl⟩
    rw [List.drop_append_of_le_length (Varint.read_le hread)]
    exact payloadLength_append hm x
  of_append x h hle := by
    obtain ⟨tag, k, m, hread, hm, rfl, rfl⟩ := readField_eq_some.mp h
    have hread := Varint.read_of_append hread (by omega)
    refine readField_eq_some.mpr ⟨tag, k, m, hread, ?_, rfl, rfl⟩
    rw [List.drop_append_of_le_length (Varint.read_le hread)] at hm
    refine payloadLength_of_append hm ?_
    rw [List.length_drop]
    omega

/-! ## What the two passes do -/

/-- The segments of fields in a row, the first of which starts at `i`. -/
def spans : (i : Nat) → List (UInt32 × List UInt8) → List (UInt32 × Nat × Nat)
  | _, [] => []
  | i, r :: rs => (r.1, i, i + r.2.length) :: spans (i + r.2.length) rs

def isNumber (fieldNumber : UInt32) (r : UInt32 × List UInt8) : Bool := r.1 == fieldNumber

section

variable {body rest tail : List UInt8} {rs : List (UInt32 × List UInt8)}

/-- The walk records every field and stops where the tail begins. -/
theorem walk_eq {fuel i : Nat} (w : Walk) (hrest : body.drop i = rest) (hi : i ≤ body.length)
    (h : Records.Parsed fieldReader rest rs tail) (hfuel : rest.length ≤ fuel) :
    walk body fuel i w =
      { segments := w.segments ++ spans i rs
        hasField2 := w.hasField2 || rs.any (isNumber 2)
        field3Count := w.field3Count + rs.countP (isNumber 3)
        tailStart := if tail = [] then w.tailStart else body.length - tail.length } := by
  induction rs generalizing fuel i rest w with
  | nil =>
      -- no record is left: what is left is the tail
      have htext : rest = tail := h.text
      have hlength : body.length - i = tail.length := by rw [← htext, ← hrest, List.length_drop]
      cases fuel with
      | zero =>
          have hnil : tail = [] := by
            rw [← htext]
            exact List.length_eq_zero_iff.mp (Nat.le_zero.mp hfuel)
          simp [walk, hnil, spans]
      | succ fuel =>
          unfold walk
          by_cases hnil : tail = []
          · rw [if_neg (by rw [hnil, List.length_nil] at hlength; omega)]
            simp [hnil, spans]
          · have hpos := List.length_pos_iff.mpr hnil
            have hends : readField (body.drop i) = none := by
              rw [hrest, htext]
              exact h.ends
            rw [if_pos (by omega), hends]
            simp only [spans, List.append_nil, List.any_nil, Bool.or_false, List.countP_nil,
              Nat.add_zero, if_neg hnil]
            rw [show body.length - tail.length = i by omega]
  | cons r rs ih =>
      obtain ⟨fieldNumber, bytes⟩ := r
      have hwhole := h.whole (fieldNumber, bytes) List.mem_cons_self
      have hpos : 0 < bytes.length := List.length_pos_iff.mpr hwhole.ne_nil
      have htext : rest = bytes ++ (Records.symbols rs ++ tail) := by
        rw [h.text, Records.symbols_cons, List.append_assoc]
      have hlength : body.length - i = rest.length := by rw [← hrest, List.length_drop]
      have hsplit : rest.length = bytes.length + (Records.symbols rs ++ tail).length := by
        rw [htext, List.length_append]
      cases fuel with
      | zero => omega
      | succ fuel =>
          unfold walk
          -- one record is read, and the walk goes on behind it
          rw [if_pos (by omega), hrest, htext,
            show readField (bytes ++ _) = some (fieldNumber, bytes.length) from
              hwhole.read_append _]
          dsimp only
          have hnext : body.drop (i + bytes.length) = Records.symbols rs ++ tail := by
            rw [← List.drop_drop, hrest, htext, List.drop_left]
          rw [htext] at h
          rw [ih _ hnext (by omega) (Records.Parsed.rest (r := (fieldNumber, bytes)) h) (by omega)]
          have hcount : (w.field3Count + if fieldNumber = 3 then 1 else 0)
              + rs.countP (isNumber 3)
              = w.field3Count + List.countP (isNumber 3) ((fieldNumber, bytes) :: rs) := by
            simp only [List.countP_cons, isNumber, beq_iff_eq]
            omega
          simp only [Walk.push, spans, hcount, List.append_assoc, List.singleton_append,
            List.any_cons, isNumber, Bool.or_assoc]

theorem slice_eq {pre mid post : List UInt8} (h : body = pre ++ (mid ++ post)) :
    slice body pre.length (pre.length + mid.length) = some mid := by
  unfold slice
  have hlength : body.length = pre.length + (mid.length + post.length) := by
    rw [h, List.length_append, List.length_append]
  rw [if_pos (by omega), h, ← List.append_assoc, ← List.length_append, List.take_left,
    List.drop_left]

theorem isNumber_mk (fieldNumber num : UInt32) (bytes : List UInt8) :
    isNumber num (fieldNumber, bytes) = decide (fieldNumber = num) := rfl

/-- The second pass copies what is kept, and slices inside the body. -/
theorem copySegments_eq {pre : List UInt8} (field3Kept : Bool)
    (h : body = pre ++ (Records.symbols rs ++ tail)) :
    copySegments body (spans pre.length rs) field3Kept =
      some (Records.symbols (if field3Kept then rs.filter fun r => !isNumber 3 r
        else Records.keepFirst (isNumber 3) rs)) := by
  induction rs generalizing pre field3Kept with
  | nil => cases field3Kept <;> rfl
  | cons r rs ih =>
      obtain ⟨fieldNumber, bytes⟩ := r
      rw [Records.symbols_cons, List.append_assoc] at h
      have hslice := slice_eq h
      have hnext : body = (pre ++ bytes) ++ (Records.symbols rs ++ tail) := by
        rw [h, List.append_assoc]
      have hrest := fun kept => ih kept hnext
      rw [List.length_append] at hrest
      unfold spans copySegments
      dsimp only
      by_cases h3 : fieldNumber = 3
      · rw [if_pos h3]
        cases field3Kept with
        | true =>
            rw [if_pos rfl, hrest true, if_pos rfl, if_pos rfl,
              List.filter_cons_of_neg (by simp [isNumber_mk, h3])]
        | false =>
            rw [if_neg Bool.false_ne_true, hslice, hrest true, if_pos rfl,
              if_neg Bool.false_ne_true]
            unfold Records.keepFirst
            rw [if_pos (by simp [isNumber_mk, h3])]
            rfl
      · rw [if_neg h3, hslice, hrest field3Kept]
        cases field3Kept with
        | true =>
            rw [if_pos rfl, if_pos rfl, List.filter_cons_of_pos (by simp [isNumber_mk, h3])]
            rfl
        | false =>
            rw [if_neg Bool.false_ne_true, if_neg Bool.false_ne_true]
            conv_rhs => unfold Records.keepFirst
            rw [if_neg (by simp [isNumber_mk, h3])]
            rfl

/-- Whether there is anything to leave out. -/
def strips (rs : List (UInt32 × List UInt8)) : Bool :=
  rs.any (isNumber 2) && decide (2 ≤ rs.countP (isNumber 3))

/-- The fields that are sent on. -/
def kept (rs : List (UInt32 × List UInt8)) : List (UInt32 × List UInt8) :=
  if strips rs then Records.keepFirst (isNumber 3) rs else rs

/-- What the function makes of a message: the fields that are kept, and the tail. -/
theorem strip_eq (h : Records.Parsed fieldReader body rs tail) :
    stripSabrQualityTracks body = some (Records.symbols (kept rs) ++ tail) := by
  have hguard : (!rs.any (isNumber 2) || decide (rs.countP (isNumber 3) < 2)) = !strips rs := by
    rw [strips, Bool.not_and, ← decide_not]
    congr 2
    exact propext Nat.not_le.symm
  have hfrom : body = [] ++ (Records.symbols rs ++ tail) := h.text
  have hcopy : copySegments body (spans 0 rs) false =
      some (Records.symbols (Records.keepFirst (isNumber 3) rs)) := copySegments_eq false hfrom
  unfold stripSabrQualityTracks kept
  rw [walk_eq _ rfl (Nat.zero_le _) h (by simp)]
  simp only [Bool.false_or, Nat.zero_add, List.nil_append, hguard]
  cases strips rs with
  | false =>
      rw [Bool.not_false, if_pos rfl, if_neg Bool.false_ne_true, ← h.text]
  | true =>
      rw [Bool.not_true, if_neg Bool.false_ne_true, if_pos rfl,
        hcopy]
      by_cases hnil : tail = []
      · simp [hnil]
      · have hpos := List.length_pos_iff.mpr hnil
        have hlength : body.length = (Records.symbols rs).length + tail.length := by
          rw [h.text, List.length_append]
        have hsplit : body = Records.symbols rs ++ (tail ++ []) := by
          rw [List.append_nil]
          exact h.text
        have hslice := slice_eq hsplit
        rw [← hlength] at hslice
        simp only [Option.bind_eq_bind, Option.bind_some, if_neg hnil]
        rw [show body.length - tail.length = (Records.symbols rs).length by omega,
          if_pos (by omega), hslice]
        rfl

theorem mem_of_mem_kept {r : UInt32 × List UInt8} (hr : r ∈ kept rs) : r ∈ rs := by
  unfold kept at hr
  split_ifs at hr
  · exact Records.mem_of_mem_keepFirst hr
  · exact hr

theorem kept_kept (rs : List (UInt32 × List UInt8)) : kept (kept rs) = kept rs := by
  cases hstrips : strips rs with
  | false => simp [kept, hstrips]
  | true =>
      have hle := Records.countP_keepFirst_le (isNumber 3) rs
      have hdone : strips (Records.keepFirst (isNumber 3) rs) = false := by
        rw [strips, decide_eq_false (by omega), Bool.and_false]
      simp [kept, hstrips, hdone]

end

/-! ## Messages -/

/-- A payload, with any spelling of its numbers. -/
inductive Payload where
  | varint (value : Varint.Spelling)
  | fixed64 (bytes : List UInt8) (length_eq : bytes.length = 8)
  | lengthDelimited (length : Varint.Spelling) (data : List UInt8)
      (value_eq : length.value = data.length)
  | fixed32 (bytes : List UInt8) (length_eq : bytes.length = 4)

def Payload.wireType : Payload → Nat
  | varint _ => 0
  | fixed64 _ _ => 1
  | lengthDelimited _ _ _ => 2
  | fixed32 _ _ => 5

def Payload.bytes : Payload → List UInt8
  | varint value => value.bytes
  | fixed64 bytes _ => bytes
  | lengthDelimited length data _ => length.bytes ++ data
  | fixed32 bytes _ => bytes

/-- A top-level field. -/
structure Field where
  number : Nat
  number_pos : 1 ≤ number
  number_le : number ≤ 2 ^ 29 - 1
  payload : Payload
  tag : Varint.Spelling
  tag_value : tag.value = number * 8 + payload.wireType

def Field.bytes (f : Field) : List UInt8 := f.tag.bytes ++ f.payload.bytes

def encode (fs : List Field) : List UInt8 := fs.flatMap Field.bytes

/-- The fields without the later ones of those numbered 3, if there are two of them and one
numbered 2. -/
def filterFields (fs : List Field) : List Field :=
  if fs.any (fun f => f.number == 2) && decide (2 ≤ fs.countP fun f => f.number == 3)
  then Records.keepFirst (fun f => f.number == 3) fs else fs

/-- As the reader sees it. -/
def Field.record (f : Field) : UInt32 × List UInt8 := (UInt32.ofNat f.number, f.bytes)

theorem payloadLength_bytes (p : Payload) (rest : List UInt8) :
    payloadLength (UInt8.ofNat p.wireType) (p.bytes ++ rest) = some p.bytes.length := by
  cases p with
  | varint value => exact value.skip_bytes rest
  | fixed64 bytes hlength =>
      show (if (bytes ++ rest).length < 8 then none else some 8) = some bytes.length
      rw [List.length_append, hlength, if_neg (by omega)]
  | lengthDelimited length data hvalue =>
      obtain ⟨v, hread, hv⟩ := length.read_bytes (data ++ rest)
      show (match Varint.read 0 0 (length.bytes ++ data ++ rest) with
        | none => none
        | some (valLen, k) =>
            if (length.bytes ++ data ++ rest).length - k < valLen.toNat then none
            else some (k + valLen.toNat)) = some (length.bytes ++ data).length
      rw [List.append_assoc, hread]
      dsimp only
      rw [hv, hvalue, if_neg, List.length_append]
      simp only [List.length_append]
      omega
  | fixed32 bytes hlength =>
      show (if (bytes ++ rest).length < 4 then none else some 4) = some bytes.length
      rw [List.length_append, hlength, if_neg (by omega)]

theorem readField_bytes (f : Field) (rest : List UInt8) :
    readField (f.bytes ++ rest) = some (UInt32.ofNat f.number, f.bytes.length) := by
  obtain ⟨v, hread, hv⟩ := f.tag.read_bytes (f.payload.bytes ++ rest)
  rw [f.tag_value] at hv
  have hwire : f.payload.wireType < 8 := by
    cases f.payload <;> simp [Payload.wireType]
  have hle := f.number_le
  have htype : (v &&& 0x07).toUInt8 = UInt8.ofNat f.payload.wireType := by
    apply UInt8.toNat_inj.mp
    rw [UInt64.toNat_toUInt8, UInt64.toNat_and, hv, UInt8.toNat_ofNat',
      show (0x07 : UInt64).toNat = 2 ^ 3 - 1 from rfl, Nat.and_two_pow_sub_one_eq_mod]
    omega
  have hnumber : (v >>> 3).toUInt32 = UInt32.ofNat f.number := by
    apply UInt32.toNat_inj.mp
    rw [UInt64.toNat_toUInt32, UInt64.toNat_shiftRight, hv, UInt32.toNat_ofNat',
      show (3 : UInt64).toNat % 64 = 3 from rfl, Nat.shiftRight_eq_div_pow]
    omega
  refine readField_eq_some.mpr ⟨v, f.tag.bytes.length, f.payload.bytes.length, ?_, ?_,
    hnumber.symm, ?_⟩
  · rw [Field.bytes, List.append_assoc]
    exact hread
  · rw [Field.bytes, List.append_assoc, List.drop_left, htype]
    exact payloadLength_bytes _ _
  · rw [Field.bytes, List.length_append]

/-! ## Tails -/

/-- No complete field can be read. -/
def NoField (tail : List UInt8) : Prop := readField tail = none

/-! ## The function is a filter -/

theorem symbols_record (fs : List Field) : Records.symbols (fs.map Field.record) = encode fs := by
  unfold Records.symbols encode
  rw [List.flatMap_map]
  rfl

theorem isNumber_record {num : Nat} (hnum : num < 2 ^ 32) (f : Field) :
    isNumber (UInt32.ofNat num) f.record = (f.number == num) := by
  have hle := f.number_le
  rw [Bool.eq_iff_iff]
  simp only [isNumber, Field.record, beq_iff_eq]
  constructor
  · intro h
    have := congrArg UInt32.toNat h
    rw [UInt32.toNat_ofNat', UInt32.toNat_ofNat', Nat.mod_eq_of_lt (by omega),
      Nat.mod_eq_of_lt hnum] at this
    exact this
  · rintro rfl
    rfl

theorem kept_record (fs : List Field) :
    kept (fs.map Field.record) = (filterFields fs).map Field.record := by
  have h2 : ∀ f : Field, isNumber 2 f.record = (f.number == 2) := isNumber_record (by decide)
  have h3 : ∀ f : Field, isNumber 3 f.record = (f.number == 3) := isNumber_record (by decide)
  have hguard : strips (fs.map Field.record) =
      (fs.any (fun f => f.number == 2) && decide (2 ≤ fs.countP fun f => f.number == 3)) := by
    unfold strips
    rw [List.any_map, List.countP_map]
    simp only [Function.comp_def, h2, h3]
  unfold kept filterFields
  rw [hguard]
  split_ifs
  · exact Records.keepFirst_map Field.record h3 fs
  · rfl

/-- **SABR stripping.** On the encoding of any fields and a tail without one, the function leaves
out the later fields numbered 3 if there are two of them and one numbered 2, and nothing else. It
returns on every byte string, and a second time it changes nothing. -/
theorem strip_filters (fs : List Field) (tail : List UInt8) (htail : NoField tail) :
    stripSabrQualityTracks (encode fs ++ tail) = some (encode (filterFields fs) ++ tail) ∧
      ∀ x, ∃ y, stripSabrQualityTracks x = some y ∧ stripSabrQualityTracks y = some y := by
  constructor
  · have hparsed : Records.Parsed fieldReader (encode fs ++ tail) (fs.map Field.record) tail := by
      refine ⟨by rw [symbols_record], fun r hr => ?_, htail⟩
      obtain ⟨f, -, rfl⟩ := List.mem_map.mp hr
      have hbytes := readField_bytes f []
      rwa [List.append_nil] at hbytes
    rw [strip_eq hparsed, kept_record, symbols_record]
  · intro x
    obtain ⟨rs, tail', hparsed⟩ := Records.exists_parsed fieldReader x
    refine ⟨_, strip_eq hparsed, ?_⟩
    rw [strip_eq (hparsed.sublist fun r hr => mem_of_mem_kept hr), kept_kept]

/-- A number of one byte. -/
def short (last : UInt8) (low : last &&& 0x80 = 0) : Varint.Spelling :=
  ⟨[], last, by simp, low, by simp⟩

/-- Field 2 with one byte, and field 3 twice, once with its tag spelled in two bytes. -/
def twoTracks : List Field :=
  [⟨2, by decide, by decide, .lengthDelimited (short 1 rfl) [7] rfl, short 18 rfl, rfl⟩,
    ⟨3, by decide, by decide, .varint (short 5 rfl),
      ⟨[0x98], 0, List.forall_mem_singleton.mpr (by decide), rfl, by decide⟩, rfl⟩,
    ⟨3, by decide, by decide, .fixed32 [1, 2, 3, 4] rfl, short 29 rfl, rfl⟩]

/-- The second track goes, a cut off field behind it stays. -/
theorem strip_filters_twoTracks :
    NoField [0x80] ∧ encode (filterFields twoTracks) = [18, 1, 7, 0x98, 0, 5] ∧
      stripSabrQualityTracks (encode twoTracks ++ [0x80])
        = some (encode (filterFields twoTracks) ++ [0x80]) :=
  ⟨rfl, by decide, (strip_filters twoTracks [0x80] rfl).1⟩

end Rahgozar.Fronter.Sabr
