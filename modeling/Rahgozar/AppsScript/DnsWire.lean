import Rahgozar.AppsScript.DnsAnswers
import Rahgozar.Lib.BigEndian

set_option autoImplicit false

/-! # DNS messages by offset (`assets/apps_script/CodeFull.gs`)

The script walks a message with an offset into an array of bytes, which the runtime hands out signed
or unsigned. An index at or past the end of the array has no value here, so a function that has a
value never reads there. The messages of RFC 1035 are built from their parts, and are read back.
-/

namespace Rahgozar.AppsScript

/-! ## Reads -/

/-- `x & 0xFF` -/
def maskByte (x : Int) : UInt8 := UInt8.ofNat (x % 256).toNat

/-- `bytes[i] & 0xFF` -/
def byteAt (bytes : List Int) (i : Nat) : Option UInt8 := bytes[i]?.map maskByte

/-- `((bytes[i] & 0xFF) << 8) | (bytes[i + 1] & 0xFF)` -/
def wordAt (bytes : List Int) (i : Nat) : Option Nat :=
  (byteAt bytes i).bind fun hi => (byteAt bytes (i + 1)).map fun lo =>
    hi.toNat <<< 8 ||| lo.toNat

/-- The value of the four bytes at `i`. The first is multiplied, as a shift would reach the sign. -/
def ttlAt (bytes : List Int) (i : Nat) : Option Nat :=
  (byteAt bytes i).bind fun a => (byteAt bytes (i + 1)).bind fun b =>
    (byteAt bytes (i + 2)).bind fun c => (byteAt bytes (i + 3)).map fun d =>
      a.toNat * 0x1000000 + (b.toNat <<< 16 ||| c.toNat <<< 8 ||| d.toNat)

namespace Offsets

/-! ## The functions of the script -/

/-- `_dnsSkipName`; no offset stands for `-1`. -/
def dnsSkipName (bytes : List Int) (off : Nat) : Option (Option Nat) :=
  if _h : off < bytes.length then
    (byteAt bytes off).bind fun len =>
      if len = 0 then some (some (off + 1))
      else if len &&& 0xC0 = 0xC0 then
        -- a pointer ends the name where it stands
        if bytes.length < off + 2 then some none else some (some (off + 2))
      else if len &&& 0xC0 ≠ 0 then some none
      else if 63 < len.toNat then some none
      else dnsSkipName bytes (off + (1 + len.toNat))
  else some none
termination_by bytes.length - off

/-- The loop over the characters of a label. -/
def labelChars (bytes : List Int) (off : Nat) : (len : Nat) → Option (List UInt8)
  | 0 => some []
  | len + 1 =>
      (byteAt bytes off).bind fun c => (labelChars bytes (off + 1) len).map fun cs => c :: cs

/-- The loop over the labels of the question's name: the labels, and the offset it ends at. -/
def questionName (bytes : List Int) (off nameLen : Nat) :
    Option (Option (List (List UInt8) × Nat)) :=
  if _h : off < bytes.length then
    (byteAt bytes off).bind fun len =>
      if len = 0 then some (some ([], off + 1))
      -- questions do not use compression
      else if len &&& 0xC0 ≠ 0 then some none
      else if 63 < len.toNat then some none
      else if bytes.length < off + 1 + len.toNat then some none
      else
        (labelChars bytes (off + 1) len.toNat).bind fun label =>
          if 255 < nameLen + len.toNat + 1 then some none
          else
            (questionName bytes (off + 1 + len.toNat) (nameLen + len.toNat + 1)).map fun r =>
              r.map fun (labels, off) => (label :: labels, off)
  -- the loop ends with the array, and the caller finds that nothing is behind the name
  else some (some ([], off))
termination_by bytes.length - off

def dnsParseQuestion (bytes : List Int) : Option (Option Question) :=
  if bytes.length < 12 then some none
  else
    (wordAt bytes 4).bind fun qdcount =>
      if qdcount ≠ 1 then some none
      else
        (questionName bytes 12 0).bind fun r =>
          match r with
          | none => some none
          | some (labels, off) =>
              if bytes.length < off + 4 then some none
              else
                (wordAt bytes off).bind fun qtype => (wordAt bytes 0).map fun txid =>
                  some ⟨txid, ".".intercalate (labels.map labelText), qtype⟩

/-- The loop over the questions. -/
def dnsSkipQuestions (bytes : List Int) : (n off : Nat) → Option (Option Nat)
  | 0, off => some (some off)
  | n + 1, off =>
      (dnsSkipName bytes off).bind fun r =>
        match r with
        | none => some none
        | some off =>
            if bytes.length < off + 4 then some none else dnsSkipQuestions bytes n (off + 4)

/-- The loop over the records. -/
def dnsMinTtlRecords (bytes : List Int) : (n off : Nat) → (min : Option Nat) → Option (Option Nat)
  | 0, _, min => some min
  | n + 1, off, min =>
      (dnsSkipName bytes off).bind fun r =>
        match r with
        | none => some none
        | some off =>
            if bytes.length < off + 10 then some none
            else
              (ttlAt bytes (off + 4)).bind fun value =>
                -- RFC 2181: a value with the top bit set counts as 0
                let ttl := if 0x7FFFFFFF < value then 0 else value
                let min := match min with
                  | none => some ttl
                  | some m => some (if ttl < m then ttl else m)
                (wordAt bytes (off + 8)).bind fun rdlen =>
                  let off := off + (10 + rdlen)
                  if bytes.length < off then some none else dnsMinTtlRecords bytes n off min

def dnsMinTtl (bytes : List Int) : Option (Option Nat) :=
  if bytes.length < 12 then some none
  else
    (wordAt bytes 4).bind fun qdcount =>
      (wordAt bytes 6).bind fun ancount =>
        (wordAt bytes 8).bind fun nscount =>
          (dnsSkipQuestions bytes qdcount 12).bind fun r =>
            match r with
            | none => some none
            | some off => dnsMinTtlRecords bytes (ancount + nscount) off none

end Offsets

/-! ## Every read is inside the array -/

/-- The bytes of an array. -/
def unsigned (bytes : List Int) : List UInt8 := bytes.map maskByte

section

variable {bytes : List Int}

theorem length_unsigned : (unsigned bytes).length = bytes.length := List.length_map ..

theorem byteAt_eq (i : Nat) : byteAt bytes i = (unsigned bytes)[i]? := List.getElem?_map.symm

theorem byteAt_of_lt {i : Nat} (h : i < bytes.length) :
    byteAt bytes i = some ((unsigned bytes).getD i 0) := by
  have hlt : i < (unsigned bytes).length := by rwa [length_unsigned]
  rw [byteAt_eq, List.getD_eq_getElem?_getD, List.getElem?_eq_getElem hlt]
  rfl

theorem shift_or (hi lo : UInt8) : hi.toNat <<< 8 ||| lo.toNat = hi.toNat * 256 + lo.toNat := by
  rw [← Nat.shiftLeft_add_eq_or_of_lt lo.toNat_lt, Nat.shiftLeft_eq]

theorem getD_drop (off k : Nat) :
    ((unsigned bytes).drop off).getD k 0 = (unsigned bytes).getD (off + k) 0 := by
  rw [List.getD_eq_getElem?_getD, List.getD_eq_getElem?_getD, List.getElem?_drop]

theorem shift_or_or (b c d : UInt8) :
    b.toNat <<< 16 ||| c.toNat <<< 8 ||| d.toNat =
      b.toNat * 0x10000 + (c.toNat * 256 + d.toNat) := by
  have hlow : c.toNat * 256 + d.toNat < 2 ^ 16 := by
    have hc := c.toNat_lt
    have hd := d.toNat_lt
    omega
  rw [Nat.or_assoc, shift_or, ← Nat.shiftLeft_add_eq_or_of_lt hlow, Nat.shiftLeft_eq]

theorem wordAt_eq (off k : Nat) (h : off + k + 2 ≤ bytes.length) :
    wordAt bytes (off + k) = some (word ((unsigned bytes).drop off) k) := by
  unfold wordAt word
  rw [byteAt_of_lt (by omega), byteAt_of_lt (by omega), getD_drop, getD_drop, Option.bind_some,
    Option.map_some, shift_or, Nat.add_assoc]

theorem ttlAt_eq {off : Nat} (h : off + 10 ≤ bytes.length) :
    ttlAt bytes (off + 4) = some (word ((unsigned bytes).drop off) 4 * 0x10000 +
      word ((unsigned bytes).drop off) 6) := by
  unfold ttlAt word
  rw [byteAt_of_lt (by omega), byteAt_of_lt (by omega), byteAt_of_lt (by omega),
    byteAt_of_lt (by omega), getD_drop, getD_drop, getD_drop, getD_drop, Option.bind_some,
    Option.bind_some, Option.bind_some, Option.map_some, shift_or_or]
  refine congrArg some ?_
  simp only [Nat.add_assoc, Nat.reduceAdd]
  omega

/-- What is behind a byte. -/
theorem drop_unsigned {off : Nat} (h : off < bytes.length) :
    (unsigned bytes).drop off =
      (unsigned bytes).getD off 0 :: (unsigned bytes).drop (off + 1) := by
  have hlt : off < (unsigned bytes).length := by rwa [length_unsigned]
  rw [List.drop_eq_getElem_cons hlt, List.getD_eq_getElem?_getD, List.getElem?_eq_getElem hlt]
  rfl

/-- A name is skipped inside the array, and as it is in the list of the bytes. -/
theorem skipName_spec (bytes : List Int) (off fuel : Nat) (hfuel : bytes.length ≤ off + fuel) :
    ∃ r, Offsets.dnsSkipName bytes off = some r ∧
      (∀ next ∈ r, off < next ∧ next ≤ bytes.length) ∧
      dnsSkipName fuel ((unsigned bytes).drop off) =
        r.map fun next => (unsigned bytes).drop next := by
  induction fuel generalizing off with
  | zero =>
      have hend : ¬ off < bytes.length := by omega
      have hnil : (unsigned bytes).drop off = [] :=
        List.drop_eq_nil_of_le (by rw [length_unsigned]; omega)
      refine ⟨none, ?_, fun _ h => (nomatch h), ?_⟩
      · unfold Offsets.dnsSkipName
        rw [dif_neg hend]
      · rw [hnil]
        rfl
  | succ fuel ih =>
      by_cases hoff : off < bytes.length
      · unfold Offsets.dnsSkipName
        rw [dif_pos hoff, byteAt_of_lt hoff, Option.bind_some, drop_unsigned hoff]
        generalize (unsigned bytes).getD off 0 = len
        unfold dnsSkipName
        by_cases hroot : len = 0
        · rw [if_pos hroot, if_pos hroot]
          exact ⟨_, rfl, fun next h => by cases h; omega, rfl⟩
        rw [if_neg hroot, if_neg hroot]
        by_cases hpointer : len &&& 0xC0 = 0xC0
        · rw [if_pos hpointer, if_pos hpointer]
          by_cases hroom : bytes.length < off + 2
          · have hnil : (unsigned bytes).drop (off + 1) = [] :=
              List.drop_eq_nil_of_le (by rw [length_unsigned]; omega)
            rw [if_pos hroom, hnil]
            exact ⟨_, rfl, fun _ h => (nomatch h), rfl⟩
          · rw [if_neg hroom, drop_unsigned (by omega)]
            exact ⟨_, rfl, fun next h => by cases h; omega, rfl⟩
        rw [if_neg hpointer, if_neg hpointer]
        by_cases hreserved : len &&& 0xC0 ≠ 0
        · rw [if_pos hreserved, if_pos hreserved]
          exact ⟨_, rfl, fun _ h => (nomatch h), rfl⟩
        rw [if_neg hreserved, if_neg hreserved]
        by_cases hlong : 63 < len.toNat
        · rw [if_pos hlong, if_pos hlong]
          exact ⟨_, rfl, fun _ h => (nomatch h), rfl⟩
        -- a label: both walks go on behind it, with less of the array left
        rw [if_neg hlong, if_neg hlong, List.drop_drop, Nat.add_assoc]
        obtain ⟨r, hr, hinside, heq⟩ := ih (off + (1 + len.toNat)) (by omega)
        refine ⟨r, hr, fun next h => ?_, heq⟩
        have hnext := hinside next h
        omega
      · have hnil : (unsigned bytes).drop off = [] :=
          List.drop_eq_nil_of_le (by rw [length_unsigned]; omega)
        refine ⟨none, ?_, fun _ h => (nomatch h), ?_⟩
        · unfold Offsets.dnsSkipName
          rw [dif_neg hoff]
        · rw [hnil]
          rfl

theorem labelChars_eq {off len : Nat} (h : off + len ≤ bytes.length) :
    Offsets.labelChars bytes off len = some (((unsigned bytes).drop off).take len) := by
  induction len generalizing off with
  | zero => rfl
  | succ len ih =>
      have hoff : off < bytes.length := by omega
      rw [Offsets.labelChars, byteAt_of_lt hoff, ih (by omega), drop_unsigned hoff]
      rfl

/-- The name of the question is read inside the array, and as it is in the list of the bytes. -/
theorem questionName_spec (bytes : List Int) (off fuel nameLen : Nat)
    (hfuel : bytes.length ≤ off + fuel) (hoff : off ≤ bytes.length) :
    ∃ r, Offsets.questionName bytes off nameLen = some r ∧
      (∀ p ∈ r, p.2 ≤ bytes.length) ∧
      readLabels fuel nameLen ((unsigned bytes).drop off) =
        r.map fun p => (p.1, (unsigned bytes).drop p.2) := by
  induction fuel generalizing off nameLen with
  | zero =>
      have hend : ¬ off < bytes.length := by omega
      have hnil : (unsigned bytes).drop off = [] :=
        List.drop_eq_nil_of_le (by rw [length_unsigned]; omega)
      refine ⟨some ([], off), ?_, fun p h => by cases h; exact hoff, ?_⟩
      · unfold Offsets.questionName
        rw [dif_neg hend]
      · rw [hnil, Option.map_some, hnil]
        rfl
  | succ fuel ih =>
      by_cases hlt : off < bytes.length
      · unfold Offsets.questionName
        rw [dif_pos hlt, byteAt_of_lt hlt, Option.bind_some, drop_unsigned hlt]
        generalize (unsigned bytes).getD off 0 = len
        unfold readLabels
        -- the root ends the name
        by_cases hroot : len = 0
        · rw [if_pos hroot, if_pos hroot]
          exact ⟨_, rfl, fun p h => by cases h; exact hlt, rfl⟩
        rw [if_neg hroot, if_neg hroot]
        -- a pointer, a label that is too long, or one that ends behind the array
        by_cases hpointer : len &&& 0xC0 ≠ 0
        · rw [if_pos hpointer, if_pos hpointer]
          exact ⟨_, rfl, fun _ h => absurd h (Option.not_mem_none _), rfl⟩
        rw [if_neg hpointer, if_neg hpointer]
        by_cases hlong : 63 < len.toNat
        · rw [if_pos hlong, if_pos hlong]
          exact ⟨_, rfl, fun _ h => absurd h (Option.not_mem_none _), rfl⟩
        rw [if_neg hlong, if_neg hlong]
        have hsize : ((unsigned bytes).drop (off + 1)).length = bytes.length - (off + 1) := by
          rw [List.length_drop, length_unsigned]
        by_cases hroom : bytes.length < off + 1 + len.toNat
        · rw [if_pos hroom, if_pos (by omega)]
          exact ⟨_, rfl, fun _ h => absurd h (Option.not_mem_none _), rfl⟩
        rw [if_neg hroom, if_neg (by omega), labelChars_eq (not_lt.mp hroom), Option.bind_some]
        by_cases htotal : 255 < nameLen + len.toNat + 1
        · rw [if_pos htotal, if_pos htotal]
          exact ⟨_, rfl, fun _ h => absurd h (Option.not_mem_none _), rfl⟩
        rw [if_neg htotal, if_neg htotal, List.drop_drop]
        -- the label, and the rest of the name behind it
        obtain ⟨r, hr, hinside, heq⟩ := ih (off + 1 + len.toNat)
          (nameLen + len.toNat + 1) (by omega) (not_lt.mp hroom)
        rw [hr, heq, Option.map_some]
        refine ⟨_, rfl, fun p h => ?_, ?_⟩
        · obtain ⟨q, hq, rfl⟩ := Option.map_eq_some_iff.mp h
          exact hinside q hq
        · rw [Option.map_map, Option.map_map]
          rfl
      · have hnil : (unsigned bytes).drop off = [] :=
          List.drop_eq_nil_of_le (by rw [length_unsigned]; omega)
        refine ⟨some ([], off), ?_, fun p h => by cases h; exact hoff, ?_⟩
        · unfold Offsets.questionName
          rw [dif_neg hlt]
        · rw [hnil, Option.map_some, hnil]
          rfl

/-- **The question is read inside the array**, as it is in the list of the bytes. -/
theorem dnsParseQuestion_eq (bytes : List Int) :
    Offsets.dnsParseQuestion bytes = some (dnsParseQuestion (unsigned bytes)) := by
  unfold Offsets.dnsParseQuestion dnsParseQuestion questionLabels
  by_cases hshort : bytes.length < 12
  · rw [if_pos hshort, if_pos (by rwa [length_unsigned])]
    rfl
  rw [if_neg hshort, if_neg (by rwa [length_unsigned])]
  have hcount : wordAt bytes 4 = some (word (unsigned bytes) 4) :=
    wordAt_eq 0 4 (by omega)
  rw [hcount, Option.bind_some]
  by_cases hone : word (unsigned bytes) 4 ≠ 1
  · rw [if_pos hone, if_pos hone]
    rfl
  rw [if_neg hone, if_neg hone]
  obtain ⟨r, hr, hinside, heq⟩ := questionName_spec bytes 12 (unsigned bytes).length 0
    (by rw [length_unsigned]; omega) (by omega)
  rw [hr, heq, Option.bind_some]
  cases r with
  | none => rfl
  | some p =>
      obtain ⟨labels, off⟩ := p
      have hoff : off ≤ bytes.length := hinside _ rfl
      have hafter : ((unsigned bytes).drop off).length = bytes.length - off := by
        rw [List.length_drop, length_unsigned]
      by_cases hroom : bytes.length < off + 4
      · have hnot : ¬ 4 ≤ ((unsigned bytes).drop off).length := by omega
        simp only [if_pos hroom, Option.map_some, Option.filter_some, decide_eq_false hnot]
        rfl
      · have hok : 4 ≤ ((unsigned bytes).drop off).length := by omega
        have htype : wordAt bytes off = some (word ((unsigned bytes).drop off) 0) :=
          wordAt_eq off 0 (by omega)
        have hid : wordAt bytes 0 = some (word (unsigned bytes) 0) :=
          wordAt_eq 0 0 (by omega)
        simp only [if_neg hroom, htype, hid, Option.bind_some, Option.map_some, Option.filter_some,
          decide_eq_true hok]
        rfl

theorem skipQuestions_spec (bytes : List Int) (n off : Nat) (hoff : off ≤ bytes.length) :
    ∃ r, Offsets.dnsSkipQuestions bytes n off = some r ∧ (∀ next ∈ r, next ≤ bytes.length) ∧
      dnsSkipQuestions n ((unsigned bytes).drop off) =
        r.map fun next => (unsigned bytes).drop next := by
  induction n generalizing off with
  | zero => exact ⟨some off, rfl, fun next h => by cases h; exact hoff, rfl⟩
  | succ n ih =>
      have hsize : ((unsigned bytes).drop off).length = bytes.length - off := by
        rw [List.length_drop, length_unsigned]
      obtain ⟨r, hr, hinside, heq⟩ := skipName_spec bytes off
        ((unsigned bytes).drop off).length (by omega)
      unfold Offsets.dnsSkipQuestions dnsSkipQuestions
      rw [hr, heq, Option.bind_some]
      cases r with
      | none => exact ⟨none, rfl, fun _ h => (nomatch h), rfl⟩
      | some next =>
          have hnext := (hinside next rfl).2
          have hafter : ((unsigned bytes).drop next).length = bytes.length - next := by
            rw [List.length_drop, length_unsigned]
          simp only [Option.map_some]
          by_cases hroom : bytes.length < next + 4
          · rw [if_pos hroom, if_pos (by omega)]
            exact ⟨none, rfl, fun _ h => (nomatch h), rfl⟩
          · rw [if_neg hroom, if_neg (by omega), List.drop_drop]
            exact ih (next + 4) (by omega)

theorem minTtlRecords_eq {n off : Nat} {min : Option Nat} (hoff : off ≤ bytes.length) :
    Offsets.dnsMinTtlRecords bytes n off min =
      some (dnsMinTtlRecords n ((unsigned bytes).drop off) min) := by
  induction n generalizing off min with
  | zero => rfl
  | succ n ih =>
      have hsize : ((unsigned bytes).drop off).length = bytes.length - off := by
        rw [List.length_drop, length_unsigned]
      obtain ⟨r, hr, hinside, heq⟩ := skipName_spec bytes off
        ((unsigned bytes).drop off).length (by omega)
      unfold Offsets.dnsMinTtlRecords dnsMinTtlRecords
      rw [hr, heq, Option.bind_some]
      cases r with
      | none => rfl
      | some next =>
          have hnext := (hinside next rfl).2
          have hafter : ((unsigned bytes).drop next).length = bytes.length - next := by
            rw [List.length_drop, length_unsigned]
          simp only [Option.map_some]
          by_cases hroom : bytes.length < next + 10
          · rw [if_pos hroom, if_pos (by omega)]
          · have hlength : wordAt bytes (next + 8) =
                some (word ((unsigned bytes).drop next) 8) := wordAt_eq next 8 (by omega)
            rw [if_neg hroom, if_neg (by omega), ttlAt_eq (by omega), hlength, Option.bind_some,
              Option.bind_some]
            generalize word ((unsigned bytes).drop next) 8 = rdlen
            by_cases hdata : bytes.length < next + (10 + rdlen)
            · have hshort : ((unsigned bytes).drop next).length < 10 + rdlen := by omega
              rw [if_pos hdata, if_pos hshort]
            · have hlong : ¬ ((unsigned bytes).drop next).length < 10 + rdlen := by omega
              rw [if_neg hdata, if_neg hlong, List.drop_drop]
              exact ih (not_lt.mp hdata)

/-- **The records are read inside the array**, as they are in the list of the bytes. -/
theorem dnsMinTtl_eq (bytes : List Int) :
    Offsets.dnsMinTtl bytes = some (dnsMinTtl (unsigned bytes)) := by
  unfold Offsets.dnsMinTtl dnsMinTtl
  by_cases hshort : bytes.length < 12
  · rw [if_pos hshort, if_pos (by rwa [length_unsigned])]
  rw [if_neg hshort, if_neg (by rwa [length_unsigned])]
  have hqd : wordAt bytes 4 = some (word (unsigned bytes) 4) :=
    wordAt_eq 0 4 (by omega)
  have han : wordAt bytes 6 = some (word (unsigned bytes) 6) :=
    wordAt_eq 0 6 (by omega)
  have hns : wordAt bytes 8 = some (word (unsigned bytes) 8) :=
    wordAt_eq 0 8 (by omega)
  obtain ⟨r, hr, hinside, heq⟩ := skipQuestions_spec bytes
    (word (unsigned bytes) 4) 12 (by omega)
  rw [hqd, han, hns, Option.bind_some, Option.bind_some, Option.bind_some, hr, heq,
    Option.bind_some]
  cases r with
  | none => rfl
  | some off => exact minTtlRecords_eq (hinside off rfl)

end

/-! ## Messages -/

/-- A name: labels, and what ends them, the root label or a pointer. -/
structure DnsName where
  labels : List (List UInt8)
  pointer : Option (UInt8 × UInt8)
  labels_ok : ∀ label ∈ labels, 0 < label.length ∧ label.length ≤ 63
  pointer_ok : ∀ p ∈ pointer, p.1 &&& 0xC0 = 0xC0

def DnsName.bytes (name : DnsName) : List UInt8 :=
  name.labels.flatMap (fun label => UInt8.ofNat label.length :: label) ++
    match name.pointer with
    | none => [0]
    | some (hi, lo) => [hi, lo]

structure DnsRecord where
  name : DnsName
  typ : UInt16
  cls : UInt16
  ttl : UInt32
  rdata : List UInt8
  rdata_ok : rdata.length < 2 ^ 16

def DnsRecord.bytes (r : DnsRecord) : List UInt8 :=
  r.name.bytes ++ (BigEndian.put 2 r.typ.toNat ++ (BigEndian.put 2 r.cls.toNat ++
    (BigEndian.put 4 r.ttl.toNat ++ (BigEndian.put 2 r.rdata.length ++ r.rdata))))

/-- The TTL as it is to be read: 0 when the top bit is set. -/
def DnsRecord.seconds (r : DnsRecord) : Nat := if 2 ^ 31 ≤ r.ttl.toNat then 0 else r.ttl.toNat

/-- A message with one question, whose name is not compressed. `additional` is what is behind the
answers and the authority records. -/
structure DnsMessage where
  txid : UInt16
  flags : UInt16
  labels : List (List UInt8)
  qtype : UInt16
  qclass : UInt16
  answers : List DnsRecord
  authority : List DnsRecord
  arcount : UInt16
  additional : List UInt8
  labels_ok : ∀ label ∈ labels, 0 < label.length ∧ label.length ≤ 63
  name_ok : (wire labels).length ≤ 255
  answers_ok : answers.length < 2 ^ 16
  authority_ok : authority.length < 2 ^ 16

namespace DnsMessage

def header (m : DnsMessage) : List UInt8 :=
  BigEndian.put 2 m.txid.toNat ++ (BigEndian.put 2 m.flags.toNat ++ (BigEndian.put 2 1 ++
    (BigEndian.put 2 m.answers.length ++ (BigEndian.put 2 m.authority.length ++
      BigEndian.put 2 m.arcount.toNat))))

def records (m : DnsMessage) : List UInt8 := (m.answers ++ m.authority).flatMap DnsRecord.bytes

def behindName (m : DnsMessage) : List UInt8 :=
  BigEndian.put 2 m.qtype.toNat ++ (BigEndian.put 2 m.qclass.toNat ++ (m.records ++ m.additional))

def bytes (m : DnsMessage) : List UInt8 := m.header ++ (wire m.labels ++ m.behindName)

/-- The name of the question in lower case, its labels joined with dots. -/
def lowerName (m : DnsMessage) : String :=
  ".".intercalate (m.labels.map fun label =>
    String.ofList (label.map fun c => (Char.ofNat c.toNat).toLower))

end DnsMessage

/-! ## Reading them back -/

theorem word_put_mod (n : Nat) (rest : List UInt8) :
    word (BigEndian.put 2 n ++ rest) 0 = n % 2 ^ 16 := by
  have hhi : (UInt8.ofNat (n / 256)).toNat = n / 256 % 256 := UInt8.toNat_ofNat
  have hlo : (UInt8.ofNat n).toNat = n % 256 := UInt8.toNat_ofNat
  show (UInt8.ofNat (n / 256)).toNat * 256 + (UInt8.ofNat n).toNat = n % 2 ^ 16
  rw [hhi, hlo]
  omega

theorem word_put {n : Nat} (hn : n < 2 ^ 16) (rest : List UInt8) :
    word (BigEndian.put 2 n ++ rest) 0 = n := by
  rw [word_put_mod, Nat.mod_eq_of_lt hn]

theorem word_append {front : List UInt8} {k : Nat} (h : front.length = k) (rest : List UInt8)
    (i : Nat) : word (front ++ rest) (k + i) = word rest i := by
  subst h
  have hread : ∀ j, (front ++ rest).getD (front.length + j) 0 = rest.getD j 0 := by
    intro j
    rw [List.getD_eq_getElem?_getD, List.getD_eq_getElem?_getD,
      List.getElem?_append_right (Nat.le_add_right ..), Nat.add_sub_cancel_left]
  unfold word
  rw [hread, Nat.add_assoc, hread]

theorem toNat_label {label : List UInt8} (h : 0 < label.length ∧ label.length ≤ 63) :
    (UInt8.ofNat label.length).toNat = label.length := by
  rw [UInt8.toNat_ofNat', Nat.mod_eq_of_lt (by omega)]

/-- The length of a label is neither the root nor a pointer. -/
theorem label_head {label : List UInt8} (h : 0 < label.length ∧ label.length ≤ 63) :
    UInt8.ofNat label.length ≠ 0 ∧ UInt8.ofNat label.length &&& 0xC0 = 0 := by
  obtain ⟨hpos, hle⟩ := h
  generalize label.length = n at hpos hle
  interval_cases n <;> decide

theorem dnsSkipName_bytes (name : DnsName) {fuel : Nat} (hfuel : name.bytes.length ≤ fuel)
    (rest : List UInt8) : dnsSkipName fuel (name.bytes ++ rest) = some rest := by
  obtain ⟨labels, pointer, hlabels, hpointer⟩ := name
  unfold DnsName.bytes at hfuel ⊢
  dsimp only at hfuel ⊢
  induction labels generalizing fuel with
  | nil =>
      cases pointer with
      | none =>
          obtain ⟨fuel, rfl⟩ : ∃ k, fuel = k + 1 := ⟨fuel - 1, by simp at hfuel; omega⟩
          show dnsSkipName (fuel + 1) (0 :: rest) = some rest
          unfold dnsSkipName
          rw [if_pos rfl]
      | some p =>
          obtain ⟨hi, lo⟩ := p
          have hhi : hi &&& 0xC0 = 0xC0 := hpointer _ rfl
          have hne : hi ≠ 0 := by
            rintro rfl
            exact absurd hhi (by decide)
          obtain ⟨fuel, rfl⟩ : ∃ k, fuel = k + 1 := ⟨fuel - 1, by simp at hfuel; omega⟩
          show dnsSkipName (fuel + 1) (hi :: lo :: rest) = some rest
          unfold dnsSkipName
          rw [if_neg hne, if_pos hhi]
  | cons label labels ih =>
      have hlabel := hlabels label List.mem_cons_self
      obtain ⟨hroot, hmask⟩ := label_head hlabel
      have hpointer : UInt8.ofNat label.length &&& 0xC0 ≠ 0xC0 := by
        rw [hmask]
        decide
      simp only [List.flatMap_cons, List.cons_append, List.append_assoc, List.length_cons,
        List.length_append] at hfuel ⊢
      obtain ⟨fuel, rfl⟩ : ∃ k, fuel = k + 1 := ⟨fuel - 1, by omega⟩
      unfold dnsSkipName
      rw [if_neg hroot, if_neg hpointer, if_neg (not_not.mpr hmask), toNat_label hlabel,
        if_neg (by omega), List.drop_left]
      rw [← List.append_assoc]
      refine ih (fun l hl => hlabels l (List.mem_cons_of_mem _ hl)) ?_
      rw [List.length_append]
      omega

/-- The labels of the question's name are read up to the root. -/
theorem readLabels_bytes {labels : List (List UInt8)}
    (hlabels : ∀ label ∈ labels, 0 < label.length ∧ label.length ≤ 63) {fuel nameLen : Nat}
    (hfuel : (wire labels).length ≤ fuel) (htotal : nameLen + (wire labels).length ≤ 256)
    (rest : List UInt8) :
    readLabels fuel nameLen (wire labels ++ rest) = some (labels, rest) := by
  induction labels generalizing fuel nameLen with
  | nil =>
      obtain ⟨fuel, rfl⟩ : ∃ k, fuel = k + 1 := ⟨fuel - 1, by simp [wire] at hfuel; omega⟩
      show readLabels (fuel + 1) nameLen (0 :: rest) = some ([], rest)
      unfold readLabels
      rw [if_pos rfl]
  | cons label labels ih =>
      have hlabel := hlabels label List.mem_cons_self
      obtain ⟨hroot, hmask⟩ := label_head hlabel
      rw [wire_cons, List.length_cons, List.length_append] at hfuel htotal
      rw [wire_cons, List.cons_append, List.append_assoc]
      obtain ⟨fuel, rfl⟩ : ∃ k, fuel = k + 1 := ⟨fuel - 1, by omega⟩
      have hpos : 0 < (wire labels).length := by
        unfold wire
        rw [List.length_append]
        exact Nat.succ_pos _
      have hroom : ¬ (label ++ (wire labels ++ rest)).length < label.length := by
        rw [List.length_append]
        omega
      unfold readLabels
      rw [if_neg hroot, if_neg (not_not.mpr hmask), toNat_label hlabel, if_neg (by omega),
        if_neg hroom, if_neg (by omega), List.drop_left, List.take_left,
        ih (fun l hl => hlabels l (List.mem_cons_of_mem _ hl)) (by omega) (by omega)]
      rfl

/-- The script's lower case is that of ASCII. -/
theorem lowerByte_char (c : UInt8) :
    Char.ofNat (lowerByte c).toNat = (Char.ofNat c.toNat).toLower := by
  have hall : ∀ n < 256, Char.ofNat (lowerByte (UInt8.ofNat n)).toNat =
      (Char.ofNat (UInt8.ofNat n).toNat).toLower := by decide +kernel
  have hc := hall c.toNat c.toNat_lt
  rwa [UInt8.ofNat_toNat] at hc

theorem length_header (m : DnsMessage) : m.header.length = 12 := by
  simp only [DnsMessage.header, List.length_append, BigEndian.length_put]

/-- The numbers of the header. -/
theorem word_header (m : DnsMessage) :
    word m.bytes 0 = m.txid.toNat ∧ word m.bytes 4 = 1 ∧ word m.bytes 6 = m.answers.length ∧
      word m.bytes 8 = m.authority.length := by
  unfold DnsMessage.bytes DnsMessage.header
  simp only [List.append_assoc]
  refine ⟨word_put m.txid.toNat_lt _, ?_, ?_, ?_⟩
  · rw [← List.append_assoc]
    exact (word_append (by simp) _ 0).trans (word_put (by decide) _)
  · rw [← List.append_assoc, ← List.append_assoc]
    exact (word_append (by simp) _ 0).trans (word_put m.answers_ok _)
  · rw [← List.append_assoc, ← List.append_assoc, ← List.append_assoc]
    exact (word_append (by simp) _ 0).trans (word_put m.authority_ok _)

/-- What is behind the header. -/
theorem drop_header (m : DnsMessage) : m.bytes.drop 12 = wire m.labels ++ m.behindName := by
  rw [DnsMessage.bytes, ← length_header m, List.drop_left]

theorem le_length_bytes (m : DnsMessage) :
    12 + (wire m.labels).length + 4 ≤ m.bytes.length := by
  simp only [DnsMessage.bytes, DnsMessage.behindName, List.length_append, length_header,
    BigEndian.length_put]
  omega

theorem dnsParseQuestion_bytes (m : DnsMessage) :
    dnsParseQuestion m.bytes = some ⟨m.txid.toNat, m.lowerName, m.qtype.toNat⟩ := by
  have hlength := le_length_bytes m
  obtain ⟨hid, hcount, -, -⟩ := word_header m
  have hread : readLabels m.bytes.length 0 (m.bytes.drop 12) = some (m.labels, m.behindName) := by
    rw [drop_header]
    have hname := m.name_ok
    exact readLabels_bytes m.labels_ok (by omega) (by omega) _
  have hbehind : 4 ≤ m.behindName.length := by
    simp only [DnsMessage.behindName, List.length_append, BigEndian.length_put]
    omega
  have htype : word m.behindName 0 = m.qtype.toNat := word_put m.qtype.toNat_lt _
  have hname : ".".intercalate (m.labels.map labelText) = m.lowerName := by
    unfold DnsMessage.lowerName labelText
    simp only [lowerByte_char]
  unfold dnsParseQuestion questionLabels
  rw [if_neg (by omega), if_neg (not_not.mpr hcount), hread, Option.filter_some,
    if_pos (decide_eq_true hbehind), Option.map_some]
  dsimp only
  rw [hid, htype, hname]

/-! ## The least TTL -/

/-- The numbers of a record behind its name. -/
theorem word_record (r : DnsRecord) (rest : List UInt8) :
    ∃ tail, r.bytes ++ rest = r.name.bytes ++ tail ∧
      tail.length = 10 + r.rdata.length + rest.length ∧
      word tail 4 * 0x10000 + word tail 6 = r.ttl.toNat ∧ word tail 8 = r.rdata.length ∧
      tail.drop (10 + r.rdata.length) = rest := by
  have hput : BigEndian.put 4 r.ttl.toNat =
      BigEndian.put 2 (r.ttl.toNat / 256 / 256) ++ BigEndian.put 2 r.ttl.toNat := rfl
  refine ⟨BigEndian.put 2 r.typ.toNat ++ (BigEndian.put 2 r.cls.toNat ++
    (BigEndian.put 4 r.ttl.toNat ++ (BigEndian.put 2 r.rdata.length ++ (r.rdata ++ rest)))),
    ?_, ?_, ?_, ?_, ?_⟩
  · simp only [DnsRecord.bytes, List.append_assoc]
  · simp only [List.length_append, BigEndian.length_put]
    omega
  · rw [hput]
    simp only [List.append_assoc]
    have hhigh : word (BigEndian.put 2 r.typ.toNat ++ (BigEndian.put 2 r.cls.toNat ++
        (BigEndian.put 2 (r.ttl.toNat / 256 / 256) ++ (BigEndian.put 2 r.ttl.toNat ++
          (BigEndian.put 2 r.rdata.length ++ (r.rdata ++ rest)))))) 4 =
        r.ttl.toNat / 256 / 256 % 2 ^ 16 := by
      rw [← List.append_assoc]
      exact (word_append (by simp) _ 0).trans (word_put_mod _ _)
    have hlow : word (BigEndian.put 2 r.typ.toNat ++ (BigEndian.put 2 r.cls.toNat ++
        (BigEndian.put 2 (r.ttl.toNat / 256 / 256) ++ (BigEndian.put 2 r.ttl.toNat ++
          (BigEndian.put 2 r.rdata.length ++ (r.rdata ++ rest)))))) 6 = r.ttl.toNat % 2 ^ 16 := by
      rw [← List.append_assoc, ← List.append_assoc]
      exact (word_append (by simp) _ 0).trans (word_put_mod _ _)
    rw [hhigh, hlow]
    have httl := r.ttl.toNat_lt
    omega
  · rw [← List.append_assoc, ← List.append_assoc]
    exact (word_append (by simp) _ 0).trans (word_put r.rdata_ok _)
  · rw [← List.append_assoc, ← List.append_assoc, ← List.append_assoc, ← List.append_assoc]
    exact List.drop_left' (by simp; omega)

theorem min?_cons_cons (m t : Nat) (ttls : List Nat) :
    ((if t < m then t else m) :: ttls).min? = (m :: t :: ttls).min? := by
  have hmin : (if t < m then t else m) = min m t := by
    split_ifs <;> omega
  rw [List.min?_cons', List.min?_cons', List.foldl_cons, hmin]

/-- The loop finds the least TTL of the records and of what it began with. -/
theorem dnsMinTtlRecords_bytes (records : List DnsRecord) (rest : List UInt8) (least : Option Nat) :
    dnsMinTtlRecords records.length (records.flatMap DnsRecord.bytes ++ rest) least =
      (least.toList ++ records.map DnsRecord.seconds).min? := by
  induction records generalizing least with
  | nil =>
      rw [List.map_nil, List.append_nil]
      cases least with
      | none => rfl
      | some m => rfl
  | cons r records ih =>
      obtain ⟨tail, hbytes, hlength, httl, hdata, hdrop⟩ :=
        word_record r (records.flatMap DnsRecord.bytes ++ rest)
      have hseconds : (if 0x7FFFFFFF < r.ttl.toNat then 0 else r.ttl.toNat) = r.seconds := by
        unfold DnsRecord.seconds
        split_ifs <;> omega
      have hfuel : r.name.bytes.length ≤ (r.name.bytes ++ tail).length := by
        rw [List.length_append]
        exact Nat.le_add_right ..
      rw [List.flatMap_cons, List.append_assoc, hbytes, List.length_cons]
      unfold dnsMinTtlRecords
      rw [dnsSkipName_bytes r.name hfuel]
      dsimp only
      rw [if_neg (by omega), httl, hdata, hseconds, if_neg (by omega), hdrop, ih]
      cases least with
      | none => rfl
      | some m => exact min?_cons_cons m r.seconds _

theorem dnsMinTtl_bytes (m : DnsMessage) :
    dnsMinTtl m.bytes = ((m.answers ++ m.authority).map DnsRecord.seconds).min? := by
  have hlength := le_length_bytes m
  obtain ⟨-, hcount, hanswers, hauthority⟩ := word_header m
  have hname : dnsSkipName (wire m.labels ++ m.behindName).length (wire m.labels ++ m.behindName) =
      some m.behindName := by
    refine dnsSkipName_bytes ⟨m.labels, none, m.labels_ok, fun _ h => (nomatch h)⟩ ?_ _
    rw [List.length_append]
    exact Nat.le_add_right ..
  have hbehind : m.behindName.length = 4 + (m.records ++ m.additional).length := by
    simp only [DnsMessage.behindName, List.length_append, BigEndian.length_put]
    omega
  have hdrop : m.behindName.drop 4 = m.records ++ m.additional := by
    unfold DnsMessage.behindName
    rw [← List.append_assoc]
    exact List.drop_left' (by simp)
  have hquestion : dnsSkipQuestions 1 (wire m.labels ++ m.behindName) =
      some (m.records ++ m.additional) := by
    unfold dnsSkipQuestions
    rw [hname]
    dsimp only
    rw [if_neg (by omega), hdrop]
    rfl
  unfold dnsMinTtl
  rw [if_neg (by omega), hcount, hanswers, hauthority, drop_header, hquestion, Option.bind_some,
    ← List.length_append]
  exact dnsMinTtlRecords_bytes _ _ none

/-- **Messages are walked exactly.** The bytes of a message, signed or not, are read back to its
question and its least TTL; and no array of bytes is read at or past its end. -/
theorem dnsWalk_exact :
    (∀ (m : DnsMessage) (bytes : List Int), unsigned bytes = m.bytes →
      Offsets.dnsParseQuestion bytes = some (some ⟨m.txid.toNat, m.lowerName, m.qtype.toNat⟩) ∧
      Offsets.dnsMinTtl bytes =
        some ((m.answers ++ m.authority).map DnsRecord.seconds).min?) ∧
    ∀ bytes : List Int, (∃ r, Offsets.dnsParseQuestion bytes = some r) ∧
      ∃ r, Offsets.dnsMinTtl bytes = some r := by
  refine ⟨fun m bytes h => ⟨?_, ?_⟩, fun bytes => ⟨⟨_, dnsParseQuestion_eq bytes⟩,
    ⟨_, dnsMinTtl_eq bytes⟩⟩⟩
  · rw [dnsParseQuestion_eq, h, dnsParseQuestion_bytes]
  · rw [dnsMinTtl_eq, h, dnsMinTtl_bytes]

end Rahgozar.AppsScript
