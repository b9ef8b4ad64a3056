import Rahgozar.Lib.BitBuffer
import Rahgozar.Lib.Decimal
import Rahgozar.Drive.Filename

set_option autoImplicit false

/-! # The names of the mailbox, written and read

A name that is written is read back. A name that is read need not be the one that would be written:
the parser takes a number with a plus sign or with leading zeros, and does not look at the last two
bits of the base32 text, which are behind the 128 bits of the session.
-/

namespace Rahgozar.Drive

open BitBuffer (Holds value)

/-! ## Characters of base32 -/

/-- The value of a character. -/
def b32Value (c : Char) : Option Nat :=
  if c.toNat < 128 then decodeB32Char (UInt8.ofNat c.toNat) else none

theorem decodeB32Char_lt {b : UInt8} {v : Nat} (h : decodeB32Char b = some v) : v < 32 := by
  unfold decodeB32Char at h
  simp only [UInt8.le_iff_toNat_le] at h
  split_ifs at h with h1 h2 h3 <;> cases h
  · have hb : b.toNat ≤ 122 := h1.2
    omega
  · have hb : b.toNat ≤ 90 := h2.2
    omega
  · have hb : b.toNat ≤ 55 := h3.2
    omega

theorem decodeB32Char_high {b : UInt8} (h : 128 ≤ b.toNat) : decodeB32Char b = none := by
  unfold decodeB32Char
  simp only [UInt8.le_iff_toNat_le]
  have h1 : ¬ (97 ≤ b.toNat ∧ b.toNat ≤ 122) := by omega
  have h2 : ¬ (65 ≤ b.toNat ∧ b.toNat ≤ 90) := by omega
  have h3 : ¬ (50 ≤ b.toNat ∧ b.toNat ≤ 55) := by omega
  exact (if_neg h1).trans ((if_neg h2).trans (if_neg h3))

theorem b32Value_lt {c : Char} {v : Nat} (h : b32Value c = some v) : v < 32 := by
  unfold b32Value at h
  split_ifs at h
  exact decodeB32Char_lt h

theorem b32Value_b32Char {i : Nat} (hi : i < 32) : b32Value (b32Char i) = some i := by
  have hall : ∀ i : Fin 32, b32Value (b32Char i) = some i.val := by decide
  exact hall ⟨i, hi⟩

/-- Small letters are the ones that are written. -/
theorem toLower_eq {c : Char} {v : Nat} (h : b32Value c = some v) : c.toLower = b32Char v := by
  have hall : ∀ n : Fin 128, (b32Value (Char.ofNat n)).all
      fun v => (Char.ofNat n).toLower = b32Char v := by decide
  have hlt : c.toNat < 128 := by
    by_contra hge
    rw [b32Value, if_neg hge] at h
    cases h
  have hc := hall ⟨c.toNat, hlt⟩
  rw [Char.ofNat_toNat, h] at hc
  exact of_decide_eq_true hc

/-- A text of base32, by the values of its characters. -/
def Spells (text : List Char) (vs : List Nat) : Prop := text.map b32Value = vs.map some

/-- The bytes of a character. -/
theorem utf8_cases (c : Char) :
    (c.toNat < 128 ∧ String.utf8EncodeChar c = [UInt8.ofNat c.toNat]) ∨
    (¬ c.toNat < 128 ∧ ∃ b rest, String.utf8EncodeChar c = b :: rest ∧ 128 ≤ b.toNat) := by
  have hhigh : ∀ x y : UInt8, 128 ≤ y.toNat → 128 ≤ (x ||| y).toNat := by
    intro x y hy
    rw [UInt8.toNat_or]
    exact le_trans hy Nat.right_le_or
  by_cases hone : c.utf8Size = 1
  · left
    have hle : c.val.toNat ≤ 127 := UInt32.le_iff_toNat_le.mp (Char.utf8Size_eq_one_iff.mp hone)
    refine ⟨Nat.lt_succ_of_le hle, ?_⟩
    rw [String.utf8EncodeChar_eq_singleton hone]
    rfl
  · right
    have hlt : ¬ c.toNat < 128 := by
      intro hlt
      apply hone
      rw [Char.utf8Size_eq_one_iff, UInt32.le_iff_toNat_le]
      exact Nat.le_of_lt_succ hlt
    refine ⟨hlt, ?_⟩
    rcases Char.utf8Size_eq c with h | h | h | h
    · exact absurd h hone
    · exact ⟨_, _, String.utf8EncodeChar_eq_cons_cons h, hhigh _ _ (by decide)⟩
    · exact ⟨_, _, String.utf8EncodeChar_eq_cons_cons_cons h, hhigh _ _ (by decide)⟩
    · exact ⟨_, _, String.utf8EncodeChar_eq_cons_cons_cons_cons h, hhigh _ _ (by decide)⟩

/-- A text is base32 if its bytes are. -/
theorem spells_iff (text : List Char) (vs : List Nat) :
    (text.flatMap String.utf8EncodeChar).map decodeB32Char = vs.map some ↔ Spells text vs := by
  induction text generalizing vs with
  | nil => rfl
  | cons c text ih =>
      rw [List.flatMap_cons, List.map_append, Spells, List.map_cons]
      rcases utf8_cases c with ⟨hlt, henc⟩ | ⟨hge, b, rest, henc, hb⟩
      · rw [henc, b32Value, if_pos hlt, List.map_singleton, List.singleton_append]
        cases vs with
        | nil => simp
        | cons v vs =>
            rw [List.map_cons, List.cons.injEq, List.cons.injEq]
            exact and_congr_right fun _ => ih vs
      · rw [henc, b32Value, if_neg hge, List.map_cons, decodeB32Char_high hb, List.cons_append]
        cases vs with
        | nil => simp
        | cons v vs => simp

/-! ## The encoder's loop -/

/-- Each index is below 32. -/
def IsIndices (idxs : List Nat) : Prop := ∀ i ∈ idxs, i < 32

theorem IsIndices.concat {idxs : List Nat} (h : IsIndices idxs) {i : Nat} (hi : i < 32) :
    IsIndices (idxs ++ [i]) := by
  intro j hj
  rcases List.mem_append.mp hj with hold | hnew
  · exact h j hold
  · rw [List.mem_singleton.mp hnew]
    exact hi

theorem drainB32_spec {fed idxs : List Nat} {buffer bits : Nat} (hidxs : IsIndices idxs)
    (h : Holds 8 5 fed idxs buffer bits) :
    ∃ bits' idxs', drainB32 buffer bits (idxs.map b32Char) = (bits', idxs'.map b32Char) ∧
      Holds 8 5 fed idxs' buffer bits' ∧ bits' < 5 ∧ IsIndices idxs' := by
  induction bits using Nat.strongRecOn generalizing idxs with
  | ind bits ih =>
      by_cases hlt : bits < 5
      · refine ⟨bits, idxs, ?_, h, hlt, hidxs⟩
        match bits, hlt with
        | 0, _ => rfl
        | 1, _ => rfl
        | 2, _ => rfl
        | 3, _ => rfl
        | 4, _ => rfl
      · obtain ⟨left, rfl⟩ : ∃ left, bits = left + 5 := ⟨bits - 5, by omega⟩
        have hidx : buffer / 2 ^ left % 32 < 32 := Nat.mod_lt _ (by decide)
        obtain ⟨bits', idxs', heq, hholds, hbits, hidxs'⟩ :=
          ih left (by omega) (hidxs.concat hidx) h.emit
        refine ⟨bits', idxs', ?_, hholds, hbits, hidxs'⟩
        rw [drainB32, ← heq, List.map_append, List.map_singleton]

theorem encodeB32_spec {fed idxs : List Nat} {buffer bits : Nat} (bytes : List UInt8)
    (hidxs : IsIndices idxs) (hbits : bits < 5) (h : Holds 8 5 fed idxs buffer bits)
    (hlen : (fed.length + bytes.length) % 5 ≠ 0) :
    ∃ idxs', encodeB32 buffer bits (idxs.map b32Char) bytes = idxs'.map b32Char ∧
      IsIndices idxs' ∧ ∃ left < 5, 0 < left ∧
      8 * (fed.length + bytes.length) + (5 - left) = 5 * idxs'.length ∧
      value 32 idxs' = value 256 (fed ++ bytes.map UInt8.toNat) * 2 ^ (5 - left) := by
  induction bytes generalizing fed idxs buffer bits with
  | nil =>
      have hlength := h.length
      have hpos : 0 < bits := by
        rw [List.length_nil, Nat.add_zero] at hlen
        omega
      have hmod : buffer * 2 ^ (5 - bits) % u64Size % 32 = buffer * 2 ^ (5 - bits) % 2 ^ 5 :=
        Nat.mod_mod_of_dvd _ (by decide)
      refine ⟨idxs ++ [buffer * 2 ^ (5 - bits) % u64Size % 32], ?_, ?_, bits, hbits, hpos, ?_, ?_⟩
      · rw [encodeB32, if_pos hpos, List.map_append, List.map_singleton]
      · exact hidxs.concat (Nat.mod_lt _ (by decide))
      · rw [List.length_nil, List.length_append, List.length_singleton]
        omega
      · rw [hmod, List.map_nil, List.append_nil]
        exact h.pad (Nat.le_of_lt hbits)
  | cons byte rest ih =>
      have hfeed : Holds 8 5 (fed ++ [byte.toNat]) idxs
          ((buffer * 2 ^ 8 + byte.toNat) % 2 ^ 64) (bits + 8) := h.feed byte.toNat_lt (by omega)
      obtain ⟨bits', idxs', heq, hholds, hbits', hidxs'⟩ := drainB32_spec hidxs hfeed
      have hlen' : ((fed ++ [byte.toNat]).length + rest.length) % 5 ≠ 0 := by
        rw [List.length_append, List.length_singleton]
        rw [List.length_cons] at hlen
        omega
      obtain ⟨idxs'', henc, hall, left, hleft, hpos, hcount, hvalue⟩ :=
        ih hidxs' hbits' hholds hlen'
      refine ⟨idxs'', ?_, hall, left, hleft, hpos, ?_, ?_⟩
      · rw [encodeB32, ← henc]
        have hbuffer : (buffer * 256 + byte.toNat) % u64Size =
            (buffer * 2 ^ 8 + byte.toNat) % 2 ^ 64 := rfl
        rw [hbuffer, heq]
      · rw [← hcount, List.length_append, List.length_singleton, List.length_cons]
        omega
      · rw [hvalue, List.map_cons, List.append_assoc, List.singleton_append]

/-- The 128 bits of a session, and two zeros. -/
theorem encodeSidB32_spec (sid : SessionId) :
    ∃ idxs, encodeSidB32 sid = idxs.map b32Char ∧ IsIndices idxs ∧ idxs.length = 26 ∧
      value 32 idxs = value 256 (sid.val.map UInt8.toNat) * 4 := by
  have hlen := sid.property
  obtain ⟨idxs, henc, hall, left, hleft, hpos, hcount, hvalue⟩ :=
    encodeB32_spec sid.val (fun i hi => absurd hi List.not_mem_nil) (by decide)
      (Holds.start 8 5) (by rw [hlen]; decide)
  rw [hlen, List.length_nil] at hcount
  have hleft3 : left = 3 := by omega
  subst hleft3
  exact ⟨idxs, henc, hall, by omega, hvalue⟩

/-! ## The decoder's loop -/

theorem decodeB32_values {bytes : List UInt8} {out out' : List UInt8} {buffer bits : Nat}
    (h : decodeB32 buffer bits out bytes = some out') :
    ∃ vs : List Nat, bytes.map decodeB32Char = vs.map some := by
  induction bytes generalizing buffer bits out with
  | nil => exact ⟨[], rfl⟩
  | cons c rest ih =>
      rw [decodeB32] at h
      cases hc : decodeB32Char c with
      | none =>
          rw [hc] at h
          cases h
      | some v =>
          rw [hc] at h
          dsimp only at h
          have hrest : ∃ vs : List Nat, rest.map decodeB32Char = vs.map some := by
            split_ifs at h
            · exact ih h
            · exact ih h
          obtain ⟨vs, hvs⟩ := hrest
          exact ⟨v :: vs, by rw [List.map_cons, List.map_cons, hc, hvs]⟩

theorem toNat_low (buffer bits : Nat) :
    (UInt8.ofNat (buffer / 2 ^ bits)).toNat = buffer / 2 ^ bits % 2 ^ 8 := UInt8.toNat_ofNat

theorem decodeB32_spec {bytes : List UInt8} {fed vs : List Nat} {out : List UInt8}
    {buffer bits : Nat} (hvs : bytes.map decodeB32Char = vs.map some) (hbits : bits < 8)
    (h : Holds 5 8 fed (out.map UInt8.toNat) buffer bits)
    (hlen : fed.length + vs.length ≤ 26) :
    ∃ out' buffer' bits', decodeB32 buffer bits out bytes = some out' ∧ bits' < 8 ∧
      Holds 5 8 (fed ++ vs) (out'.map UInt8.toNat) buffer' bits' := by
  induction bytes generalizing fed vs out buffer bits with
  | nil =>
      obtain rfl : vs = [] := List.map_eq_nil_iff.mp hvs.symm
      exact ⟨out, buffer, bits, rfl, hbits, by rwa [List.append_nil]⟩
  | cons c rest ih =>
      cases vs with
      | nil => cases hvs
      | cons v vs =>
          rw [List.map_cons, List.map_cons, List.cons.injEq] at hvs
          obtain ⟨hc, hrest⟩ := hvs
          rw [List.length_cons] at hlen
          have hfeed : Holds 5 8 (fed ++ [v]) (out.map UInt8.toNat)
              ((buffer * 2 ^ 5 + v) % 2 ^ 64) (bits + 5) :=
            h.feed (decodeB32Char_lt hc) (by omega)
          have hlen' : (fed ++ [v]).length + vs.length ≤ 26 := by
            rw [List.length_append, List.length_singleton]
            omega
          have hbuffer : (buffer * 32 + v) % u64Size = (buffer * 2 ^ 5 + v) % 2 ^ 64 := rfl
          have hall : fed ++ v :: vs = fed ++ [v] ++ vs := by simp
          rw [decodeB32, hc, hall]
          dsimp only
          rw [hbuffer]
          by_cases hfull : 8 ≤ bits + 5
          · have hholds : Holds 5 8 (fed ++ [v]) (out.map UInt8.toNat)
                ((buffer * 2 ^ 5 + v) % 2 ^ 64) (bits + 5 - 8 + 8) := by
              rwa [Nat.sub_add_cancel hfull]
            -- 26 characters have bits for 16 bytes
            have hroom : ¬ 16 ≤ out.length := by
              have hlength := hholds.length
              rw [List.length_append, List.length_singleton, List.length_map] at hlength
              omega
            have hemit := hholds.emit
            rw [← toNat_low, ← List.map_singleton, ← List.map_append] at hemit
            rw [if_pos hfull, if_neg hroom]
            exact ih hrest (by omega) hemit hlen'
          · rw [if_neg hfull]
            exact ih hrest (by omega) hfeed hlen'

theorem length_of_spells {text : List Char} {vs : List Nat} (h : Spells text vs) :
    text.length = vs.length := by
  have hlen := congrArg List.length h
  rwa [List.length_map, List.length_map] at hlen

theorem bytes_of_spells {text : List Char} {vs : List Nat} (h : Spells text vs) :
    (text.flatMap String.utf8EncodeChar).length = vs.length := by
  have hlen := congrArg List.length ((spells_iff text vs).mpr h)
  rwa [List.length_map, List.length_map] at hlen

theorem lt_of_spells {text : List Char} {vs : List Nat} (h : Spells text vs) : IsIndices vs := by
  intro v hv
  have hmem : some v ∈ text.map b32Value := by
    rw [h]
    exact List.mem_map_of_mem hv
  obtain ⟨c, _, hc⟩ := List.mem_map.mp hmem
  exact b32Value_lt hc

/-- 26 characters spell the 128 bits of a session, and two more bits. -/
theorem decodeSidB32_of_spells {text : List Char} {vs : List Nat} (h : Spells text vs)
    (hlen : vs.length = 26) :
    ∃ sid : SessionId, decodeSidB32 text = some sid ∧ ∃ low < 4,
      value 32 vs = value 256 (sid.val.map UInt8.toNat) * 4 + low := by
  have hstart : Holds 5 8 [] (([] : List UInt8).map UInt8.toNat) 0 0 := Holds.start 5 8
  obtain ⟨out, buffer, bits, hdec, hbits, hholds⟩ :=
    decodeB32_spec ((spells_iff text vs).mpr h) (by decide) hstart
      (by rw [List.length_nil, hlen])
  have hlength := hholds.length
  rw [List.nil_append, hlen, List.length_map] at hlength
  have hbits2 : bits = 2 := by omega
  have hout : out.length = 16 := by omega
  subst hbits2
  refine ⟨⟨out, hout⟩, ?_, buffer % 2 ^ 2, Nat.mod_lt _ (by decide), ?_⟩
  · have hbytes : ¬ (text.flatMap String.utf8EncodeChar).length ≠ 26 := by
      rw [bytes_of_spells h, hlen]
      exact not_not.mpr rfl
    rw [decodeSidB32, if_neg hbytes, hdec]
    exact dif_pos hout
  · exact hholds.value

theorem spells_of_decodeSidB32 {text : List Char} {sid : SessionId}
    (h : decodeSidB32 text = some sid) : ∃ vs, Spells text vs ∧ vs.length = 26 := by
  unfold decodeSidB32 at h
  dsimp only at h
  split_ifs at h with hlen
  cases hdec : decodeB32 0 0 [] (text.flatMap String.utf8EncodeChar) with
  | none =>
      rw [hdec] at h
      cases h
  | some out =>
      obtain ⟨vs, hvs⟩ := decodeB32_values hdec
      have hspells := (spells_iff text vs).mp hvs
      refine ⟨vs, hspells, ?_⟩
      rw [← bytes_of_spells hspells]
      exact not_not.mp hlen

theorem sid_inj {sid sid' : SessionId}
    (h : value 256 (sid.val.map UInt8.toNat) = value 256 (sid'.val.map UInt8.toNat)) :
    sid = sid' := by
  have hlt : ∀ bytes : List UInt8, ∀ d ∈ bytes.map UInt8.toNat, d < 256 := by
    intro bytes d hd
    obtain ⟨b, _, rfl⟩ := List.mem_map.mp hd
    exact b.toNat_lt
  have hmap : sid.val.map UInt8.toNat = sid'.val.map UInt8.toNat := by
    apply BitBuffer.value_inj (by decide) _ (hlt _) (hlt _) h
    rw [List.length_map, List.length_map, sid.property, sid'.property]
  apply Subtype.ext
  exact List.map_injective_iff.mpr (fun a b hab => UInt8.toNat_inj.mp hab) hmap

theorem spells_indices {idxs : List Nat} (h : IsIndices idxs) :
    Spells (idxs.map b32Char) idxs := by
  rw [Spells, List.map_map]
  exact List.map_congr_left fun i hi => b32Value_b32Char (h i hi)

theorem decodeSidB32_encodeSidB32 (sid : SessionId) :
    decodeSidB32 (encodeSidB32 sid) = some sid := by
  obtain ⟨idxs, henc, hidxs, hlen, hvalue⟩ := encodeSidB32_spec sid
  obtain ⟨sid', hdec, low, hlow, hvalue'⟩ :=
    decodeSidB32_of_spells (spells_indices hidxs) hlen
  rw [henc, hdec]
  exact congrArg some (sid_inj (by omega))

/-! ## The parts of a name -/

theorem stripPrefix_eq_some {start text rest : List Char}
    (h : stripPrefix start text = some rest) : text = start ++ rest := by
  unfold stripPrefix at h
  split_ifs at h with hprefix
  cases h
  exact List.prefix_iff_eq_append.mp (List.isPrefixOf_iff_prefix.mp hprefix) |>.symm

theorem splitKind_start (kind : FilenameKind) (rest : List Char) :
    splitKind (kind.start ++ rest) = some (kind, rest) := by
  match kind with
  | .hello => rfl
  | .frame .clientToRelay => rfl
  | .frame .relayToClient => rfl

theorem splitKind_eq_some {name rest : List Char} {kind : FilenameKind}
    (h : splitKind name = some (kind, rest)) : name = kind.start ++ rest := by
  unfold splitKind at h
  cases hc2r : stripPrefix prefixC2r name with
  | some r =>
      rw [hc2r] at h
      cases h
      exact stripPrefix_eq_some hc2r
  | none =>
      rw [hc2r] at h
      cases hr2c : stripPrefix prefixR2c name with
      | some r =>
          rw [hr2c] at h
          cases h
          exact stripPrefix_eq_some hr2c
      | none =>
          rw [hr2c] at h
          obtain ⟨r, hhello, heq⟩ := Option.map_eq_some_iff.mp h
          cases heq
          exact stripPrefix_eq_some hhello

theorem rsplitOnce_cons (c x : Char) (rest : List Char) :
    rsplitOnce c (x :: rest) =
      match rsplitOnce c rest with
      | some (before, after) => some (x :: before, after)
      | none => if x = c then some ([], rest) else none :=
  rfl

theorem rsplitOnce_none {c : Char} {text : List Char} (h : c ∉ text) :
    rsplitOnce c text = none := by
  induction text with
  | nil => rfl
  | cons x rest ih =>
      have hx : x ≠ c := fun hxc => h (hxc ▸ List.mem_cons_self)
      rw [rsplitOnce_cons, ih (fun hmem => h (List.mem_cons_of_mem x hmem))]
      exact if_neg hx

theorem rsplitOnce_append {c : Char} (before : List Char) {after : List Char} (h : c ∉ after) :
    rsplitOnce c (before ++ c :: after) = some (before, after) := by
  induction before with
  | nil =>
      rw [List.nil_append, rsplitOnce_cons, rsplitOnce_none h]
      exact if_pos rfl
  | cons x before ih => rw [List.cons_append, rsplitOnce_cons, ih]

theorem rsplitOnce_eq_none {c : Char} {text : List Char} (h : rsplitOnce c text = none) :
    c ∉ text := by
  induction text with
  | nil => exact List.not_mem_nil
  | cons x rest ih =>
      rw [rsplitOnce_cons] at h
      cases hrest : rsplitOnce c rest with
      | some p =>
          rw [hrest] at h
          cases h
      | none =>
          rw [hrest] at h
          dsimp only at h
          split_ifs at h with hx
          intro hmem
          rcases List.mem_cons.mp hmem with heq | hin
          · exact hx heq.symm
          · exact ih hrest hin

theorem rsplitOnce_eq_some {c : Char} {text before after : List Char}
    (h : rsplitOnce c text = some (before, after)) : text = before ++ c :: after ∧ c ∉ after := by
  induction text generalizing before with
  | nil => cases h
  | cons x rest ih =>
      rw [rsplitOnce_cons] at h
      cases hrest : rsplitOnce c rest with
      | some p =>
          rw [hrest] at h
          cases h
          obtain ⟨heq, hnot⟩ := ih hrest
          exact ⟨by rw [heq, List.cons_append], hnot⟩
      | none =>
          rw [hrest] at h
          dsimp only at h
          split_ifs at h with hx
          cases h
          exact ⟨by rw [hx, List.nil_append], rsplitOnce_eq_none hrest⟩

/-! ## The number -/

/-- The digits of a number, behind the sign. -/
def digitsOf (text : List Char) : List Char :=
  match text with
  | '+' :: rest => rest
  | _ => text

/-- A text that `str::parse` takes for a number. -/
structure IsNumber (size : Nat) (text : List Char) : Prop where
  ne_nil : digitsOf text ≠ []
  digits : ∀ c ∈ digitsOf text, c.isDigit = true
  lt : Nat.ofDigitChars 10 (digitsOf text) 0 < size

theorem foldl_digits (digits : List Char) :
    digits.foldl (fun acc c => acc * 10 + (c.toNat - '0'.toNat)) 0 =
      Nat.ofDigitChars 10 digits 0 := by
  have hstep : (fun acc (c : Char) => acc * 10 + (c.toNat - '0'.toNat)) =
      fun acc c => 10 * acc + (c.toNat - '0'.toNat) := by
    funext acc c
    rw [Nat.mul_comm]
  rw [Nat.ofDigitChars_eq_foldl, hstep]

theorem parseUnsigned_eq_some_iff {size : Nat} {text : List Char} {n : Nat} :
    parseUnsigned size text = some n ↔
      IsNumber size text ∧ n = Nat.ofDigitChars 10 (digitsOf text) 0 := by
  have hparse : parseUnsigned size text =
      if (digitsOf text).isEmpty || !(digitsOf text).all Char.isDigit then none
      else if Nat.ofDigitChars 10 (digitsOf text) 0 < size then
        some (Nat.ofDigitChars 10 (digitsOf text) 0)
      else none := by
    rw [← foldl_digits]
    rfl
  have hcheck : ((digitsOf text).isEmpty || !(digitsOf text).all Char.isDigit) = true ↔
      ¬ (digitsOf text ≠ [] ∧ ∀ c ∈ digitsOf text, c.isDigit = true) := by
    rw [Bool.or_eq_true, List.isEmpty_iff, Bool.not_eq_true', Bool.eq_false_iff, ne_eq,
      List.all_eq_true, not_and_or, not_not]
  rw [hparse]
  constructor
  · intro h
    split_ifs at h with hbad hlt
    have hgood := not_not.mp (mt hcheck.mpr hbad)
    cases h
    exact ⟨⟨hgood.1, hgood.2, hlt⟩, rfl⟩
  · rintro ⟨hnumber, rfl⟩
    have hgood := mt hcheck.mp (not_not.mpr ⟨hnumber.ne_nil, hnumber.digits⟩)
    rw [if_neg hgood, if_pos hnumber.lt]

theorem digitsOf_of_head {text : List Char} (h : text.head? ≠ some '+') : digitsOf text = text := by
  unfold digitsOf
  split
  · exact absurd rfl h
  · rfl

theorem head?_toDigits_ne_plus (n : Nat) : (Nat.toDigits 10 n).head? ≠ some '+' := by
  intro h
  have hdigit : ('+' : Char).isDigit = true :=
    Nat.isDigit_of_mem_toDigits (by decide) (by decide) (List.mem_of_head? h)
  exact absurd hdigit (by decide)

theorem parseUnsigned_toDigits {size n : Nat} (h : n < size) :
    parseUnsigned size (Nat.toDigits 10 n) = some n := by
  have hdigits := digitsOf_of_head (head?_toDigits_ne_plus n)
  refine parseUnsigned_eq_some_iff.mpr ⟨⟨?_, ?_, ?_⟩, ?_⟩
  · rw [hdigits]
    exact Nat.toDigits_ne_nil
  · rw [hdigits]
    exact fun c hc => Nat.isDigit_of_mem_toDigits (by decide) (by decide) hc
  · rwa [hdigits, Nat.ofDigitChars_ten_toDigits]
  · rw [hdigits, Nat.ofDigitChars_ten_toDigits]

theorem underscore_not_mem {size : Nat} {text : List Char} (h : IsNumber size text) :
    '_' ∉ text := by
  have hdigits : '_' ∉ digitsOf text := by
    intro hmem
    exact absurd (h.digits _ hmem) (by decide)
  by_cases hplus : text.head? = some '+'
  · obtain ⟨rest, rfl⟩ := List.head?_eq_some_iff.mp hplus
    intro hmem
    rcases List.mem_cons.mp hmem with heq | hin
    · exact absurd heq (by decide)
    · exact hdigits hin
  · rwa [digitsOf_of_head hplus] at hdigits

/-! ## Names -/

theorem parseFilename_parts (kind : FilenameKind) (s : List Char) {q : List Char} (h : '_' ∉ q) :
    parseFilename (kind.start ++ (s ++ '_' :: q)) =
      (decodeSidB32 s).bind fun sid => (parseUnsigned u64Size q).bind fun seq =>
        if kind = .hello ∧ seq ≠ 0 then none else some ⟨kind, sid, seq⟩ := by
  unfold parseFilename
  simp only [splitKind_start, rsplitOnce_append s h, Option.bind_eq_bind, Option.bind_some]

/-- The parts of a name that parses. -/
theorem parseFilename_eq_some {name : List Char} {f : DriveFilename}
    (h : parseFilename name = some f) :
    ∃ s q, name = f.kind.start ++ (s ++ '_' :: q) ∧ decodeSidB32 s = some f.sid ∧
      parseUnsigned u64Size q = some f.seq ∧ (f.kind = .hello → f.seq = 0) := by
  unfold parseFilename at h
  obtain ⟨⟨kind, rest⟩, hkind, h⟩ := Option.bind_eq_some_iff.mp h
  obtain ⟨⟨s, q⟩, hsplit, h⟩ := Option.bind_eq_some_iff.mp h
  obtain ⟨sid, hsid, h⟩ := Option.bind_eq_some_iff.mp h
  obtain ⟨seq, hseq, h⟩ := Option.bind_eq_some_iff.mp h
  split_ifs at h with hhello
  cases h
  refine ⟨s, q, ?_, hsid, hseq, ?_⟩
  · rw [splitKind_eq_some hkind]
    exact congrArg (kind.start ++ ·) (rsplitOnce_eq_some hsplit).1
  · intro hk
    by_contra hne
    exact hhello ⟨hk, hne⟩

/-- A name that is written is read back, and so is the text of every session. -/
theorem parseFilename_format :
    (∀ sid : SessionId, decodeSidB32 (encodeSidB32 sid) = some sid) ∧
    ∀ f : DriveFilename, f.seq < u64Size → (f.kind = .hello → f.seq = 0) →
      parseFilename f.format = some f := by
  constructor
  · exact decodeSidB32_encodeSidB32
  · intro f hseq hhello
    have hok : ¬ (f.kind = .hello ∧ f.seq ≠ 0) := fun h => h.2 (hhello h.1)
    rw [DriveFilename.format, parseFilename_parts _ _ Nat.underscore_not_in_toDigits,
      decodeSidB32_encodeSidB32, Option.bind_some, parseUnsigned_toDigits hseq, Option.bind_some,
      if_neg hok]

/-- A frame of a relay. -/
def relayFrame : DriveFilename := ⟨.frame .relayToClient, ⟨List.replicate 16 165, rfl⟩, 42⟩

theorem parseFilename_format_relayFrame : parseFilename relayFrame.format = some relayFrame :=
  parseFilename_format.2 relayFrame (by decide) (by decide)

end Rahgozar.Drive
