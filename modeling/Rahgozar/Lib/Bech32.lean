import Mathlib.Data.Bool.AllAny
import Mathlib.Data.List.GetD
import Rahgozar.Lib.BigEndian
import Rahgozar.Lib.BitBuffer
import Rahgozar.Lib.Trim

set_option autoImplicit false

/-! # Bech32m

A text for a few bytes: a human-readable part, the separator `1`, and values of five bits, each
written as one character; the last six values are a checksum. A text is written in small letters
or in capital letters, and never in both.
-/

namespace Bech32

open BitBuffer (value digits)

/-! ## The checksum -/

def generators : List ℕ := [0x3b6a57b2, 0x26508e6d, 0x1ea119fa, 0x3d4233dd, 0x2a1462b3]

/-- What the five bits that are shifted out put back. -/
def feedback (top : ℕ) : ℕ :=
  generators.zipIdx.foldl (fun acc g => if top.testBit g.2 then acc ^^^ g.1 else acc) 0

def step (chk v : ℕ) : ℕ := (chk &&& 0x1ffffff) <<< 5 ^^^ v ^^^ feedback (chk >>> 25)

def polymod (values : List ℕ) : ℕ := values.foldl step 1

def hrpExpand (hrp : List Char) : List ℕ :=
  hrp.map (fun c => c.toNat >>> 5) ++ 0 :: hrp.map fun c => c.toNat &&& 31

/-- What distinguishes Bech32m from Bech32. -/
def const : ℕ := 0x2bc830a3

def Verifies (hrp : List Char) (values : List ℕ) : Prop := polymod (hrpExpand hrp ++ values) = const

instance (hrp : List Char) (values : List ℕ) : Decidable (Verifies hrp values) :=
  inferInstanceAs (Decidable (_ = _))

def checksum (hrp : List Char) (data : List ℕ) : List ℕ :=
  digits 32 6 (polymod (hrpExpand hrp ++ data ++ List.replicate 6 0) ^^^ const)

theorem xor_cancel (a b g : ℕ) : a ^^^ g ^^^ (b ^^^ g) = a ^^^ b := by
  rw [Nat.xor_comm b g, Nat.xor_assoc, ← Nat.xor_assoc g g b, Nat.xor_self, Nat.zero_xor]

/-- Conditional additions are linear in the condition and in what they start from. -/
theorem foldl_xor (gs : List (ℕ × ℕ)) (s t a b : ℕ) :
    gs.foldl (fun acc g => if (s ^^^ t).testBit g.2 then acc ^^^ g.1 else acc) (a ^^^ b) =
      gs.foldl (fun acc g => if s.testBit g.2 then acc ^^^ g.1 else acc) a ^^^
        gs.foldl (fun acc g => if t.testBit g.2 then acc ^^^ g.1 else acc) b := by
  induction gs generalizing a b with
  | nil => rfl
  | cons g gs ih =>
      simp only [List.foldl_cons]
      rw [← ih]
      congr 1
      rw [Nat.testBit_xor]
      cases s.testBit g.2 <;> cases t.testBit g.2
      · rfl
      · exact Nat.xor_assoc a b g.1
      · show a ^^^ b ^^^ g.1 = a ^^^ g.1 ^^^ b
        ac_rfl
      · exact (xor_cancel a b g.1).symm

theorem feedback_xor (s t : ℕ) : feedback (s ^^^ t) = feedback s ^^^ feedback t :=
  foldl_xor generators.zipIdx s t 0 0

/-- What is started from stays, under the feedback. -/
theorem foldl_feedback (top x : ℕ) :
    generators.zipIdx.foldl (fun acc g => if top.testBit g.2 then acc ^^^ g.1 else acc) x =
      x ^^^ feedback top := by
  have hlinear := foldl_xor generators.zipIdx top 0 0 x
  have hnone : generators.zipIdx.foldl
      (fun acc g => if Nat.testBit 0 g.2 then acc ^^^ g.1 else acc) x = x := by
    simp [generators]
  rw [Nat.xor_zero, Nat.zero_xor, hnone, Nat.xor_comm] at hlinear
  exact hlinear

theorem step_xor (s t v w : ℕ) : step (s ^^^ t) (v ^^^ w) = step s v ^^^ step t w := by
  simp only [step, Nat.and_xor_distrib_right, Nat.shiftLeft_xor_distrib,
    Nat.shiftRight_xor_distrib, feedback_xor]
  ac_rfl

theorem shiftLeft_xor_of_lt (a : ℕ) {v : ℕ} (hv : v < 2 ^ 5) : a <<< 5 ^^^ v = a * 32 + v := by
  calc a <<< 5 ^^^ v = a <<< 5 ||| v := by
        apply Nat.eq_of_testBit_eq
        intro i
        rw [Nat.testBit_xor, Nat.testBit_or, Nat.testBit_shiftLeft]
        by_cases hi : 5 ≤ i
        · have hhigh : v.testBit i = false :=
            Nat.testBit_lt_two_pow (hv.trans_le (Nat.pow_le_pow_right (by decide) hi))
          simp [hhigh]
        · simp [hi]
    _ = a * 32 + v := by rw [← Nat.shiftLeft_add_eq_or_of_lt hv, Nat.shiftLeft_eq]

/-- While nothing is shifted out, a value is appended. -/
theorem step_small {d v : ℕ} (hd : d < 2 ^ 25) (hv : v < 32) : step d v = d * 32 + v := by
  have hlow : d &&& 0x1ffffff = d := by
    rw [show 0x1ffffff = 2 ^ 25 - 1 from rfl, Nat.and_two_pow_sub_one_eq_mod, Nat.mod_eq_of_lt hd]
  have htop : d >>> 25 = 0 := by
    rw [Nat.shiftRight_eq_div_pow, Nat.div_eq_of_lt hd]
  have hfeed : feedback 0 = 0 := by decide
  rw [step, hlow, htop, hfeed, Nat.xor_zero, shiftLeft_xor_of_lt d hv]

/-- Up to six values are seen as they are in what comes out. -/
theorem foldl_step_xor (s : ℕ) {vs : List ℕ} (hvs : ∀ v ∈ vs, v < 32) (hlen : vs.length ≤ 6) :
    vs.foldl step s = (List.replicate vs.length 0).foldl step s ^^^ value 32 vs := by
  induction vs using List.reverseRecOn with
  | nil => simp
  | append_singleton vs v ih =>
      have hlt : ∀ w ∈ vs, w < 32 := fun w hw => hvs w (List.mem_append_left _ hw)
      have hv : v < 32 := hvs v (List.mem_append_right _ List.mem_cons_self)
      rw [List.length_append, List.length_singleton] at hlen
      have hsmall : value 32 vs < 2 ^ 25 := by
        calc value 32 vs < 32 ^ vs.length := BitBuffer.value_lt (by decide) hlt
          _ ≤ 32 ^ 5 := Nat.pow_le_pow_right (by decide) (by omega)
          _ = 2 ^ 25 := by decide
      rw [List.foldl_append, ih hlt (by omega), List.foldl_cons, List.foldl_nil,
        List.length_append, List.length_singleton, List.replicate_succ', List.foldl_append,
        List.foldl_cons, List.foldl_nil, BitBuffer.value_concat, ← step_small hsmall hv, ← step_xor,
        Nat.zero_xor]

theorem foldl_lt {gs : List (ℕ × ℕ)} (hgs : ∀ g ∈ gs, g.1 < 2 ^ 30) (top : ℕ) {acc : ℕ}
    (hacc : acc < 2 ^ 30) :
    gs.foldl (fun acc g => if top.testBit g.2 then acc ^^^ g.1 else acc) acc < 2 ^ 30 := by
  induction gs generalizing acc with
  | nil => exact hacc
  | cons g gs ih =>
      rw [List.forall_mem_cons] at hgs
      have hnext : (if top.testBit g.2 then acc ^^^ g.1 else acc) < 2 ^ 30 := by
        split_ifs
        · exact Nat.xor_lt_two_pow hacc hgs.1
        · exact hacc
      exact ih hgs.2 hnext

theorem feedback_lt (top : ℕ) : feedback top < 2 ^ 30 :=
  foldl_lt (by decide) top (by decide)

theorem step_lt (chk : ℕ) {v : ℕ} (hv : v < 32) : step chk v < 2 ^ 30 := by
  have hshift : (chk &&& 0x1ffffff) <<< 5 < 2 ^ 30 := by
    have hlow : chk &&& 0x1ffffff < 2 ^ 25 := Nat.and_lt_two_pow chk (by decide)
    rw [Nat.shiftLeft_eq]
    omega
  exact Nat.xor_lt_two_pow (Nat.xor_lt_two_pow hshift (hv.trans (by decide))) (feedback_lt _)

theorem polymod_append (vs ws : List ℕ) : polymod (vs ++ ws) = ws.foldl step (polymod vs) :=
  List.foldl_append

/-- The checksum makes the values verify. -/
theorem verifies_checksum (hrp : List Char) (data : List ℕ) :
    Verifies hrp (data ++ checksum hrp data) := by
  have hzeros := polymod_append (hrpExpand hrp ++ data) (List.replicate 6 0)
  have hlt : polymod (hrpExpand hrp ++ data ++ List.replicate 6 0) < 2 ^ 30 := by
    rw [hzeros, List.replicate_succ', List.foldl_append]
    exact step_lt _ (by decide)
  have hvalue : value 32 (checksum hrp data) =
      polymod (hrpExpand hrp ++ data ++ List.replicate 6 0) ^^^ const := by
    rw [checksum, BitBuffer.value_digits]
    exact Nat.mod_eq_of_lt (Nat.xor_lt_two_pow hlt (by decide))
  have hlen : (checksum hrp data).length = 6 := BitBuffer.length_digits _ _ _
  have hfive : ∀ v ∈ checksum hrp data, v < 32 :=
    fun v hv => BitBuffer.lt_of_mem_digits (by decide) hv
  rw [Verifies, ← List.append_assoc, polymod_append, foldl_step_xor _ hfive hlen.le, hvalue, hlen,
    hzeros, ← Nat.xor_assoc, Nat.xor_self, Nat.zero_xor]

/-! ## Values for bytes -/

/-- The bits of the bytes, in groups of five; the last group is filled up with zeros. -/
def quintets (bytes : List UInt8) : List ℕ :=
  let len := (8 * bytes.length + 4) / 5
  digits 32 len (BigEndian.get bytes * 2 ^ (5 * len - 8 * bytes.length))

/-- The complete bytes. -/
def bytesOf (data : List ℕ) : List UInt8 :=
  BigEndian.put (5 * data.length / 8) (value 32 data / 2 ^ (5 * data.length % 8))

/-- The bits behind the last complete byte. -/
def padding (data : List ℕ) : ℕ := value 32 data % 2 ^ (5 * data.length % 8)

@[simp] theorem length_quintets (bytes : List UInt8) :
    (quintets bytes).length = (8 * bytes.length + 4) / 5 := BitBuffer.length_digits _ _ _

@[simp] theorem length_bytesOf (data : List ℕ) : (bytesOf data).length = 5 * data.length / 8 :=
  BigEndian.length_put _ _

theorem lt_of_mem_quintets {bytes : List UInt8} {v : ℕ} (h : v ∈ quintets bytes) : v < 32 :=
  BitBuffer.lt_of_mem_digits (by decide) h

theorem value_quintets (bytes : List UInt8) :
    value 32 (quintets bytes) =
      BigEndian.get bytes * 2 ^ (5 * ((8 * bytes.length + 4) / 5) - 8 * bytes.length) := by
  rw [quintets, BitBuffer.value_digits]
  apply Nat.mod_eq_of_lt
  set len := (8 * bytes.length + 4) / 5
  have hlen : 8 * bytes.length ≤ 5 * len := by omega
  calc BigEndian.get bytes * 2 ^ (5 * len - 8 * bytes.length)
    _ < 256 ^ bytes.length * 2 ^ (5 * len - 8 * bytes.length) :=
      Nat.mul_lt_mul_of_pos_right (BigEndian.get_lt bytes) (Nat.two_pow_pos _)
    _ = 2 ^ (8 * bytes.length) * 2 ^ (5 * len - 8 * bytes.length) := by
      rw [show 256 = 2 ^ 8 from rfl, ← Nat.pow_mul]
    _ = 2 ^ (5 * len) := by rw [← Nat.pow_add, Nat.add_sub_cancel' hlen]
    _ = 32 ^ len := by rw [show 32 = 2 ^ 5 from rfl, ← Nat.pow_mul]

/-- **Round trip of the bytes.** -/
theorem bytesOf_quintets (bytes : List UInt8) : bytesOf (quintets bytes) = bytes := by
  have hbytes : 5 * ((8 * bytes.length + 4) / 5) / 8 = bytes.length := by omega
  have hbits : 5 * ((8 * bytes.length + 4) / 5) % 8 =
      5 * ((8 * bytes.length + 4) / 5) - 8 * bytes.length := by omega
  rw [bytesOf, value_quintets, length_quintets, hbytes, hbits,
    Nat.mul_div_cancel _ (Nat.two_pow_pos _), BigEndian.put_get]

theorem padding_quintets (bytes : List UInt8) : padding (quintets bytes) = 0 := by
  have hbits : 5 * ((8 * bytes.length + 4) / 5) % 8 =
      5 * ((8 * bytes.length + 4) / 5) - 8 * bytes.length := by omega
  rw [padding, value_quintets, length_quintets, hbits, Nat.mul_mod_left]

theorem value_map_toNat (bytes : List UInt8) :
    value 256 (bytes.map UInt8.toNat) = BigEndian.get bytes := by
  induction bytes using List.reverseRecOn with
  | nil => rfl
  | append_singleton bytes b ih =>
      rw [List.map_append, List.map_singleton, BitBuffer.value_concat, ih, BigEndian.get_concat]

/-! ## Texts -/

def charset : List Char :=
  ['q', 'p', 'z', 'r', 'y', '9', 'x', '8', 'g', 'f', '2', 't', 'v', 'd', 'w', '0', 's', '3', 'j',
    'n', '5', '4', 'k', 'h', 'c', 'e', '6', 'm', 'u', 'a', '7', 'l']

def symbol (v : ℕ) : Char := charset.getD v 'q'

def lower (s : List Char) : List Char := s.map Char.toLower

def upper (s : List Char) : List Char := s.map Char.toUpper

/-- `s` is a text with the human-readable part `hrp`, in small letters, and these values, the
checksum among them. -/
structure Spells (s hrp : List Char) (values : List ℕ) : Prop where
  printable : ∀ c ∈ s, 33 ≤ c.toNat ∧ c.toNat ≤ 126
  one_case : lower s = s ∨ upper s = s
  text : lower s = hrp ++ '1' :: values.map symbol
  hrp_ne : hrp ≠ []
  length_le : s.length ≤ 90
  lt : ∀ v ∈ values, v < 32
  room : 6 ≤ values.length
  verifies : Verifies hrp values

def encode (hrp : List Char) (bytes : List UInt8) : List Char :=
  let data := quintets bytes
  hrp ++ '1' :: (data ++ checksum hrp data).map symbol

/-- What holds of every character for a value. -/
theorem symbol_spec {v : ℕ} (hv : v < 32) :
    charset.idxOf (symbol v) = v ∧ symbol v ≠ '1' ∧ (symbol v).toLower = symbol v ∧
      33 ≤ (symbol v).toNat ∧ (symbol v).toNat ≤ 126 := by
  have hall : ∀ w : Fin 32, charset.idxOf (symbol w) = w ∧ symbol w ≠ '1' ∧
      (symbol w).toLower = symbol w ∧ 33 ≤ (symbol w).toNat ∧ (symbol w).toNat ≤ 126 := by decide
  exact hall ⟨v, hv⟩

theorem symbol_idxOf {c : Char} (h : charset.idxOf c < 32) : symbol (charset.idxOf c) = c := by
  have hlen : charset.idxOf c < charset.length := h
  rw [symbol, List.getD_eq_getElem _ _ hlen, List.getElem_idxOf]

/-- A human-readable part in small letters. -/
def IsLower (hrp : List Char) : Prop :=
  hrp ≠ [] ∧ ∀ c ∈ hrp, 33 ≤ c.toNat ∧ c.toNat ≤ 126 ∧ c.toLower = c

instance (hrp : List Char) : Decidable (IsLower hrp) :=
  decidable_of_iff
    (hrp ≠ [] ∧ hrp.all fun c => 33 ≤ c.toNat ∧ c.toNat ≤ 126 ∧ c.toLower = c)
    (and_congr_right' List.all_iff_forall_prop)

/-- **What is encoded is a text**, in small letters. -/
theorem spells_encode {hrp : List Char} (hhrp : IsLower hrp) {bytes : List UInt8}
    (hlen : (encode hrp bytes).length ≤ 90) :
    lower (encode hrp bytes) = encode hrp bytes ∧
      Spells (encode hrp bytes) hrp (quintets bytes ++ checksum hrp (quintets bytes)) := by
  have hlt : ∀ v ∈ quintets bytes ++ checksum hrp (quintets bytes), v < 32 := by
    intro v hv
    rcases List.mem_append.mp hv with h | h
    · exact lt_of_mem_quintets h
    · exact BitBuffer.lt_of_mem_digits (by decide) h
  have hchars : ∀ c ∈ encode hrp bytes, 33 ≤ c.toNat ∧ c.toNat ≤ 126 ∧ c.toLower = c := by
    intro c hc
    rcases List.mem_append.mp hc with h | h
    · exact hhrp.2 c h
    · rcases List.mem_cons.mp h with rfl | h
      · decide
      · obtain ⟨v, hv, rfl⟩ := List.mem_map.mp h
        obtain ⟨-, -, hlower, h33, h126⟩ := symbol_spec (hlt v hv)
        exact ⟨h33, h126, hlower⟩
  have hlower : lower (encode hrp bytes) = encode hrp bytes :=
    (List.map_congr_left fun c hc => (hchars c hc).2.2).trans (List.map_id' _)
  refine ⟨hlower, ?_⟩
  constructor
  · exact fun c hc => ⟨(hchars c hc).1, (hchars c hc).2.1⟩
  · exact Or.inl hlower
  · exact hlower
  · exact hhrp.1
  · exact hlen
  · exact hlt
  · rw [List.length_append, checksum, BitBuffer.length_digits]
    omega
  · exact verifies_checksum hrp _

/-! ## Reading a text -/

/-- The human-readable part is what stands before the last `1`. -/
def decode (s : List Char) : Option (List Char × List ℕ) :=
  let t := lower s
  let hrp := (t.rdropWhile (· ≠ '1')).dropLast
  let values := (t.rtakeWhile (· ≠ '1')).map charset.idxOf
  if (s.all fun c => 33 ≤ c.toNat ∧ c.toNat ≤ 126) ∧ (lower s = s ∨ upper s = s) ∧ '1' ∈ t ∧
      hrp ≠ [] ∧ s.length ≤ 90 ∧ (∀ v ∈ values, v < 32) ∧ 6 ≤ values.length ∧
      Verifies hrp values then
    some (hrp, values)
  else none

section

variable {s hrp : List Char} {values : List ℕ}

/-- The characters that stand for values. -/
theorem map_symbol_eq_iff {text : List Char} :
    (∀ v ∈ values, v < 32) ∧ text = values.map symbol ↔
      text.map charset.idxOf = values ∧ ∀ v ∈ values, v < 32 := by
  constructor
  · rintro ⟨hlt, rfl⟩
    refine ⟨?_, hlt⟩
    rw [List.map_map]
    calc values.map (charset.idxOf ∘ symbol)
      _ = values.map id := List.map_congr_left fun v hv => (symbol_spec (hlt v hv)).1
      _ = values := List.map_id values
  · rintro ⟨rfl, hlt⟩
    refine ⟨hlt, ?_⟩
    rw [List.map_map]
    calc text
      _ = text.map id := (List.map_id text).symm
      _ = text.map (symbol ∘ charset.idxOf) :=
        List.map_congr_left fun c hc => (symbol_idxOf (hlt _ (List.mem_map_of_mem hc))).symm

/-- The values say that their characters have no `1`. -/
theorem one_not_mem_map_symbol (h : ∀ v ∈ values, v < 32) : '1' ∉ values.map symbol := by
  intro hmem
  obtain ⟨v, hv, h1⟩ := List.mem_map.mp hmem
  exact (symbol_spec (h v hv)).2.1 h1

theorem split_last {a b : List Char} (hb : '1' ∉ b) :
    (a ++ '1' :: b).rdropWhile (· ≠ '1') = a ++ ['1'] ∧
      (a ++ '1' :: b).rtakeWhile (· ≠ '1') = b := by
  have hall : ∀ c ∈ b, (decide (c ≠ '1')) = true := by
    intro c hc
    rw [decide_eq_true_eq]
    rintro rfl
    exact hb hc
  have hsplit : a ++ '1' :: b = a ++ ['1'] ++ b := List.append_cons a '1' b
  have hdrop : (a ++ '1' :: b).rdropWhile (· ≠ '1') = a ++ ['1'] := by
    rw [hsplit, Trim.rdropWhile_append_of_all hall, List.rdropWhile_concat_neg]
    simp
  refine ⟨hdrop, ?_⟩
  have happ := List.rdropWhile_append_rtakeWhile (p := (· ≠ '1')) (l := a ++ '1' :: b)
  rw [hdrop, hsplit] at happ
  rw [hsplit]
  exact List.append_cancel_left happ

theorem exists_split_last {t : List Char} (h : '1' ∈ t) :
    t = (t.rdropWhile (· ≠ '1')).dropLast ++ '1' :: t.rtakeWhile (· ≠ '1') := by
  have hne : t.rdropWhile (· ≠ '1') ≠ [] := by
    intro hnil
    have hall := List.rdropWhile_eq_nil_iff.mp hnil '1' h
    simp at hall
  have hlast : (t.rdropWhile (· ≠ '1')).getLast hne = '1' := by
    have hnot := List.rdropWhile_last_not (· ≠ '1') t hne
    simpa using hnot
  have hconcat := List.dropLast_append_getLast hne
  rw [hlast] at hconcat
  rw [List.append_cons, hconcat, List.rdropWhile_append_rtakeWhile]

theorem decode_eq_some_iff : decode s = some (hrp, values) ↔ Spells s hrp values := by
  unfold decode
  dsimp only
  constructor
  · intro h
    split_ifs at h with hs
    obtain ⟨hprint, hcase, hone, hne, hlen, hlt, hroom, hverify⟩ := hs
    obtain ⟨rfl, hvalues⟩ := Prod.mk.inj (Option.some.inj h)
    rw [hvalues] at hlt hroom hverify
    have hsym := (map_symbol_eq_iff.mpr ⟨hvalues, hlt⟩).2
    refine ⟨List.all_iff_forall_prop.mp hprint, hcase, ?_, hne, hlen, hlt, hroom, hverify⟩
    rw [← hsym]
    exact exists_split_last hone
  · rintro ⟨hprint, hcase, htext, hne, hlen, hlt, hroom, hverify⟩
    obtain ⟨hdrop, htake⟩ := split_last (a := hrp) (one_not_mem_map_symbol hlt)
    have hhrp : ((lower s).rdropWhile (· ≠ '1')).dropLast = hrp := by
      rw [htext, hdrop, List.dropLast_concat]
    have hvalues : ((lower s).rtakeWhile (· ≠ '1')).map charset.idxOf = values := by
      rw [htext, htake]
      exact (map_symbol_eq_iff.mp ⟨hlt, rfl⟩).1
    have hone : '1' ∈ lower s := by
      rw [htext]
      exact List.mem_append_right hrp List.mem_cons_self
    rw [hhrp, hvalues,
      if_pos ⟨List.all_iff_forall_prop.mpr hprint, hcase, hone, hne, hlen, hlt, hroom, hverify⟩]

/-- A text is read in one way. -/
theorem Spells.unique {hrp' : List Char} {values' : List ℕ} (h : Spells s hrp values)
    (h' : Spells s hrp' values') : hrp' = hrp ∧ values' = values := by
  rw [← decode_eq_some_iff] at h h'
  exact Prod.mk.inj (Option.some.inj (h'.symm.trans h))

end

end Bech32
