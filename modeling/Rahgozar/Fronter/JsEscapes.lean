import Mathlib.Data.Bool.AllAny
import Rahgozar.Fronter.Envelope
import Rahgozar.Fronter.HttpText
import Rahgozar.Fronter.ResponseExact
import Rahgozar.Lib.Traverse

set_option autoImplicit false

/-! # String literals of JavaScript and their decoder (`decode_js_string_escapes`)

A string literal spells each character of its string in one of several ways. The decoder goes
through the bytes of the literal: it reads the escapes of one unit, and a byte that is in no escape
becomes a character by itself.
-/

namespace Rahgozar.Fronter.Envelope

open Drive (utf8 utf8_cases)
open Http (SpellsHex Fault fromUtf8_utf8 hexDigit_bounds slice_middle utf8_append utf8_cons)
open Proxy.Mitm (fromUtf8 fromStrRadix16 hexDigit)

/-! ## Spellings -/

/-- The code units of a character in UTF-16. -/
def utf16 (c : Char) : List Nat :=
  if c.toNat < 0x10000 then [c.toNat]
  else [0xd800 + (c.toNat - 0x10000) / 0x400, 0xdc00 + (c.toNat - 0x10000) % 0x400]

def lineTerminators : List Char := ['\n', '\r', Char.ofNat 0x2028, Char.ofNat 0x2029]

/-- The character that `\` and `e` stand for in a string literal. `\x`, `\u` and the digits begin
other escapes, and a line terminator continues the literal on the next line. -/
def shortEscape (e : Char) : Option Char :=
  if e = 'b' then some (Char.ofNat 8)
  else if e = 't' then some '\t'
  else if e = 'n' then some '\n'
  else if e = 'v' then some (Char.ofNat 11)
  else if e = 'f' then some (Char.ofNat 12)
  else if e = 'r' then some '\r'
  else if e = '0' then some (Char.ofNat 0)
  else if e ∈ "xu123456789".toList ∨ e ∈ lineTerminators then none
  else some e

/-- How a character is spelled. -/
inductive Spelling where
  | raw
  | hex (digits : List Char)
  | unicode (units : List (List Char))
  | short (e : Char)
deriving DecidableEq

namespace Spelling

/-- What stands in the literal for the character `c`. -/
def text (c : Char) : Spelling → List Char
  | raw => [c]
  | hex digits => '\\' :: 'x' :: digits
  | unicode units => units.flatMap fun digits => '\\' :: 'u' :: digits
  | short e => ['\\', e]

/-- The spelling is one of `c`, in a literal that ends with `quote`. -/
def Spells (quote c : Char) : Spelling → Prop
  | raw => c ≠ quote ∧ c ≠ '\\' ∧ c ∉ lineTerminators
  | hex digits => digits.length = 2 ∧ ∃ values, SpellsHex digits values c.toNat
  | unicode units =>
      List.Forall₂ (fun digits unit => digits.length = 4 ∧ ∃ values, SpellsHex digits values unit)
        units (utf16 c)
  | short e => shortEscape e = some c

/-- The decoder takes the spelling, where it is an escape. -/
def IsTaken (c : Char) : Spelling → Prop
  | raw => True
  | hex _ => True
  | unicode _ => c.toNat < 0x10000
  | short e => e ∈ "\\\"'/nrtbf".toList

instance (c : Char) (p : Spelling) : Decidable (p.IsTaken c) := by
  cases p <;> unfold IsTaken <;> infer_instance

/-- What the decoder makes of the spelling. -/
def read (c : Char) (p : Spelling) : Option (List Char) :=
  match p with
  | raw => some ((String.utf8EncodeChar c).map fun b => Char.ofNat b.toNat)
  | _ => if p.IsTaken c then some [c] else none

end Spelling

/-- Each character of a string with its spelling. -/
abbrev Literal := List (Char × Spelling)

namespace Literal

def value (l : Literal) : List Char := l.map Prod.fst

def text (l : Literal) : List Char := l.flatMap fun p => p.2.text p.1

/-- What the decoder makes of the spellings. -/
def read (l : Literal) : Option (List (List Char)) := l.mapM fun p => p.2.read p.1

def Valid (quote : Char) (l : Literal) : Prop := ∀ p ∈ l, p.2.Spells quote p.1

end Literal

/-! ## One spelling -/

section

variable {fuel : Nat} {rest : List UInt8} {out : List Char} {quote c : Char} {digits : List Char}
  {values : List Nat} {n : Nat}

/-! ### The steps of the loop -/

theorem decodeJsEscapes_cons (b : UInt8) (more : List UInt8) :
    decodeJsEscapes (fuel + 1) (b :: more) out =
      if b ≠ 92 then decodeJsEscapes fuel more (out ++ [Char.ofNat b.toNat])
      else
        match more with
        | [] => .ok none
        | esc :: after =>
            if esc = 120 then
              match hexEscape 2 (b :: more) with
              | .error e => .error e
              | .ok none => .ok none
              | .ok (some ch) => decodeJsEscapes fuel (after.drop 2) (out ++ [ch])
            else if esc = 117 then
              match hexEscape 4 (b :: more) with
              | .error e => .error e
              | .ok none => .ok none
              | .ok (some ch) => decodeJsEscapes fuel (after.drop 4) (out ++ [ch])
            else
              match plainEscape esc with
              | none => .ok none
              | some ch => decodeJsEscapes fuel after (out ++ [ch]) :=
  rfl

theorem decodeJsEscapes_byte {b : UInt8} (hb : b ≠ 92) :
    decodeJsEscapes (fuel + 1) (b :: rest) out =
      decodeJsEscapes fuel rest (out ++ [Char.ofNat b.toNat]) := by
  rw [decodeJsEscapes_cons]
  exact if_pos hb

theorem decodeJsEscapes_hex {after : List UInt8} {ch : Option Char}
    (h : hexEscape 2 (92 :: 120 :: after) = .ok ch) :
    decodeJsEscapes (fuel + 1) (92 :: 120 :: after) out =
      ch.elim (.ok none) fun ch => decodeJsEscapes fuel (after.drop 2) (out ++ [ch]) := by
  rw [decodeJsEscapes_cons]
  simp only [ne_eq, not_true_eq_false, if_false, if_true, h]
  cases ch <;> rfl

theorem decodeJsEscapes_unicode {after : List UInt8} {ch : Option Char}
    (h : hexEscape 4 (92 :: 117 :: after) = .ok ch) :
    decodeJsEscapes (fuel + 1) (92 :: 117 :: after) out =
      ch.elim (.ok none) fun ch => decodeJsEscapes fuel (after.drop 4) (out ++ [ch]) := by
  have hx : (117 : UInt8) ≠ 120 := by decide
  rw [decodeJsEscapes_cons]
  simp only [ne_eq, not_true_eq_false, hx, if_false, if_true, h]
  cases ch <;> rfl

theorem decodeJsEscapes_plain {esc : UInt8} {after : List UInt8} (hx : esc ≠ 120)
    (hu : esc ≠ 117) :
    decodeJsEscapes (fuel + 1) (92 :: esc :: after) out =
      (plainEscape esc).elim (.ok none) fun ch => decodeJsEscapes fuel after (out ++ [ch]) := by
  rw [decodeJsEscapes_cons]
  simp only [ne_eq, not_true_eq_false, hx, hu, if_false]
  cases plainEscape esc <;> rfl

/-- Bytes outside the escapes become characters. -/
theorem decodeJsEscapes_bytes (bytes : List UInt8) (hbytes : (92 : UInt8) ∉ bytes)
    (hfuel : (bytes ++ rest).length < fuel) (out : List Char) :
    ∃ fuel', rest.length < fuel' ∧ decodeJsEscapes fuel (bytes ++ rest) out =
      decodeJsEscapes fuel' rest (out ++ bytes.map fun b => Char.ofNat b.toNat) := by
  induction bytes generalizing fuel out with
  | nil => exact ⟨fuel, hfuel, by simp⟩
  | cons b bytes ih =>
      obtain ⟨hb, hbytes⟩ := not_or.mp (List.mem_cons.not.mp hbytes)
      cases fuel with
      | zero => exact absurd hfuel (by simp)
      | succ fuel =>
          have hfuel₀ : (bytes ++ rest).length < fuel := by simpa using hfuel
          obtain ⟨fuel', hfuel', heq⟩ := ih hbytes hfuel₀ (out ++ [Char.ofNat b.toNat])
          refine ⟨fuel', hfuel', ?_⟩
          rw [List.cons_append, decodeJsEscapes_byte (Ne.symm hb), heq, List.append_assoc]
          rfl

theorem backslash_notMem_encode (h : c ≠ '\\') : (92 : UInt8) ∉ String.utf8EncodeChar c := by
  intro hmem
  rcases Http.encode_byte hmem with hhigh | hc
  · exact absurd hhigh (by decide)
  · exact h hc.symm

/-! ### Hexadecimal escapes -/

theorem utf8_cons_ascii {c : Char} (h : c.toNat < 128) (l : List Char) :
    utf8 (c :: l) = UInt8.ofNat c.toNat :: utf8 l := by
  rcases utf8_cases c with ⟨-, henc⟩ | ⟨hge, -⟩
  · rw [utf8_cons, henc, List.singleton_append]
  · exact absurd h hge

/-- Hexadecimal digits are bytes of their own. -/
theorem length_utf8_digits (h : SpellsHex digits values n) : (utf8 digits).length = digits.length := by
  have hall : ∀ c ∈ digits, c.toNat < 128 := by
    intro c hc
    have := hexDigit_bounds (h.isSome hc)
    omega
  clear h
  induction digits with
  | nil => rfl
  | cons c digits ih =>
      rw [utf8_cons_ascii (hall c List.mem_cons_self), List.length_cons, List.length_cons,
        ih fun d hd => hall d (List.mem_cons_of_mem c hd)]

theorem hexEscape_eq (h : SpellsHex digits values n) (hn : n < 2 ^ 64) (a b : UInt8)
    (rest : List UInt8) :
    hexEscape digits.length (a :: b :: (utf8 digits ++ rest)) =
      .ok (if n.isValidChar then some (Char.ofNat n) else none) := by
  have hlength := length_utf8_digits h
  have hlong : ¬ (a :: b :: (utf8 digits ++ rest)).length ≤ digits.length + 1 := by
    simp only [List.length_cons, List.length_append, hlength]
    omega
  have hslice := slice_middle [a, b] (utf8 digits) rest
  rw [hlength] at hslice
  unfold hexEscape
  rw [if_neg hlong]
  simp only [List.cons_append, List.nil_append, List.length_cons, List.length_nil] at hslice
  rw [hslice]
  simp only [fromUtf8_utf8, Option.bind_some, h.fromStrRadix16_eq hn]

theorem isValidChar_toNat (c : Char) : c.toNat.isValidChar := c.valid

theorem toNat_lt (c : Char) : c.toNat < 2 ^ 64 := by
  have := c.val.toNat_lt
  have hc : c.toNat = c.val.toNat := rfl
  omega

theorem drop_digits (h : SpellsHex digits values n) (rest : List UInt8) :
    (utf8 digits ++ rest).drop digits.length = rest :=
  List.drop_left' (length_utf8_digits h)

theorem decode_hex (h : SpellsHex digits values c.toNat) (hlength : digits.length = 2) :
    decodeJsEscapes (fuel + 1) (utf8 ('\\' :: 'x' :: digits) ++ rest) out =
      decodeJsEscapes fuel rest (out ++ [c]) := by
  have hescape := hexEscape_eq h (toNat_lt c) 92 120 rest
  rw [hlength, if_pos (isValidChar_toNat c), Char.ofNat_toNat] at hescape
  have hdrop := drop_digits h rest
  rw [hlength] at hdrop
  rw [utf8_cons_ascii (by decide), utf8_cons_ascii (by decide)]
  refine (decodeJsEscapes_hex hescape).trans ?_
  rw [Option.elim_some, hdrop]

theorem decode_unit (h : SpellsHex digits values n) (hn : n < 2 ^ 64)
    (hlength : digits.length = 4) :
    decodeJsEscapes (fuel + 1) (utf8 ('\\' :: 'u' :: digits) ++ rest) out =
      if n.isValidChar then decodeJsEscapes fuel rest (out ++ [Char.ofNat n]) else .ok none := by
  have hescape := hexEscape_eq h hn 92 117 rest
  have hdrop := drop_digits h rest
  rw [hlength] at hescape hdrop
  rw [utf8_cons_ascii (by decide), utf8_cons_ascii (by decide)]
  refine (decodeJsEscapes_unicode hescape).trans ?_
  rw [hdrop]
  split_ifs <;> rfl

/-- The first unit of a surrogate pair is no character. -/
theorem not_isValidChar_high (h : ¬ c.toNat < 0x10000) :
    ¬ (0xd800 + (c.toNat - 0x10000) / 0x400).isValidChar := by
  have hvalid := c.valid
  have hc : c.toNat = c.val.toNat := rfl
  simp only [UInt32.isValidChar, Nat.isValidChar] at *
  omega

theorem decode_unicode {units : List (List Char)} (h : (Spelling.unicode units).Spells quote c)
    (fuel : Nat) (rest : List UInt8) (out : List Char) :
    decodeJsEscapes (fuel + 1) (utf8 ((Spelling.unicode units).text c) ++ rest) out =
      if c.toNat < 0x10000 then decodeJsEscapes fuel rest (out ++ [c]) else .ok none := by
  unfold Spelling.Spells utf16 at h
  split_ifs at h ⊢ with hsmall
  · obtain ⟨digits, units', ⟨hlength, values, hdigits⟩, hrest, rfl⟩ := List.forall₂_cons_right_iff.mp h
    rw [List.forall₂_nil_right_iff.mp hrest]
    simp only [Spelling.text, List.flatMap_cons, List.flatMap_nil, List.append_nil]
    rw [decode_unit hdigits (toNat_lt c) hlength, if_pos (isValidChar_toNat c), Char.ofNat_toNat]
  · obtain ⟨digits, units', ⟨hlength, values, hdigits⟩, hrest, rfl⟩ := List.forall₂_cons_right_iff.mp h
    have hbound : 0xd800 + (c.toNat - 0x10000) / 0x400 < 2 ^ 64 := by
      have := toNat_lt c
      omega
    simp only [Spelling.text, List.flatMap_cons, utf8_append, List.append_assoc]
    rw [decode_unit hdigits hbound hlength, if_neg (not_isValidChar_high hsmall)]

/-! ### Short escapes -/

theorem plainEscape_of_high {b : UInt8} (h : 128 ≤ b.toNat) : plainEscape b = none := by
  have hne : ∀ k : UInt8, k.toNat < 128 → b ≠ k := by
    rintro k hk rfl
    omega
  simp [plainEscape, hne]

theorem plainEscape_ascii : ∀ n < 128, Char.ofNat n ∉ "\\\"'/nrtbf".toList →
    plainEscape (UInt8.ofNat n) = none := by
  decide

theorem plainEscape_taken {e : Char} (he : e ∈ "\\\"'/nrtbf".toList) :
    plainEscape (UInt8.ofNat e.toNat) = shortEscape e := by
  have hall : ∀ e ∈ "\\\"'/nrtbf".toList,
      plainEscape (UInt8.ofNat e.toNat) = shortEscape e :=
    List.all_iff_forall_prop.mp (by decide)
  exact hall e he

theorem decode_short {e : Char} (h : shortEscape e = some c) (fuel : Nat) (rest : List UInt8)
    (out : List Char) :
    decodeJsEscapes (fuel + 1) (utf8 ['\\', e] ++ rest) out =
      if e ∈ "\\\"'/nrtbf".toList then decodeJsEscapes fuel rest (out ++ [c]) else .ok none := by
  have hx : e ≠ 'x' ∧ e ≠ 'u' := by
    have hnone : shortEscape 'x' = none ∧ shortEscape 'u' = none := by decide
    constructor
    all_goals
      rintro rfl
      simp [hnone] at h
  rw [utf8_cons_ascii (by decide)]
  rcases utf8_cases e with ⟨hlow, henc⟩ | ⟨hhigh, b, more, henc, hb⟩
  · have hbyte : ∀ d : Char, d.toNat < 128 → e ≠ d → UInt8.ofNat e.toNat ≠ UInt8.ofNat d.toNat := by
      intro d hd hne heq
      have := congrArg UInt8.toNat heq
      rw [UInt8.toNat_ofNat_of_lt' (hlow.trans (by decide)),
        UInt8.toNat_ofNat_of_lt' (hd.trans (by decide))] at this
      exact hne (Char.toNat_inj.mp this)
    rw [utf8_cons_ascii hlow]
    refine (decodeJsEscapes_plain (hbyte 'x' (by decide) hx.1) (hbyte 'u' (by decide) hx.2)).trans ?_
    split_ifs with htaken
    · rw [plainEscape_taken htaken, h]
      rfl
    · rw [plainEscape_ascii e.toNat hlow (by rwa [Char.ofNat_toNat])]
      rfl
  · have hne : ∀ k : UInt8, k.toNat < 128 → b ≠ k := by
      rintro k hk rfl
      omega
    have htaken : e ∉ "\\\"'/nrtbf".toList := by
      intro hmem
      have hascii : ∀ d ∈ "\\\"'/nrtbf".toList, d.toNat < 128 :=
        List.all_iff_forall_prop.mp (by decide)
      exact hhigh (hascii e hmem)
    rw [utf8_cons, henc, if_neg htaken]
    refine (decodeJsEscapes_plain (hne 120 (by decide)) (hne 117 (by decide))).trans ?_
    rw [plainEscape_of_high hb]
    rfl

/-! ### Any spelling -/

theorem Spelling.text_ne_nil {p : Spelling} (hp : p.Spells quote c) : p.text c ≠ [] := by
  cases p with
  | unicode units =>
      cases units with
      | nil =>
          have hlength := hp.length_eq
          unfold utf16 at hlength
          split_ifs at hlength
      | cons digits units => simp [Spelling.text]
  | _ => simp [Spelling.text]

theorem length_utf8_pos {l : List Char} (h : l ≠ []) : 0 < (utf8 l).length := by
  obtain ⟨c, l, rfl⟩ := List.exists_cons_of_ne_nil h
  rw [utf8_cons, List.length_append, String.length_utf8EncodeChar]
  exact Nat.add_pos_left c.utf8Size_pos _

/-- The decoder goes on behind a spelling with what it has read, or gives up. -/
theorem decode_spelling {p : Spelling} (hp : p.Spells quote c)
    (hfuel : (utf8 (p.text c) ++ rest).length < fuel) (out : List Char) :
    (p.read c = none ∧ decodeJsEscapes fuel (utf8 (p.text c) ++ rest) out = .ok none) ∨
    ∃ cs fuel', p.read c = some cs ∧ rest.length < fuel' ∧
      decodeJsEscapes fuel (utf8 (p.text c) ++ rest) out = decodeJsEscapes fuel' rest (out ++ cs) := by
  cases fuel with
  | zero => exact absurd hfuel (by simp)
  | succ fuel =>
      have hrest : rest.length < fuel := by
        have hpos := length_utf8_pos (p.text_ne_nil hp)
        rw [List.length_append] at hfuel
        omega
      cases p with
      | raw =>
          have htext : utf8 (Spelling.raw.text c) = String.utf8EncodeChar c := by
            simp [Spelling.text, utf8]
          rw [htext] at hfuel ⊢
          obtain ⟨fuel', hfuel', heq⟩ := decodeJsEscapes_bytes _ (backslash_notMem_encode hp.2.1)
            hfuel out
          exact .inr ⟨_, fuel', rfl, hfuel', heq⟩
      | hex digits =>
          obtain ⟨hlength, values, hdigits⟩ := hp
          exact .inr ⟨[c], fuel, rfl, hrest, decode_hex hdigits hlength⟩
      | unicode units =>
          have hdecode := decode_unicode hp fuel rest out
          by_cases hsmall : c.toNat < 0x10000
          · exact .inr ⟨[c], fuel, if_pos hsmall, hrest, hdecode.trans (if_pos hsmall)⟩
          · exact .inl ⟨if_neg hsmall, hdecode.trans (if_neg hsmall)⟩
      | short e =>
          have hdecode := decode_short hp fuel rest out
          by_cases htaken : e ∈ "\\\"'/nrtbf".toList
          · exact .inr ⟨[c], fuel, if_pos htaken, hrest, hdecode.trans (if_pos htaken)⟩
          · exact .inl ⟨if_neg htaken, hdecode.trans (if_neg htaken)⟩

/-- What the decoder makes of a literal, spelling by spelling. -/
theorem decode_literal {l : Literal} (hl : l.Valid quote) (hfuel : (utf8 l.text).length < fuel)
    (out : List Char) :
    decodeJsEscapes fuel (utf8 l.text) out = .ok (l.read.map fun css => out ++ css.flatten) := by
  induction l generalizing fuel out with
  | nil =>
      cases fuel with
      | zero => exact absurd hfuel (by simp)
      | succ fuel => simp [Literal.text, Literal.read, utf8, decodeJsEscapes]
  | cons p l ih =>
      have htext : utf8 (Literal.text (p :: l)) = utf8 (p.2.text p.1) ++ utf8 (Literal.text l) := by
        rw [← utf8_append]
        rfl
      have hvalid : Literal.Valid quote l := fun q hq => hl q (List.mem_cons_of_mem p hq)
      rw [htext] at hfuel ⊢
      rw [Literal.read, List.mapM_cons, ← Literal.read]
      rcases decode_spelling (hl p List.mem_cons_self) hfuel out with
        ⟨hread, heq⟩ | ⟨cs, fuel', hread, hfuel', heq⟩
      · rw [heq, hread]
        rfl
      · rw [heq, ih hvalid hfuel', hread]
        simp only [Option.pure_def, Option.bind_eq_bind, Option.bind_some]
        cases Literal.read l with
        | none => rfl
        | some css => simp

/-! ## Literals -/

theorem decodeJsStringEscapes_text {l : Literal} (hl : l.Valid quote) :
    decodeJsStringEscapes l.text = .ok (l.read.map List.flatten) :=
  decode_literal hl (Nat.lt_succ_self _) []

theorem Spelling.read_of_ascii {p : Spelling} (hraw : p = raw → c.toNat < 128) :
    p.read c = if p.IsTaken c then some [c] else none := by
  cases p with
  | raw =>
      rcases utf8_cases c with ⟨hlow, henc⟩ | ⟨hhigh, -⟩
      · have hc : Char.ofNat (UInt8.ofNat c.toNat).toNat = c := by
          rw [UInt8.toNat_ofNat_of_lt' (hlow.trans (by decide)), Char.ofNat_toNat]
        simp only [Spelling.read, Spelling.IsTaken, henc, List.map_cons, List.map_nil, hc]
        exact (if_pos trivial).symm
      · exact absurd (hraw rfl) hhigh
  | _ => rfl

theorem Literal.read_of_ascii {l : Literal} (hraw : ∀ p ∈ l, p.2 = .raw → p.1.toNat < 128) :
    l.read.map List.flatten = if ∀ p ∈ l, p.2.IsTaken p.1 then some l.value else none := by
  have hread : ∀ p ∈ l, p.2.read p.1 = if p.2.IsTaken p.1 then some [p.1] else none :=
    fun p hp => p.2.read_of_ascii (hraw p hp)
  split_ifs with htaken
  · have hall : l.read = some (l.map fun p => [p.1]) :=
      Traverse.mapM_eq_some_map fun p hp => (hread p hp).trans (if_pos (htaken p hp))
    rw [hall, Option.map_some, ← List.flatMap_def, Literal.value, List.map_eq_flatMap]
  · obtain ⟨p, hp, hnot⟩ : ∃ p ∈ l, ¬ p.2.IsTaken p.1 := by
      simpa only [not_forall, exists_prop] using htaken
    have hnone : l.read = none :=
      Traverse.mapM_eq_none hp ((hread p hp).trans (if_neg hnot))
    rw [hnone, Option.map_none]

/-- **The decoder undoes the escapes that it takes.** It gives up on the other short escapes and on
surrogate pairs. -/
theorem decode_js_string_escapes_of_ascii {l : Literal} (hl : l.Valid quote)
    (hraw : ∀ p ∈ l, p.2 = .raw → p.1.toNat < 128) :
    decodeJsStringEscapes l.text =
      .ok (if ∀ p ∈ l, p.2.IsTaken p.1 then some l.value else none) := by
  rw [decodeJsStringEscapes_text hl, Literal.read_of_ascii hraw]

theorem Spelling.isTaken_of_read {p : Spelling} {cs : List Char} (h : p.read c = some cs) :
    p.IsTaken c ∧ 1 ≤ cs.length ∧ (cs.length = 1 → p = raw → c.toNat < 128) := by
  cases p with
  | raw =>
      have hlength : cs.length = c.utf8Size := by
        rw [← Option.some.inj h, List.length_map, String.length_utf8EncodeChar]
      refine ⟨trivial, hlength ▸ c.utf8Size_pos, fun hone _ => ?_⟩
      have hle := UInt32.le_iff_toNat_le.mp (Char.utf8Size_eq_one_iff.mp (hlength.symm.trans hone))
      exact Nat.lt_succ_of_le hle
  | _ =>
      unfold Spelling.read at h
      split_ifs at h with htaken
      rw [← Option.some.inj h]
      exact ⟨htaken, le_rfl, by simp⟩

/-- Every spelling comes out as at least one character. -/
theorem length_le_of_read {l : Literal} {css : List (List Char)}
    (h : List.Forall₂ (fun p cs => p.2.read p.1 = some cs) l css) :
    l.length ≤ css.flatten.length ∧ (css.flatten.length = l.length →
      ∀ p ∈ l, p.2.IsTaken p.1 ∧ (p.2 = .raw → p.1.toNat < 128)) := by
  induction h with
  | nil => simp
  | @cons p cs l css hfirst _ ih =>
      obtain ⟨htaken, hpos, hone⟩ := Spelling.isTaken_of_read hfirst
      rw [List.flatten_cons, List.length_append, List.length_cons]
      refine ⟨by omega, fun hlength q hq => ?_⟩
      rcases List.mem_cons.mp hq with rfl | hq
      · exact ⟨htaken, hone (by omega)⟩
      · exact ih.2 (by omega) q hq

/-- A raw character comes out as its bytes, so a string is read as it is exactly if the raw
characters are ASCII and the escapes are taken. -/
theorem decode_eq_value_iff {l : Literal} (hl : l.Valid quote) :
    decodeJsStringEscapes l.text = .ok (some l.value) ↔
      ∀ p ∈ l, p.2.IsTaken p.1 ∧ (p.2 = .raw → p.1.toNat < 128) := by
  constructor
  · intro h
    rw [decodeJsStringEscapes_text hl, Except.ok.injEq, Option.map_eq_some_iff] at h
    obtain ⟨css, hread, hvalue⟩ := h
    refine (length_le_of_read (Traverse.mapM_eq_some.mp hread)).2 ?_
    rw [hvalue, Literal.value, List.length_map]
  · intro h
    rw [decodeJsStringEscapes_text hl, Literal.read_of_ascii fun p hp => (h p hp).2,
      if_pos fun p hp => (h p hp).1]

end

/-- A literal with each kind of spelling. -/
def mixedLiteral : Literal :=
  [('a', .raw), ('=', .hex ['3', 'D']), ('é', .unicode [['0', '0', 'e', '9']]), ('/', .short '/')]

theorem mixedLiteral_valid : mixedLiteral.Valid '"' := by
  intro p hp
  simp only [mixedLiteral, List.mem_cons, List.not_mem_nil, or_false] at hp
  rcases hp with rfl | rfl | rfl | rfl
  · exact ⟨by decide, by decide, by decide⟩
  · exact ⟨rfl, [3, 13], by decide, by decide, rfl⟩
  · exact .cons ⟨rfl, [0, 0, 14, 9], by decide, by decide, rfl⟩ .nil
  · exact (by decide : shortEscape '/' = some '/')

theorem decode_js_string_escapes_of_ascii_mixed :
    decodeJsStringEscapes mixedLiteral.text = .ok (some ['a', '=', 'é', '/']) :=
  (decode_js_string_escapes_of_ascii mixedLiteral_valid (by decide)).trans
    (congrArg Except.ok (if_pos (by decide)))

theorem decode_eq_value_mixed :
    decodeJsStringEscapes mixedLiteral.text = .ok (some mixedLiteral.value) :=
  (decode_eq_value_iff mixedLiteral_valid).mpr (by decide)

/-- A character beyond the first plane, by the escapes of its two units. -/
def pairLiteral : Literal :=
  [(Char.ofNat 0x1f600, .unicode [['d', '8', '3', 'd'], ['d', 'e', '0', '0']])]

theorem pairLiteral_valid : pairLiteral.Valid '"' := by
  intro p hp
  rw [List.mem_singleton.mp hp]
  exact .cons ⟨rfl, [13, 8, 3, 13], by decide, by decide, by decide⟩
    (.cons ⟨rfl, [13, 14, 0, 0], by decide, by decide, by decide⟩ .nil)

theorem surrogate_pair_not_decoded :
    pairLiteral.Valid '"' ∧
      decodeJsStringEscapes pairLiteral.text ≠ .ok (some pairLiteral.value) :=
  ⟨pairLiteral_valid, by decide⟩

end Rahgozar.Fronter.Envelope
