import Rahgozar.Lib.Trim
import Rahgozar.Drive.Names
import Rahgozar.Proxy.HttpRequest
import Rahgozar.Tunnel.UdpgwReplies

set_option autoImplicit false

/-! # Texts and lines in HTTP heads

A head is sent as UTF-8, its lines end in `\r\n`, and an empty line ends the head. The file has what
the readers and the writers of heads in `src/domain_fronter.rs` have in common: the bytes of a text
are read as the text, and the lines of a head are found again in its bytes.
-/

namespace Rahgozar.Fronter.Http

open Drive (splitOnce utf8)
open Udpgw (encode_cases isContinuation utf8CharWidth validSecond validSecond_iff)
open Segments (position)
open Proxy.Mitm (crlf fromUtf8 splitCrlf)

variable {text line : List Char} {lines : List (List Char)} {bytes : List UInt8}

/-! ## UTF-8 -/

theorem fromUtf8_encode (c : Char) (rest : List UInt8) :
    fromUtf8 (String.utf8EncodeChar c ++ rest) = (fromUtf8 rest).map (c :: ·) := by
  generalize htext : (fromUtf8 rest).map (c :: ·) = text
  rcases encode_cases c with ⟨b0, henc, hwidth, hc⟩ | ⟨b0, b1, henc, hwidth, h1, hc⟩ |
    ⟨b0, b1, b2, henc, hwidth, h1, h2, hc⟩ | ⟨b0, b1, b2, b3, henc, hwidth, h1, h2, h3, hc⟩
  · rw [henc, List.singleton_append]
    unfold fromUtf8
    simp only [hwidth, hc]
    exact htext
  · rw [henc, List.cons_append, List.singleton_append]
    unfold fromUtf8
    simp only [hwidth, h1, hc]
    exact htext
  · rw [henc, List.cons_append, List.cons_append, List.singleton_append]
    unfold fromUtf8
    simp only [hwidth, h1, h2, hc]
    exact htext
  · rw [henc, List.cons_append, List.cons_append, List.cons_append, List.singleton_append]
    unfold fromUtf8
    simp only [hwidth, h1, h2, h3, hc]
    exact htext

theorem utf8_cons (c : Char) (text : List Char) :
    utf8 (c :: text) = String.utf8EncodeChar c ++ utf8 text := List.flatMap_cons

theorem utf8_append (a b : List Char) : utf8 (a ++ b) = utf8 a ++ utf8 b := List.flatMap_append

theorem fromUtf8_utf8 (text : List Char) : fromUtf8 (utf8 text) = some text := by
  induction text with
  | nil => rfl
  | cons c text ih => rw [utf8_cons, fromUtf8_encode, ih, Option.map_some]

/-- A byte of a character is its code, or beyond ASCII. -/
theorem encode_byte {c : Char} {b : UInt8} (hb : b ∈ String.utf8EncodeChar c) :
    128 ≤ b.toNat ∨ Char.ofNat b.toNat = c := by
  have hcont : ∀ {b : UInt8}, isContinuation b = true → 128 ≤ b.toNat := by
    intro b hb
    exact of_decide_eq_true ((Bool.and_eq_true _ _).mp hb).1
  have hfirst : ∀ {b : UInt8}, 1 < utf8CharWidth b → 128 ≤ b.toNat := by
    intro b hb
    by_contra hlt
    rw [utf8CharWidth, if_pos (by omega)] at hb
    omega
  rcases encode_cases c with ⟨b0, henc, hwidth, hc⟩ | ⟨b0, b1, henc, hwidth, h1, hc⟩ |
    ⟨b0, b1, b2, henc, hwidth, h1, h2, hc⟩ | ⟨b0, b1, b2, b3, henc, hwidth, h1, h2, h3, hc⟩
  · rw [henc, List.mem_singleton] at hb
    rw [hb]
    exact Or.inr hc
  · left
    simp only [henc, List.mem_cons, List.not_mem_nil, or_false] at hb
    rcases hb with rfl | rfl
    · exact hfirst (by omega)
    · exact hcont h1
  · left
    have h1 := ((validSecond_iff _ _).mp h1).1
    simp only [henc, List.mem_cons, List.not_mem_nil, or_false] at hb
    rcases hb with rfl | rfl | rfl
    · exact hfirst (by omega)
    · exact hcont h1
    · exact hcont h2
  · left
    have h1 := ((validSecond_iff _ _).mp h1).1
    simp only [henc, List.mem_cons, List.not_mem_nil, or_false] at hb
    rcases hb with rfl | rfl | rfl | rfl
    · exact hfirst (by omega)
    · exact hcont h1
    · exact hcont h2
    · exact hcont h3

theorem not_mem_utf8 {b : UInt8} (hb : b.toNat < 128) (h : Char.ofNat b.toNat ∉ text) :
    b ∉ utf8 text := by
  intro hmem
  obtain ⟨c, hc, hin⟩ := List.mem_flatMap.mp hmem
  rcases encode_byte hin with hge | rfl
  · omega
  · exact h hc

/-! ## Lines -/

/-- A text without a carriage return and a line feed. -/
structure OneLine (text : List Char) : Prop where
  cr : '\r' ∉ text
  lf : '\n' ∉ text

theorem OneLine.append {a b : List Char} (ha : OneLine a) (hb : OneLine b) : OneLine (a ++ b) := by
  constructor
  · intro h
    rcases List.mem_append.mp h with h | h
    · exact ha.cr h
    · exact hb.cr h
  · intro h
    rcases List.mem_append.mp h with h | h
    · exact ha.lf h
    · exact hb.lf h

/-- The lines of a head, without the end of the last one. -/
def joinLines (first : List Char) (lines : List (List Char)) : List Char :=
  first ++ lines.flatMap fun line => '\r' :: '\n' :: line

theorem joinLines_cons (first line : List Char) (lines : List (List Char)) :
    joinLines first (line :: lines) = first ++ '\r' :: '\n' :: joinLines line lines := by
  unfold joinLines
  rw [List.flatMap_cons, List.cons_append, List.cons_append]

theorem utf8_joinLines_cons (first line : List Char) (lines : List (List Char)) :
    utf8 (joinLines first (line :: lines)) = utf8 first ++ 13 :: 10 :: utf8 (joinLines line lines)
    := by
  rw [joinLines_cons, utf8_append, utf8_cons, utf8_cons]
  rfl

theorem OneLine.of_cons {c : Char} (h : OneLine (c :: line)) : c ≠ '\r' ∧ OneLine line := by
  constructor
  · rintro rfl
    exact h.cr List.mem_cons_self
  · exact ⟨fun hr => h.cr (List.mem_cons_of_mem c hr), fun hn => h.lf (List.mem_cons_of_mem c hn)⟩

theorem splitCrlf_append (h : OneLine line) (rest : List Char) :
    splitCrlf (line ++ '\r' :: '\n' :: rest) = line :: splitCrlf rest := by
  induction line with
  | nil => rfl
  | cons c line ih =>
      obtain ⟨hc, hline⟩ := h.of_cons
      rw [List.cons_append, splitCrlf, ih hline]
      intro rest' heq
      exact absurd heq hc

theorem splitCrlf_self (h : OneLine line) : splitCrlf line = [line] := by
  induction line with
  | nil => rfl
  | cons c line ih =>
      obtain ⟨hc, hline⟩ := h.of_cons
      rw [splitCrlf, ih hline]
      intro rest' heq
      exact absurd heq hc

theorem splitCrlf_joinLines {first : List Char} (hfirst : OneLine first)
    (hlines : ∀ line ∈ lines, OneLine line) :
    splitCrlf (joinLines first lines) = first :: lines := by
  induction lines generalizing first with
  | nil =>
      rw [joinLines, List.flatMap_nil, List.append_nil]
      exact splitCrlf_self hfirst
  | cons line lines ih =>
      obtain ⟨hline, hlines⟩ := List.forall_mem_cons.mp hlines
      rw [joinLines_cons, splitCrlf_append hfirst, ih hline hlines]

/-- A line that is not taken for the empty one: it has no line feed, and does not begin with a
carriage return. -/
structure HeadLine (text : List Char) : Prop where
  lf : '\n' ∉ text
  start : ∃ c more, text = c :: more ∧ c ≠ '\r'

theorem OneLine.headLine (h : OneLine text) (hne : text ≠ []) : HeadLine text := by
  obtain ⟨c, more, rfl⟩ := List.exists_cons_of_ne_nil hne
  refine ⟨h.lf, c, more, rfl, ?_⟩
  rintro rfl
  exact h.cr List.mem_cons_self

theorem HeadLine.first_byte (h : HeadLine text) : ∃ b more, utf8 text = b :: more ∧ b ≠ 13 := by
  obtain ⟨c, more, rfl, hc⟩ := h.start
  obtain ⟨b, later, hbytes⟩ := List.exists_cons_of_ne_nil (String.utf8EncodeChar_ne_nil (c := c))
  refine ⟨b, later ++ utf8 more, ?_, ?_⟩
  · rw [utf8_cons, hbytes, List.cons_append]
  · rintro rfl
    have hmem : (13 : UInt8) ∈ String.utf8EncodeChar c := hbytes ▸ List.mem_cons_self
    rcases encode_byte hmem with hge | heq
    · exact absurd hge (by decide)
    · exact hc heq.symm

/-- The empty line is not in a line without a line feed, nor does it begin in it. -/
theorem position_line {line : List UInt8} (hlf : (10 : UInt8) ∉ line) (rest : List UInt8) :
    position (crlf ++ crlf) (line ++ 13 :: 10 :: rest) =
      (position (crlf ++ crlf) (13 :: 10 :: rest)).map (· + line.length) := by
  induction line with
  | nil => exact Option.map_id'.symm
  | cons x line ih =>
      have hlf' : (10 : UInt8) ∉ line := fun h => hlf (List.mem_cons_of_mem x h)
      have hnot : ¬ (crlf ++ crlf).isPrefixOf (x :: (line ++ 13 :: 10 :: rest)) = true := by
        intro hpre
        have hpre : (13 :: 10 :: [13, 10] : List UInt8) <+: x :: (line ++ 13 :: 10 :: rest) :=
          List.isPrefixOf_iff_prefix.mp hpre
        have hpre := (List.cons_prefix_cons.mp hpre).2
        cases line with
        | nil => exact absurd (List.cons_prefix_cons.mp hpre).1 (by decide)
        | cons y line =>
            rw [List.cons_append] at hpre
            exact hlf' ((List.cons_prefix_cons.mp hpre).1 ▸ List.mem_cons_self)
      rw [List.cons_append, position, if_neg hnot, ih hlf', Option.map_map]
      rfl

/-- The first empty line is the one that ends the head. -/
theorem position_joinLines {first : List Char} (hfirst : '\n' ∉ first)
    (hlines : ∀ line ∈ lines, HeadLine line) (rest : List UInt8) :
    position (crlf ++ crlf) (utf8 (joinLines first lines) ++ (crlf ++ crlf ++ rest)) =
      some (utf8 (joinLines first lines)).length := by
  have hbytes : ∀ {line : List Char}, '\n' ∉ line → (10 : UInt8) ∉ utf8 line :=
    fun hline => not_mem_utf8 (by decide) hline
  induction lines generalizing first with
  | nil =>
      rw [joinLines, List.flatMap_nil, List.append_nil]
      show position (crlf ++ crlf) (utf8 first ++ 13 :: 10 :: (crlf ++ rest)) = _
      rw [position_line (hbytes hfirst)]
      have hzero : position (crlf ++ crlf) (13 :: 10 :: (crlf ++ rest)) = some 0 := rfl
      rw [hzero, Option.map_some, Nat.zero_add]
  | cons line lines ih =>
      obtain ⟨hline, hlines⟩ := List.forall_mem_cons.mp hlines
      obtain ⟨b, more, hmore, hb⟩ : ∃ b more, utf8 (joinLines line lines) = b :: more ∧ b ≠ 13 := by
        obtain ⟨b, more, hmore, hb⟩ := hline.first_byte
        unfold joinLines
        rw [utf8_append, hmore]
        exact ⟨b, _, rfl, hb⟩
      have hskip : ∀ more, position (crlf ++ crlf) (13 :: 10 :: b :: more) =
          (position (crlf ++ crlf) (b :: more)).map (· + 2) := by
        intro more
        have hnot : ¬ (crlf ++ crlf).isPrefixOf (13 :: 10 :: b :: more) = true := by
          intro hpre
          have hpre : (13 :: 10 :: 13 :: [10] : List UInt8) <+: 13 :: 10 :: b :: more :=
            List.isPrefixOf_iff_prefix.mp hpre
          have hpre := (List.cons_prefix_cons.mp (List.cons_prefix_cons.mp hpre).2).2
          exact hb (List.cons_prefix_cons.mp hpre).1.symm
        have hten : ¬ (crlf ++ crlf).isPrefixOf (10 :: b :: more) = true := by
          intro hpre
          have hpre : (13 :: 10 :: 13 :: [10] : List UInt8) <+: 10 :: b :: more :=
            List.isPrefixOf_iff_prefix.mp hpre
          exact absurd (List.cons_prefix_cons.mp hpre).1 (by decide)
        rw [position, if_neg hnot, position, if_neg hten, Option.map_map]
        rfl
      have hrest := ih hline.lf hlines
      rw [utf8_joinLines_cons, List.append_assoc, List.cons_append, List.cons_append,
        position_line (hbytes hfirst), hmore, List.cons_append, hskip, ← List.cons_append, ← hmore,
        hrest, Option.map_some, Option.map_some, List.length_append, List.length_cons,
        List.length_cons]
      exact congrArg some (by omega)

/-! ## Header lines -/

theorem splitOnce_append {c : Char} {k : List Char} (hk : c ∉ k) (v : List Char) :
    splitOnce [c] (k ++ c :: v) = some (k, v) := by
  induction k with
  | nil => simp [splitOnce, List.isPrefixOf]
  | cons x k ih =>
      have hx : c ≠ x := by
        rintro rfl
        exact hk List.mem_cons_self
      have hstarts : ¬ [c].isPrefixOf (x :: (k ++ c :: v)) = true := by
        intro hpre
        exact hx (List.cons_prefix_cons.mp (List.isPrefixOf_iff_prefix.mp hpre)).1
      rw [List.cons_append, splitOnce, if_neg hstarts,
        ih fun hin => hk (List.mem_cons_of_mem x hin), Option.map_some]

end Rahgozar.Fronter.Http
