import Mathlib.Tactic

set_option autoImplicit false

/-! # Texts indexed by bytes

A text is a list of characters, but its indices count the bytes of its UTF-8. A slice of a text
exists only if its ends are in order and between characters. Searching a text finds indices between
characters; cutting a text to a number of bytes may hit the inside of a character.
-/

namespace ByteIndex

variable {text a b : List Char} {pat : List Char} {c d : Char} {i n : Nat}

/-- The number of bytes. -/
def byteLen (text : List Char) : Nat := (text.map Char.utf8Size).sum

/-- The text up to byte `n`. -/
def takeBytes : List Char → (n : Nat) → Option (List Char)
  | [], n => if n = 0 then some [] else none
  | c :: text, n =>
      if n = 0 then some []
      else if c.utf8Size ≤ n then (takeBytes text (n - c.utf8Size)).map (c :: ·)
      else none

/-- The text from byte `n` on. -/
def dropBytes : List Char → (n : Nat) → Option (List Char)
  | [], n => if n = 0 then some [] else none
  | c :: text, n =>
      if n = 0 then some (c :: text)
      else if c.utf8Size ≤ n then dropBytes text (n - c.utf8Size)
      else none

/-- The text from byte `start` up to byte `stop`. -/
def slice (text : List Char) (start stop : Nat) : Option (List Char) :=
  if start ≤ stop then (dropBytes text start).bind fun text => takeBytes text (stop - start)
  else none

/-- The text cut to at most `n` bytes. -/
def truncate (text : List Char) (n : Nat) : Option (List Char) :=
  takeBytes text (min (byteLen text) n)

/-- Where the pattern first occurs. -/
def find (pat : List Char) : List Char → Option Nat
  | [] => if pat.isEmpty then some 0 else none
  | c :: text =>
      if pat.isPrefixOf (c :: text) then some 0 else (find pat text).map (· + c.utf8Size)

/-- Where the character last occurs. -/
def rfind (d : Char) : List Char → Option Nat
  | [] => none
  | c :: text =>
      match rfind d text with
      | some i => some (i + c.utf8Size)
      | none => if c = d then some 0 else none

/-- Before byte `n` there is a part of a character, and the rest of it is behind. -/
def Inside (text : List Char) (n : Nat) : Prop :=
  ∃ a c b, text = a ++ c :: b ∧ byteLen a < n ∧ n < byteLen a + c.utf8Size

@[simp] theorem byteLen_nil : byteLen [] = 0 := rfl

@[simp] theorem byteLen_cons (c : Char) (text : List Char) :
    byteLen (c :: text) = c.utf8Size + byteLen text := rfl

@[simp] theorem byteLen_append (a b : List Char) : byteLen (a ++ b) = byteLen a + byteLen b := by
  unfold byteLen
  rw [List.map_append, List.sum_append]

/-! ## Slices -/

theorem takeBytes_append (a b : List Char) : takeBytes (a ++ b) (byteLen a) = some a := by
  induction a with
  | nil =>
      cases b with
      | nil => rfl
      | cons c b => rfl
  | cons c a ih =>
      have hpos := Char.utf8Size_pos c
      rw [List.cons_append, takeBytes, byteLen_cons, if_neg (by omega), if_pos (by omega),
        Nat.add_sub_cancel_left, ih, Option.map_some]

theorem dropBytes_append (a b : List Char) : dropBytes (a ++ b) (byteLen a) = some b := by
  induction a with
  | nil =>
      cases b with
      | nil => rfl
      | cons c b => rfl
  | cons c a ih =>
      have hpos := Char.utf8Size_pos c
      rw [List.cons_append, dropBytes, byteLen_cons, if_neg (by omega), if_pos (by omega),
        Nat.add_sub_cancel_left, ih]

theorem slice_append (a text b : List Char) :
    slice (a ++ (text ++ b)) (byteLen a) (byteLen a + byteLen text) = some text := by
  unfold slice
  rw [if_pos (by omega), dropBytes_append, Option.bind_some, Nat.add_sub_cancel_left,
    takeBytes_append]

/-! ## Searching -/

theorem find_eq_some (h : find pat text = some i) :
    ∃ a b, text = a ++ (pat ++ b) ∧ byteLen a = i := by
  induction text generalizing i with
  | nil =>
      unfold find at h
      split_ifs at h with hempty
      cases h
      exact ⟨[], [], by rw [List.isEmpty_iff.mp hempty]; rfl, rfl⟩
  | cons c text ih =>
      unfold find at h
      split_ifs at h with hpre
      · cases h
        obtain ⟨b, hb⟩ := List.isPrefixOf_iff_prefix.mp hpre
        exact ⟨[], b, hb.symm, rfl⟩
      · obtain ⟨j, hj, rfl⟩ := Option.map_eq_some_iff.mp h
        obtain ⟨a, b, rfl, rfl⟩ := ih hj
        exact ⟨c :: a, b, rfl, by rw [byteLen_cons, Nat.add_comm]⟩

theorem rfind_eq_some (h : rfind d text = some i) :
    ∃ a b, text = a ++ d :: b ∧ byteLen a = i := by
  induction text generalizing i with
  | nil => cases h
  | cons c text ih =>
      unfold rfind at h
      cases hrest : rfind d text with
      | some j =>
          rw [hrest] at h
          obtain ⟨a, b, rfl, rfl⟩ := ih hrest
          refine ⟨c :: a, b, rfl, ?_⟩
          rw [← Option.some.inj h, byteLen_cons, Nat.add_comm]
      | none =>
          rw [hrest] at h
          dsimp only at h
          split_ifs at h with hc
          cases h
          exact ⟨[], text, by rw [hc]; rfl, rfl⟩

theorem find_singleton_eq_none_iff : find [d] text = none ↔ d ∉ text := by
  induction text with
  | nil => simp [find]
  | cons c text ih =>
      have hpre : [d].isPrefixOf (c :: text) = true ↔ d = c := by
        simp [List.isPrefixOf]
      unfold find
      rw [List.mem_cons, not_or, ← ih]
      split_ifs with h
      · simp [hpre.mp h]
      · simp [mt hpre.mpr h]

theorem rfind_eq_none_iff : rfind d text = none ↔ d ∉ text := by
  induction text with
  | nil => simp [rfind]
  | cons c text ih =>
      unfold rfind
      rw [List.mem_cons, not_or, ← ih]
      cases hrest : rfind d text with
      | some j => simp
      | none => simp [eq_comm]

/-! ## Cutting -/

theorem Inside.lt (h : Inside text n) : n < byteLen text := by
  obtain ⟨a, c, b, rfl, -, hlt⟩ := h
  rw [byteLen_append, byteLen_cons]
  omega

theorem inside_cons_iff : Inside (c :: text) n ↔
    0 < n ∧ n < c.utf8Size ∨ c.utf8Size ≤ n ∧ Inside text (n - c.utf8Size) := by
  constructor
  · rintro ⟨a, d, b, heq, hlow, hhigh⟩
    cases a with
    | nil =>
        obtain ⟨rfl, -⟩ := List.cons.inj heq
        rw [byteLen_nil] at hlow hhigh
        exact Or.inl ⟨hlow, by omega⟩
    | cons x a =>
        obtain ⟨rfl, rfl⟩ := List.cons.inj heq
        rw [byteLen_cons] at hlow hhigh
        exact Or.inr ⟨by omega, a, d, b, rfl, by omega, by omega⟩
  · rintro (⟨hlow, hhigh⟩ | ⟨hle, a, d, b, rfl, hlow, hhigh⟩)
    · exact ⟨[], c, text, rfl, hlow, by rw [byteLen_nil]; omega⟩
    · exact ⟨c :: a, d, b, rfl, by rw [byteLen_cons]; omega, by rw [byteLen_cons]; omega⟩

theorem takeBytes_eq_none_iff (hn : n ≤ byteLen text) :
    takeBytes text n = none ↔ Inside text n := by
  induction text generalizing n with
  | nil =>
      rw [byteLen_nil] at hn
      unfold takeBytes
      rw [if_pos (by omega)]
      constructor
      · intro h
        cases h
      · intro h
        have := h.lt
        rw [byteLen_nil] at this
        omega
  | cons c text ih =>
      rw [byteLen_cons] at hn
      unfold takeBytes
      rw [inside_cons_iff]
      split_ifs with hzero hle
      · have := Char.utf8Size_pos c
        constructor
        · intro h
          cases h
        · intro h
          omega
      · rw [Option.map_eq_none_iff, ih (by omega)]
        constructor
        · exact fun h => Or.inr ⟨hle, h⟩
        · rintro (h | h)
          · omega
          · exact h.2
      · exact ⟨fun _ => Or.inl ⟨by omega, by omega⟩, fun _ => rfl⟩

/-- Cutting a text fails when the cut would be inside a character. -/
theorem truncate_eq_none_iff : truncate text n = none ↔ Inside text n := by
  unfold truncate
  rw [takeBytes_eq_none_iff (Nat.min_le_left _ _)]
  by_cases hle : n ≤ byteLen text
  · rw [Nat.min_eq_right hle]
  · rw [Nat.min_eq_left (by omega)]
    constructor
    · exact fun h => absurd h.lt (Nat.lt_irrefl _)
    · exact fun h => absurd (Nat.le_of_lt h.lt) hle

/-- The text from the first occurrence of an opening to the last one of a closing, both included,
exists if they are in order. -/
theorem slice_find_rfind {o : Char} {j : Nat} (ho : find [o] text = some i)
    (hc : rfind c text = some j) (hle : i ≤ j) : (slice text i (j + c.utf8Size)).isSome = true := by
  obtain ⟨a, b, htext, rfl⟩ := find_eq_some ho
  obtain ⟨a', b', htext', rfl⟩ := rfind_eq_some hc
  have hopen : a <+: text := ⟨_, htext.symm⟩
  have hclose : a' ++ [c] <+: text := ⟨b', by rw [htext', List.append_assoc]; rfl⟩
  have hpre : a <+: a' ++ [c] := by
    refine List.prefix_of_prefix_length_le hopen hclose ?_
    by_contra hlong
    have hpre' : a' ++ [c] <+: a := List.prefix_of_prefix_length_le hclose hopen (by omega)
    obtain ⟨more, rfl⟩ := hpre'
    have := Char.utf8Size_pos c
    simp only [byteLen_append, byteLen_cons, byteLen_nil] at hle
    omega
  obtain ⟨mid, hmid⟩ := hpre
  have hsplit : text = a ++ (mid ++ b') := by
    rw [htext', ← List.append_assoc, hmid, List.append_assoc]
    rfl
  have hlen : byteLen a' + c.utf8Size = byteLen a + byteLen mid := by
    have := congrArg byteLen hmid
    simp only [byteLen_append, byteLen_cons, byteLen_nil] at this
    omega
  rw [hsplit, hlen, slice_append]
  rfl

end ByteIndex
