import Mathlib.Data.Bool.AllAny
import Rahgozar.Update.Versions

set_option autoImplicit false

/-! # Versions and their precedence

Semantic versions without build metadata, their texts and their precedence, and where `is_newer`
follows it. What stands between two dots is a field here; `is_newer` also cuts at hyphens, so that
a field is one or more of its parts, and the fields behind may meet parts of other fields.
-/

namespace Rahgozar.Update

/-! ## The versions -/

/-- Letters, digits and hyphens, and not digits only. -/
structure Word where
  text : List Char
  chars : ∀ c ∈ text, c.isAlphanum = true ∨ c = '-'
  nonDigit : ∃ c ∈ text, c.isDigit = false
deriving DecidableEq

/-- A field of a pre-release. -/
inductive Identifier where
  | numeric (n : Nat)
  | word (w : Word)
deriving DecidableEq

structure SemVer where
  major : Nat
  minor : Nat
  patch : Nat
  preRelease : List Identifier
deriving DecidableEq

def Identifier.text : Identifier → List Char
  | .numeric n => Nat.toDigits 10 n
  | .word w => w.text

def SemVer.core (v : SemVer) : List Nat := [v.major, v.minor, v.patch]

def SemVer.text (v : SemVer) : List Char :=
  ['.'].intercalate (v.core.map (Nat.toDigits 10)) ++
    if v.preRelease = [] then []
    else '-' :: ['.'].intercalate (v.preRelease.map Identifier.text)

/-- Numbers by their value, words in ASCII order, numbers below words. -/
def Identifier.Lower : Identifier → Identifier → Prop
  | .numeric n, .numeric m => n < m
  | .numeric _, .word _ => True
  | .word _, .numeric _ => False
  | .word u, .word w => u.text < w.text

/-- The precedence of versions; a pre-release is older than its release. -/
def SemVer.Lower (v w : SemVer) : Prop :=
  v.core < w.core ∨ v.core = w.core ∧
    match v.preRelease, w.preRelease with
    | [], _ => False
    | _ :: _, [] => True
    | xs, ys => List.Lex Identifier.Lower xs ys

/-! ## Where the order is kept -/

/-- The parts of a field. -/
def pieces (x : Identifier) : List (List Char) := splitVersion x.text

/-- The parts of a pre-release. -/
def prePieces (xs : List Identifier) : List (List Char) := xs.flatMap pieces

/-- The first part that is not zero. -/
def firstNonzero (l : List (List Char)) : Option (List Char) := l.find? fun p => parseU64 p ≠ some 0

/-- Numbers are compared as numbers up to 64 bits, and by their digits above. -/
def NumbersKept (n m : Nat) : Prop :=
  n < 2 ^ 64 ∧ m < 2 ^ 64 ∨ Nat.toDigits 10 n < Nat.toDigits 10 m

/-- The first numbers that differ are in the right order. -/
def CoreKept : List Nat → List Nat → Prop
  | n :: ns, m :: ms => if n = m then CoreKept ns ms else NumbersKept n m
  | _, _ => True

/-- The parts of the lower and of the higher field, and what stands behind the fields. Parts that
differ are in the right order, or they are equal numbers and what is behind them is; of two words
the texts are in the right order. Where one of the fields ends, its version goes on with the fields
behind against the parts of the other. -/
def PiecesKept (isNumber : Prop) (restLow restHigh : List (List Char)) :
    List (List Char) → List (List Char) → Prop
  | p :: low, q :: high =>
      if p = q then PiecesKept isNumber restLow restHigh low high
      else
        match parseU64 p, parseU64 q with
        | some n, some m => n < m ∨ n = m ∧ parts.ListAhead ['0'] (high ++ restHigh) (low ++ restLow)
        | _, _ => isNumber → p < q
  | low, high => parts.ListAhead ['0'] (high ++ restHigh) (low ++ restLow)

/-- The first fields that differ. A pre-release that goes on is higher for `is_newer` if what it
goes on with is not all zeros, and the first part that is not zero is not empty. -/
def PreKept : List Identifier → List Identifier → Prop
  | [], high => ∃ p, firstNonzero (prePieces high) = some p ∧ p ≠ []
  | _ :: _, [] => True
  | x :: low, y :: high =>
      if x = y then PreKept low high
      else PiecesKept (∃ n, x = .numeric n) (prePieces low) (prePieces high) (pieces x) (pieces y)

/-- Where `is_newer` finds that `high` is newer than `low`, which has lower precedence. -/
def OrderKept (low high : SemVer) : Prop :=
  if low.core ≠ high.core then CoreKept low.core high.core
  else if high.preRelease = [] then firstNonzero (prePieces low.preRelease) = some []
  else PreKept low.preRelease high.preRelease

/-! ## The parts of a version -/

theorem splitVersion_toDigits (n : Nat) :
    splitVersion (Nat.toDigits 10 n) = [Nat.toDigits 10 n] := by
  refine List.splitOnP_eq_singleton fun c hc => ?_
  have hdigit : c.isDigit = true := Nat.isDigit_of_mem_toDigits (by decide) (by decide) hc
  have hdot : c ≠ '.' := by
    rintro rfl
    exact absurd hdigit (by decide)
  have hhyphen : c ≠ '-' := by
    rintro rfl
    exact absurd hdigit (by decide)
  simp [hdot, hhyphen]

theorem splitVersion_dots {l : List (List Char)} (h : l ≠ []) :
    splitVersion (['.'].intercalate l) = l.flatMap splitVersion := by
  induction l with
  | nil => exact absurd rfl h
  | cons x l ih =>
    cases l with
    | nil => simp
    | cons y l =>
      have hrest := ih (List.cons_ne_nil _ _)
      unfold splitVersion at hrest ⊢
      rw [List.intercalate_cons_cons, List.append_assoc, List.singleton_append,
        List.splitOnP_append_cons _ _ (by decide), hrest]
      rfl

/-- The parts of a version are its numbers and the parts of the fields of its pre-release. -/
theorem splitVersion_text (v : SemVer) :
    splitVersion v.text = v.core.map (Nat.toDigits 10) ++ prePieces v.preRelease := by
  have hcore : splitVersion (['.'].intercalate (v.core.map (Nat.toDigits 10))) =
      v.core.map (Nat.toDigits 10) := by
    rw [splitVersion_dots (by simp [SemVer.core])]
    simp [SemVer.core, splitVersion_toDigits]
  unfold SemVer.text
  split_ifs with hpre
  · simp [hcore, hpre, prePieces]
  · have hfields : splitVersion (['.'].intercalate (v.preRelease.map Identifier.text)) =
        prePieces v.preRelease := by
      rw [splitVersion_dots (by simpa using hpre), List.flatMap_map]
      rfl
    unfold splitVersion at hcore hfields ⊢
    rw [List.splitOnP_append_cons _ _ (by decide), hcore, hfields]

/-- A field is cut at its hyphens. -/
theorem splitVersion_word {text : List Char} (h : ∀ c ∈ text, c.isAlphanum = true ∨ c = '-') :
    ['-'].intercalate (splitVersion text) = text ∧
      ∀ p ∈ splitVersion text, ∀ c ∈ p, c.isAlphanum = true := by
  induction text with
  | nil => simp [splitVersion]
  | cons c text ih =>
    obtain ⟨htext, hpieces⟩ := ih fun d hd => h d (List.mem_cons_of_mem c hd)
    have hne : splitVersion text ≠ [] := List.splitOnP_ne_nil _ _
    unfold splitVersion at htext hpieces hne ⊢
    rw [List.splitOnP_cons_eq_if_modifyHead]
    obtain ⟨p, l, hl⟩ := List.exists_cons_of_ne_nil hne
    rw [hl] at htext hpieces ⊢
    rcases h c List.mem_cons_self with halpha | rfl
    · have hnot : (c == '.' || c == '-') = false := by
        have hdot : c ≠ '.' := by
          rintro rfl
          exact absurd halpha (by decide)
        have hhyphen : c ≠ '-' := by
          rintro rfl
          exact absurd halpha (by decide)
        simp [hdot, hhyphen]
      rw [hnot, if_neg (by decide), List.modifyHead_cons]
      constructor
      · rw [← htext]
        cases l with
        | nil => simp
        | cons q l => simp [List.intercalate_cons_cons]
      · intro q hq d hd
        rcases List.mem_cons.mp hq with rfl | hq
        · rcases List.mem_cons.mp hd with rfl | hd
          · exact halpha
          · exact hpieces p List.mem_cons_self d hd
        · exact hpieces q (List.mem_cons_of_mem p hq) d hd
    · rw [if_pos (by decide)]
      constructor
      · rw [List.intercalate_cons_cons, htext]
        simp
      · intro q hq d hd
        rcases List.mem_cons.mp hq with rfl | hq
        · exact absurd hd List.not_mem_nil
        · exact hpieces q hq d hd

/-! ## Comparing parts -/

theorem hyphen_lt {c : Char} (h : c.isAlphanum = true) : '-' < c ∧ ∀ d, d < '0' → d < c := by
  have hcases : ((decide (65 ≤ c.val ∧ c.val ≤ 90) || (decide (97 ≤ c.val) && decide (c.val ≤ 122)))
      || (decide (48 ≤ c.val) && decide (c.val ≤ 57))) = true := h
  have hzero : '0' ≤ c := by
    simp only [Bool.or_eq_true, Bool.and_eq_true, decide_eq_true_eq, UInt32.le_iff_toNat_le]
      at hcases
    rw [Char.le_def, UInt32.le_iff_toNat_le]
    show 48 ≤ c.val.toNat
    rcases hcases with (⟨hupper, -⟩ | ⟨hlower, -⟩) | ⟨hdigit, -⟩
    · exact le_trans (by decide) hupper
    · exact le_trans (by decide) hlower
    · exact hdigit
  exact ⟨lt_of_lt_of_le (by decide) hzero, fun d hd => lt_of_lt_of_le hd hzero⟩

/-- Of two words that are cut at a hyphen the first parts that differ are in the order of the
words: a hyphen is below every other character. -/
theorem lt_of_append_lt {p q s t : List Char} (hp : ∀ c ∈ p, c.isAlphanum = true)
    (ht : t = [] ∨ ∃ t', t = '-' :: t') (hne : p ≠ q)
    (hlt : p ++ s < q ++ t) : p < q := by
  induction p generalizing q with
  | nil =>
    cases q with
    | nil => exact absurd rfl hne
    | cons d q => exact List.nil_lt_cons d q
  | cons c p ih =>
    cases q with
    | nil =>
      rcases ht with rfl | ⟨t', rfl⟩
      · exact absurd hlt (List.not_lt_nil _)
      · have hc := (hyphen_lt (hp c List.mem_cons_self)).1
        rcases List.cons_lt_cons_iff.mp hlt with h | ⟨rfl, -⟩
        · exact absurd h (lt_asymm hc)
        · exact absurd hc (lt_irrefl _)
    | cons d q =>
      rcases List.cons_lt_cons_iff.mp hlt with h | ⟨rfl, h⟩
      · exact List.cons_lt_cons_iff.mpr (Or.inl h)
      · have hne' : p ≠ q := fun heq => hne (by rw [heq])
        have hrest := ih (fun d hd => hp d (List.mem_cons_of_mem c hd)) hne' h
        exact List.cons_lt_cons_iff.mpr (Or.inr ⟨rfl, hrest⟩)

/-- The same digits are the same number. -/
theorem toDigits_injective {n m : Nat} (h : Nat.toDigits 10 n = Nat.toDigits 10 m) : n = m := by
  have hvalue := congrArg (fun digits => Nat.ofDigitChars 10 digits 0) h
  simpa [Nat.ofDigitChars_ten_toDigits] using hvalue

theorem parseU64_toDigits {n : Nat} (h : n < 2 ^ 64) : parseU64 (Nat.toDigits 10 n) = some n :=
  Drive.parseUnsigned_toDigits h

theorem parseU64_toDigits_eq_none {n : Nat} (h : ¬ n < 2 ^ 64) :
    parseU64 (Nat.toDigits 10 n) = none := by
  cases hparse : parseU64 (Nat.toDigits 10 n) with
  | none => rfl
  | some m =>
    obtain ⟨hnumber, -⟩ := Drive.parseUnsigned_eq_some_iff.mp hparse
    have hlt := hnumber.lt
    rw [Drive.digitsOf_of_head (Drive.head?_toDigits_ne_plus n),
      Nat.ofDigitChars_ten_toDigits] at hlt
    exact absurd hlt h

theorem not_same_toDigits {n m : Nat} (hne : n ≠ m) :
    ¬ Same (Nat.toDigits 10 m) (Nat.toDigits 10 n) := by
  have htext : Nat.toDigits 10 m ≠ Nat.toDigits 10 n :=
    fun h => hne (toDigits_injective h).symm
  by_cases hn : n < 2 ^ 64
  · by_cases hm : m < 2 ^ 64
    · rw [same_of_numbers (parseU64_toDigits hm) (parseU64_toDigits hn)]
      exact Ne.symm hne
    · rwa [same_of_text (Or.inl (parseU64_toDigits_eq_none hm))]
  · rwa [same_of_text (Or.inr (parseU64_toDigits_eq_none hn))]

theorem above_toDigits {n m : Nat} (hlt : n < m) :
    Above (Nat.toDigits 10 m) (Nat.toDigits 10 n) ↔ NumbersKept n m := by
  unfold NumbersKept
  by_cases hn : n < 2 ^ 64
  · by_cases hm : m < 2 ^ 64
    · rw [above_of_numbers (parseU64_toDigits hm) (parseU64_toDigits hn)]
      exact iff_of_true hlt (Or.inl ⟨hn, hm⟩)
    · rw [above_of_text (Or.inl (parseU64_toDigits_eq_none hm))]
      exact (or_iff_right fun h => hm h.2).symm
  · rw [above_of_text (Or.inr (parseU64_toDigits_eq_none hn))]
    exact (or_iff_right fun h => hn h.1).symm

/-- Numbers that decide: what is behind them does not matter. -/
theorem listAhead_core {ns ms : List Nat} (hlen : ns.length = ms.length) (hlt : ns < ms)
    (restLow restHigh : List (List Char)) :
    parts.ListAhead ['0'] (ms.map (Nat.toDigits 10) ++ restHigh)
      (ns.map (Nat.toDigits 10) ++ restLow) ↔ CoreKept ns ms := by
  induction ns generalizing ms with
  | nil =>
    obtain rfl := List.length_eq_zero_iff.mp hlen.symm
    exact absurd hlt (lt_irrefl _)
  | cons n ns ih =>
    cases ms with
    | nil => exact absurd hlt (List.not_lt_nil _)
    | cons m ms =>
      rw [List.map_cons, List.map_cons, List.cons_append, List.cons_append, CoreKept]
      rcases List.cons_lt_cons_iff.mp hlt with h | ⟨rfl, h⟩
      · rw [if_neg h.ne, Comparison.listAhead_cons]
        have hnot := not_same_toDigits h.ne
        have habove := above_toDigits h
        exact ⟨fun hor => habove.mp (hor.resolve_right fun hsame => hnot hsame.1),
          fun hkept => Or.inl (habove.mpr hkept)⟩
      · rw [if_pos rfl, ← ih (Nat.succ.inj hlen) h]
        exact Comparison.listAhead_append [Nat.toDigits 10 n]

/-! ## Zeros -/

theorem parseU64_zero : parseU64 ['0'] = some 0 := by decide

/-- Of the parts of a field only the empty one is below zero. -/
theorem zero_above_iff {p : List Char} (hp : ∀ c ∈ p, c.isAlphanum = true)
    (hne : parseU64 p ≠ some 0) : ¬ Same ['0'] p ∧ (Above ['0'] p ↔ p = []) := by
  cases hparse : parseU64 p with
  | none =>
    rw [same_of_text (Or.inr hparse), above_of_text (Or.inr hparse)]
    constructor
    · rintro rfl
      exact absurd (parseU64_zero.symm.trans hparse) (by simp)
    · cases p with
      | nil => exact iff_of_true (List.nil_lt_cons _ _) rfl
      | cons c p =>
        refine iff_of_false (fun hlt => ?_) (List.cons_ne_nil c p)
        rcases List.cons_lt_cons_iff.mp hlt with h | ⟨-, h⟩
        · exact lt_irrefl c ((hyphen_lt (hp c List.mem_cons_self)).2 c h)
        · exact absurd h (List.not_lt_nil _)
  | some n =>
    have hn : n ≠ 0 := by
      rintro rfl
      exact hne hparse
    rw [same_of_numbers parseU64_zero hparse, above_of_numbers parseU64_zero hparse]
    have hempty : parseU64 [] = none := by decide
    refine ⟨Ne.symm hn, iff_of_false (Nat.not_lt_zero n) ?_⟩
    rintro rfl
    exact absurd (hempty.symm.trans hparse) (by simp)

theorem above_zero_iff {p : List Char} (hp : ∀ c ∈ p, c.isAlphanum = true)
    (hne : parseU64 p ≠ some 0) : Above p ['0'] ↔ p ≠ [] := by
  obtain ⟨hdiffer, hzero⟩ := zero_above_iff hp hne
  rw [ne_eq, ← hzero]
  exact ⟨fun h => parts.asymm h, fun h => (parts.total hdiffer).resolve_left h⟩

theorem same_zero {p : List Char} (h : parseU64 p = some 0) : Same ['0'] p :=
  (same_of_numbers parseU64_zero h).mpr rfl

theorem firstNonzero_cons (p : List Char) (l : List (List Char)) :
    firstNonzero (p :: l) = if parseU64 p = some 0 then firstNonzero l else some p := by
  unfold firstNonzero
  by_cases h : parseU64 p = some 0
  · rw [if_pos h, List.find?_cons_of_neg (by simp [h])]
  · rw [if_neg h, List.find?_cons_of_pos (by simp [h])]

/-- A release against the parts of a pre-release. -/
theorem release_ahead_iff {l : List (List Char)} (hl : ∀ p ∈ l, ∀ c ∈ p, c.isAlphanum = true) :
    parts.ListAhead ['0'] [] l ↔ firstNonzero l = some [] := by
  induction l with
  | nil => exact iff_of_false Comparison.not_listAhead_self (by simp [firstNonzero])
  | cons p l ih =>
    rw [Comparison.listAhead_iff, firstNonzero_cons]
    have hrest := ih fun q hq => hl q (List.mem_cons_of_mem p hq)
    by_cases hp : parseU64 p = some 0
    · have hsame := same_zero hp
      rw [if_pos hp, ← hrest]
      exact ⟨fun h => (h.resolve_left fun habove => parts.not_same habove hsame).2,
        fun h => Or.inr ⟨hsame, h⟩⟩
    · obtain ⟨hdiffer, habove⟩ := zero_above_iff (hl p List.mem_cons_self) hp
      rw [if_neg hp, Option.some_inj, ← habove]
      exact or_iff_left fun h => hdiffer h.1

/-- Parts that go on against a version that has ended. -/
theorem ahead_nil_iff {l : List (List Char)} (hl : ∀ p ∈ l, ∀ c ∈ p, c.isAlphanum = true) :
    parts.ListAhead ['0'] l [] ↔ ∃ p, firstNonzero l = some p ∧ p ≠ [] := by
  induction l with
  | nil => exact iff_of_false Comparison.not_listAhead_self (by simp [firstNonzero])
  | cons p l ih =>
    rw [Comparison.listAhead_iff, firstNonzero_cons]
    have hrest := ih fun q hq => hl q (List.mem_cons_of_mem p hq)
    by_cases hp : parseU64 p = some 0
    · have hsame := parts.equivalence.symm (same_zero hp)
      rw [if_pos hp, ← hrest]
      exact ⟨fun h => (h.resolve_left fun habove => parts.not_same habove hsame).2,
        fun h => Or.inr ⟨hsame, h⟩⟩
    · obtain ⟨hdiffer, -⟩ := zero_above_iff (hl p List.mem_cons_self) hp
      have habove := above_zero_iff (hl p List.mem_cons_self) hp
      rw [if_neg hp]
      calc parts.above p ['0'] ∨ parts.same p ['0'] ∧ parts.ListAhead ['0'] l []
          ↔ p ≠ [] := by
            rw [← habove]
            exact or_iff_left fun h => hdiffer (parts.equivalence.symm h.1)
        _ ↔ ∃ q, some p = some q ∧ q ≠ [] := by simp

/-! ## Fields -/

theorem join_cons (p : List Char) (l : List (List Char)) : ['-'].intercalate (p :: l) =
    p ++ if l = [] then [] else '-' :: ['-'].intercalate l := by
  cases l with
  | nil => simp
  | cons q l => simp [List.intercalate_cons_cons]

theorem lt_of_append_left {p s t : List Char} (h : p ++ s < p ++ t) : s < t := by
  induction p with
  | nil => exact h
  | cons c p ih =>
    rcases List.cons_lt_cons_iff.mp h with h | h
    · exact absurd h (lt_irrefl c)
    · exact ih h.2

/-- Where one of the fields has ended, its version goes on behind it. -/
theorem piecesKept_end {isNumber : Prop} {low high restLow restHigh : List (List Char)}
    (h : low = [] ∨ high = []) : PiecesKept isNumber restLow restHigh low high ↔
      parts.ListAhead ['0'] (high ++ restHigh) (low ++ restLow) := by
  cases low with
  | nil => cases high <;> rfl
  | cons p low =>
    cases high with
    | nil => rfl
    | cons q high => simp at h

/-- Two fields that differ, with what stands behind them. -/
theorem listAhead_pieces {isNumber : Prop} {low high restLow restHigh : List (List Char)}
    (hlow : ∀ p ∈ low, ∀ c ∈ p, c.isAlphanum = true)
    (hlt : ¬ isNumber → ['-'].intercalate low < ['-'].intercalate high) :
    parts.ListAhead ['0'] (high ++ restHigh) (low ++ restLow) ↔
      PiecesKept isNumber restLow restHigh low high := by
  induction low generalizing high with
  | nil => exact (piecesKept_end (Or.inl rfl)).symm
  | cons p low ih =>
    cases high with
    | nil => exact (piecesKept_end (Or.inr rfl)).symm
    | cons q high =>
      have hrest : ∀ r ∈ low, ∀ c ∈ r, c.isAlphanum = true :=
        fun r hr => hlow r (List.mem_cons_of_mem p hr)
      rw [PiecesKept, List.cons_append, List.cons_append]
      by_cases hpq : p = q
      · subst hpq
        rw [if_pos rfl]
        refine (Comparison.listAhead_append [p]).trans ?_
        by_cases hend : low = [] ∨ high = []
        · exact (piecesKept_end hend).symm
        · obtain ⟨hlow', hhigh'⟩ := not_or.mp hend
          refine ih hrest fun hword => ?_
          have hjoin := hlt hword
          rw [join_cons, join_cons, if_neg hlow', if_neg hhigh'] at hjoin
          rcases List.cons_lt_cons_iff.mp (lt_of_append_left hjoin) with h | h
          · exact absurd h (lt_irrefl _)
          · exact h.2
      · rw [if_neg hpq, Comparison.listAhead_cons]
        split
        next n m hn hm =>
          have habove : parts.above q p ↔ n < m := above_of_numbers hm hn
          have hsame : parts.same q p ↔ n = m := (same_of_numbers hm hn).trans eq_comm
          rw [habove, hsame]
        next hnot =>
          have htext : parseU64 q = none ∨ parseU64 p = none := by
            by_contra hboth
            obtain ⟨hq, hp⟩ := not_or.mp hboth
            obtain ⟨n, hn⟩ := Option.ne_none_iff_exists'.mp hp
            obtain ⟨m, hm⟩ := Option.ne_none_iff_exists'.mp hq
            exact hnot n m hn hm
          have habove : parts.above q p ↔ p < q := above_of_text htext
          have hdiffer : ¬ parts.same q p := fun h => hpq ((same_of_text htext).mp h).symm
          rw [habove, or_iff_left fun h => hdiffer h.1]
          refine ⟨fun h _ => h, fun h => ?_⟩
          by_cases hnumber : isNumber
          · exact h hnumber
          · have hjoin := hlt hnumber
            rw [join_cons, join_cons] at hjoin
            refine lt_of_append_lt (hlow p List.mem_cons_self) ?_ hpq hjoin
            split_ifs
            · exact Or.inl rfl
            · exact Or.inr ⟨_, rfl⟩

theorem isAlphanum_of_pieces {x : Identifier} {p : List Char} (hp : p ∈ pieces x) {c : Char}
    (hc : c ∈ p) : c.isAlphanum = true := by
  cases x with
  | numeric n =>
    have hmem : p ∈ [Nat.toDigits 10 n] := splitVersion_toDigits n ▸ hp
    obtain rfl := List.mem_singleton.mp hmem
    have hdigit : c.isDigit = true := Nat.isDigit_of_mem_toDigits (by decide) (by decide) hc
    simp [Char.isAlphanum, hdigit]
  | word w => exact (splitVersion_word w.chars).2 p hp c hc

theorem isAlphanum_of_prePieces {xs : List Identifier} {p : List Char} (hp : p ∈ prePieces xs)
    {c : Char} (hc : c ∈ p) : c.isAlphanum = true := by
  obtain ⟨x, -, hp⟩ := List.mem_flatMap.mp hp
  exact isAlphanum_of_pieces hp hc

theorem Identifier.not_lower_self (x : Identifier) : ¬ x.Lower x := by
  cases x with
  | numeric n => exact lt_irrefl n
  | word w => exact lt_irrefl w.text

/-- Two pre-releases. -/
theorem listAhead_prePieces {low high : List Identifier} (h : List.Lex Identifier.Lower low high) :
    parts.ListAhead ['0'] (prePieces high) (prePieces low) ↔ PreKept low high := by
  induction low generalizing high with
  | nil =>
    rw [PreKept]
    exact ahead_nil_iff fun p hp c hc => isAlphanum_of_prePieces hp hc
  | cons x low ih =>
    cases high with
    | nil => cases h
    | cons y high =>
      rw [PreKept]
      have hcons : ∀ (x : Identifier) xs, prePieces (x :: xs) = pieces x ++ prePieces xs :=
        fun x xs => List.flatMap_cons
      rw [hcons, hcons]
      by_cases hxy : x = y
      · subst hxy
        rw [if_pos rfl, Comparison.listAhead_append]
        cases h with
        | cons h => exact ih h
        | rel h => exact absurd h x.not_lower_self
      · have hlower : x.Lower y := by
          cases h with
          | cons h => exact absurd rfl hxy
          | rel h => exact h
        rw [if_neg hxy]
        refine listAhead_pieces (fun p hp c hc => isAlphanum_of_pieces hp hc) fun hword => ?_
        cases x with
        | numeric n => exact absurd ⟨n, rfl⟩ hword
        | word u =>
          cases y with
          | numeric m => exact absurd hlower id
          | word w =>
            simp only [pieces, Identifier.text]
            rw [(splitVersion_word u.chars).1, (splitVersion_word w.chars).1]
            exact hlower

/-! ## The order of versions -/

/-- Of two versions the one with higher precedence is newer if and only if the order is kept. -/
theorem isNewer_iff_orderKept {low high : SemVer} (h : low.Lower high) :
    isNewer high.text low.text = true ↔ OrderKept low high := by
  rw [isNewer_iff, splitVersion_text, splitVersion_text, OrderKept]
  rcases h with hcore | ⟨hcore, hpre⟩
  · have hlen : low.core.length = high.core.length := rfl
    rw [if_pos hcore.ne]
    exact listAhead_core hlen hcore _ _
  · rw [if_neg (not_not.mpr hcore), hcore, Comparison.listAhead_append]
    cases hlow : low.preRelease with
    | nil =>
      rw [hlow] at hpre
      exact absurd hpre id
    | cons x xs =>
      cases hhigh : high.preRelease with
      | nil =>
        rw [if_pos rfl]
        exact release_ahead_iff fun p hp c hc => isAlphanum_of_prePieces hp hc
      | cons y ys =>
        rw [hlow, hhigh] at hpre
        rw [if_neg (List.cons_ne_nil y ys)]
        exact listAhead_prePieces hpre

theorem Identifier.lower_total {x y : Identifier} (h : x ≠ y) : x.Lower y ∨ y.Lower x := by
  cases x with
  | numeric n =>
    cases y with
    | numeric m => exact lt_or_gt_of_ne fun heq => h (by rw [heq])
    | word w => exact Or.inl trivial
  | word u =>
    cases y with
    | numeric m => exact Or.inr trivial
    | word w =>
      refine lt_or_gt_of_ne fun heq => h ?_
      cases u
      cases w
      cases heq
      rfl

theorem lex_total {xs ys : List Identifier} (h : xs ≠ ys) :
    List.Lex Identifier.Lower xs ys ∨ List.Lex Identifier.Lower ys xs := by
  induction xs generalizing ys with
  | nil =>
    cases ys with
    | nil => exact absurd rfl h
    | cons y ys => exact Or.inl .nil
  | cons x xs ih =>
    cases ys with
    | nil => exact Or.inr .nil
    | cons y ys =>
      by_cases hxy : x = y
      · subst hxy
        rcases ih fun heq => h (by rw [heq]) with hlex | hlex
        · exact Or.inl (.cons hlex)
        · exact Or.inr (.cons hlex)
      · rcases Identifier.lower_total hxy with hlower | hlower
        · exact Or.inl (.rel hlower)
        · exact Or.inr (.rel hlower)

/-- Two versions are ordered by their precedence. -/
theorem SemVer.lower_total {v w : SemVer} (h : v ≠ w) : v.Lower w ∨ w.Lower v := by
  unfold SemVer.Lower
  rcases lt_trichotomy v.core w.core with hlt | heq | hgt
  · exact Or.inl (Or.inl hlt)
  · have hpre : v.preRelease ≠ w.preRelease := by
      intro hpre
      obtain ⟨a, b, c, xs⟩ := v
      obtain ⟨a', b', c', ys⟩ := w
      simp only [SemVer.core, List.cons.injEq, and_true] at heq
      obtain ⟨rfl, rfl, rfl⟩ := heq
      exact h (congrArg _ hpre)
    cases hv : v.preRelease with
    | nil =>
      cases hw : w.preRelease with
      | nil => exact absurd (hv.trans hw.symm) hpre
      | cons y ys => exact Or.inr (Or.inr ⟨heq.symm, trivial⟩)
    | cons x xs =>
      cases hw : w.preRelease with
      | nil => exact Or.inl (Or.inr ⟨heq, trivial⟩)
      | cons y ys =>
        rw [hv, hw] at hpre
        rcases lex_total hpre with hlex | hlex
        · exact Or.inl (Or.inr ⟨heq, hlex⟩)
        · exact Or.inr (Or.inr ⟨heq.symm, hlex⟩)
  · exact Or.inr (Or.inl hgt)

/-- `is_newer` is irreflexive and asymmetric; of three versions it is transitive if and only if
they do not go in a circle, and it follows the precedence of two versions if and only if their
order is kept. -/
theorem isNewer_order (a b c : List Char) (v w : SemVer) :
    isNewer a a = false ∧ (isNewer a b = true → isNewer b a = false) ∧
    ((isNewer a b = true → isNewer b c = true → isNewer a c = true) ↔ NoCircle a b c) ∧
    (((isNewer v.text w.text = true ↔ w.Lower v) ∧
        (isNewer w.text v.text = true ↔ v.Lower w)) ↔
      (w.Lower v → OrderKept w v) ∧ (v.Lower w → OrderKept v w)) := by
  refine ⟨newer_irrefl a, newer_asymm, newer_trans_iff a b c, ?_, ?_⟩
  · rintro ⟨hvw, hwv⟩
    exact ⟨fun h => (isNewer_iff_orderKept h).mp (hvw.mpr h),
      fun h => (isNewer_iff_orderKept h).mp (hwv.mpr h)⟩
  · rintro ⟨hvw, hwv⟩
    have hv : w.Lower v → isNewer v.text w.text = true :=
      fun h => (isNewer_iff_orderKept h).mpr (hvw h)
    have hw : v.Lower w → isNewer w.text v.text = true :=
      fun h => (isNewer_iff_orderKept h).mpr (hwv h)
    have hone : isNewer v.text w.text = true → isNewer w.text v.text = true → False :=
      fun h h' => by simp [newer_asymm h] at h'
    have hself : v ≠ w ∨ isNewer v.text w.text = false ∧ isNewer w.text v.text = false := by
      by_cases heq : v = w
      · subst heq
        exact Or.inr ⟨newer_irrefl _, newer_irrefl _⟩
      · exact Or.inl heq
    constructor
    · refine ⟨fun h => ?_, hv⟩
      rcases hself with hne | hneither
      · exact (SemVer.lower_total hne).resolve_left fun hl => hone h (hw hl)
      · simp [hneither.1] at h
    · refine ⟨fun h => ?_, hw⟩
      rcases hself with hne | hneither
      · exact (SemVer.lower_total hne).resolve_right fun hl => hone (hv hl) h
      · simp [hneither.2] at h

/-- `10` is newer than `2` and `2` newer than `1a`, but `10` is not newer than `1a`; and a release
candidate is newer than its release. -/
theorem newer_circle :
    (isNewer "10".toList "2".toList = true ∧ isNewer "2".toList "1a".toList = true ∧
      isNewer "10".toList "1a".toList = false) ∧
    let rc : SemVer :=
      ⟨1, 0, 0, [.word ⟨"rc".toList, List.all_iff_forall_prop.mp (by decide), 'r', by decide⟩]⟩
    let release : SemVer := ⟨1, 0, 0, []⟩
    rc.text = "1.0.0-rc".toList ∧ release.text = "1.0.0".toList ∧ rc.Lower release ∧
      isNewer rc.text release.text = true := by
  refine ⟨by decide, by decide, by decide, ?_, by decide⟩
  exact Or.inr ⟨rfl, trivial⟩

end Rahgozar.Update
