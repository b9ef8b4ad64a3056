import Mathlib.Data.Char
import Mathlib.Data.List.Lex
import Rahgozar.Drive.Names
import Rahgozar.Lib.FirstDifference

set_option autoImplicit false

/-! # Which version is newer (`src/update_check.rs`)

`is_newer` cuts two versions at their dots and hyphens and compares the parts at the first place
where they differ: as numbers if both are numbers of 64 bits, as texts otherwise. A version that
has no more parts goes on with zeros.
-/

namespace Rahgozar.Update

open Drive (parseUnsigned)

/-! ## The function -/

/-- `str::parse::<u64>` -/
def parseU64 (part : List Char) : Option Nat := parseUnsigned (2 ^ 64) part

/-- `split(['.', '-'])` -/
def splitVersion (version : List Char) : List (List Char) :=
  version.splitOnP fun c => c == '.' || c == '-'

/-- `parts.get(i).unwrap_or(&"0")` -/
def partAt (parts : List (List Char)) (i : Nat) : List Char := parts.getD i ['0']

/-- The loop of `is_newer` over the places of the list. -/
def newerAt (partsA partsB : List (List Char)) : List Nat → Bool
  | [] => false
  | i :: places =>
      let pa := partAt partsA i
      let pb := partAt partsB i
      match parseU64 pa, parseU64 pb with
      | some na, some nb => if na ≠ nb then nb < na else newerAt partsA partsB places
      | _, _ => if pa ≠ pb then pb < pa else newerAt partsA partsB places

def isNewer (a b : List Char) : Bool :=
  let partsA := splitVersion a
  let partsB := splitVersion b
  newerAt partsA partsB (List.range (max partsA.length partsB.length))

/-! ## Parts -/

/-- Parts that `is_newer` passes over: equal numbers, or equal texts. -/
def Same (x y : List Char) : Prop :=
  match parseU64 x, parseU64 y with
  | some n, some m => n = m
  | _, _ => x = y

/-- Parts of which the first makes its version newer. -/
def Above (x y : List Char) : Prop :=
  match parseU64 x, parseU64 y with
  | some n, some m => m < n
  | _, _ => y < x

theorem same_of_numbers {x y : List Char} {n m : Nat} (hx : parseU64 x = some n)
    (hy : parseU64 y = some m) : Same x y ↔ n = m := by
  simp only [Same, hx, hy]

theorem above_of_numbers {x y : List Char} {n m : Nat} (hx : parseU64 x = some n)
    (hy : parseU64 y = some m) : Above x y ↔ m < n := by
  simp only [Above, hx, hy]

/-- Where one of the parts is no number, they are compared as texts. -/
theorem same_of_text {x y : List Char} (h : parseU64 x = none ∨ parseU64 y = none) :
    Same x y ↔ x = y := by
  unfold Same
  split
  next hx hy => simp [hx, hy] at h
  next => rfl

theorem above_of_text {x y : List Char} (h : parseU64 x = none ∨ parseU64 y = none) :
    Above x y ↔ y < x := by
  unfold Above
  split
  next hx hy => simp [hx, hy] at h
  next => rfl

/-- Parts are the same if their numbers are, or their texts where there is no number. -/
theorem same_iff {x y : List Char} :
    Same x y ↔ parseU64 x = parseU64 y ∧ (parseU64 x = none → x = y) := by
  cases hx : parseU64 x with
  | none =>
    rw [same_of_text (Or.inl hx)]
    constructor
    · rintro rfl
      exact ⟨hx.symm, fun _ => rfl⟩
    · rintro ⟨-, h⟩
      exact h rfl
  | some n =>
    cases hy : parseU64 y with
    | none =>
      rw [same_of_text (Or.inr hy)]
      constructor
      · rintro rfl
        exact absurd (hx.symm.trans hy) (by simp)
      · rintro ⟨h, -⟩
        exact absurd h (by simp)
    | some m => simp [same_of_numbers hx hy]

/-- How `is_newer` compares two parts. -/
def parts : Comparison (List Char) where
  same := Same
  above := Above
  equivalence := by
    refine ⟨fun x => same_iff.mpr ⟨rfl, fun _ => rfl⟩, fun h => ?_, fun h h' => ?_⟩
    · rw [same_iff] at h ⊢
      exact ⟨h.1.symm, fun hy => (h.2 (h.1.trans hy)).symm⟩
    · rw [same_iff] at h h' ⊢
      exact ⟨h.1.trans h'.1, fun hx => (h.2 hx).trans (h'.2 (h.1.symm.trans hx))⟩
  not_same := by
    intro x y habove hsame
    rw [same_iff] at hsame
    cases hx : parseU64 x with
    | none =>
      obtain rfl := hsame.2 hx
      exact lt_irrefl x ((above_of_text (Or.inl hx)).mp habove)
    | some n => exact lt_irrefl n ((above_of_numbers hx (hsame.1 ▸ hx)).mp habove)
  asymm := by
    intro x y hxy hyx
    by_cases htext : parseU64 x = none ∨ parseU64 y = none
    · rw [above_of_text htext] at hxy
      rw [above_of_text htext.symm] at hyx
      exact lt_asymm hxy hyx
    · obtain ⟨hx, hy⟩ := not_or.mp htext
      obtain ⟨n, hn⟩ := Option.ne_none_iff_exists'.mp hx
      obtain ⟨m, hm⟩ := Option.ne_none_iff_exists'.mp hy
      exact lt_asymm ((above_of_numbers hn hm).mp hxy) ((above_of_numbers hm hn).mp hyx)
  total := by
    intro x y hdiffer
    by_cases htext : parseU64 x = none ∨ parseU64 y = none
    · rw [same_of_text htext] at hdiffer
      rw [above_of_text htext, above_of_text htext.symm]
      exact lt_or_gt_of_ne (Ne.symm hdiffer)
    · obtain ⟨hx, hy⟩ := not_or.mp htext
      obtain ⟨n, hn⟩ := Option.ne_none_iff_exists'.mp hx
      obtain ⟨m, hm⟩ := Option.ne_none_iff_exists'.mp hy
      rw [same_of_numbers hn hm] at hdiffer
      rw [above_of_numbers hn hm, above_of_numbers hm hn]
      exact lt_or_gt_of_ne (Ne.symm hdiffer)

/-- One place of the loop. -/
theorem newerAt_cons {partsA partsB : List (List Char)} {i : Nat} {places : List Nat} :
    newerAt partsA partsB (i :: places) = true ↔
      Above (partAt partsA i) (partAt partsB i) ∨
        Same (partAt partsA i) (partAt partsB i) ∧ newerAt partsA partsB places = true := by
  rw [newerAt]
  by_cases htext : parseU64 (partAt partsA i) = none ∨ parseU64 (partAt partsB i) = none
  · rw [above_of_text htext, same_of_text htext]
    split
    next hx hy => simp [hx, hy] at htext
    next =>
      split_ifs with hdiffer
      · simp [hdiffer]
      · obtain heq := not_not.mp hdiffer
        simp [heq]
  · obtain ⟨hx, hy⟩ := not_or.mp htext
    obtain ⟨n, hn⟩ := Option.ne_none_iff_exists'.mp hx
    obtain ⟨m, hm⟩ := Option.ne_none_iff_exists'.mp hy
    rw [above_of_numbers hn hm, same_of_numbers hn hm]
    simp only [hn, hm]
    split_ifs with hdiffer
    · simp [hdiffer]
    · obtain rfl := not_not.mp hdiffer
      simp

/-- The loop looks for the first difference; behind the longer version there is none. -/
theorem newerAt_range' {partsA partsB : List (List Char)} {i m : Nat}
    (hend : ∀ j, i + m ≤ j → partAt partsA j = partAt partsB j) :
    newerAt partsA partsB (List.range' i m) = true ↔
      parts.Ahead i (partAt partsA) (partAt partsB) := by
  induction m generalizing i with
  | zero =>
    refine iff_of_false (by simp [newerAt]) ?_
    rintro ⟨k, hk, -, habove⟩
    rw [hend k (by omega)] at habove
    exact parts.asymm habove habove
  | succ m ih =>
    rw [List.range'_succ, newerAt_cons, ih fun j hj => hend j (by omega)]
    exact (Comparison.ahead_iff (c := parts)).symm

theorem isNewer_iff {a b : List Char} : isNewer a b = true ↔
    parts.ListAhead ['0'] (splitVersion a) (splitVersion b) := by
  unfold isNewer
  dsimp only
  rw [List.range_eq_range', newerAt_range']
  · rfl
  · intro j hj
    have hzero : ∀ l : List (List Char), l.length ≤ j → partAt l j = ['0'] :=
      fun l hl => by rw [partAt, List.getD_eq_getElem?_getD, List.getElem?_eq_none hl]; rfl
    rw [hzero _ (by omega), hzero _ (by omega)]

/-! ## Three versions -/

/-- `word` is no number, and as a text it stands between the numbers `lo` and `hi`. -/
structure WordBetween (lo word hi : List Char) : Prop where
  lo_number : (parseU64 lo).isSome
  hi_number : (parseU64 hi).isSome
  word_text : parseU64 word = none
  lo_lt : lo < word
  lt_hi : word < hi

/-- The part of a version at a place. -/
def component (version : List Char) (i : Nat) : List Char := partAt (splitVersion version) i

/-- At the first place where the three versions are not the same there are not two numbers with a
word between them as texts of which the textually smaller number belongs to the version that is
ahead from there on. -/
def NoCircle (a b c : List Char) : Prop :=
  ∀ i, (∀ j < i, Same (component a j) (component b j) ∧ Same (component b j) (component c j)) →
    ¬ (WordBetween (component a i) (component c i) (component b i) ∧
        parts.Ahead i (component a) (component b)) ∧
    ¬ (WordBetween (component b i) (component a i) (component c i) ∧
        parts.Ahead i (component b) (component c)) ∧
    ¬ (WordBetween (component c i) (component b i) (component a i) ∧
        ¬ parts.Ahead i (component a) (component c))

theorem isNewer_iff_ahead {a b : List Char} :
    isNewer a b = true ↔ parts.Ahead 0 (component a) (component b) := isNewer_iff

/-- Parts that are all numbers, or of which at most one is a number, are handed on: they are
compared by their values, or all of them as texts. -/
theorem ahead_trans_of_few {f g h : Nat → List Char} {i : Nat}
    (hkinds : (∀ x ∈ [f i, g i, h i], (parseU64 x).isSome) ∨
      ∀ x ∈ [f i, g i, h i], ∀ y ∈ [f i, g i, h i], x = y ∨ parseU64 x = none ∨ parseU64 y = none)
    (hdiffer : ¬ (Same (f i) (g i) ∧ Same (g i) (h i)))
    (hfg : parts.Ahead i f g) (hgh : parts.Ahead i g h) : parts.Ahead i f h := by
  rcases hkinds with hnumbers | htexts
  · have hvalue : ∀ x ∈ [f i, g i, h i], parseU64 x = some ((parseU64 x).getD 0) := by
      intro x hx
      obtain ⟨n, hn⟩ := Option.isSome_iff_exists.mp (hnumbers x hx)
      rw [hn, Option.getD_some]
    refine Comparison.ahead_trans_of_measure (fun x => (parseU64 x).getD 0) ?_ ?_ hdiffer hfg hgh
    · intro x hx y hy
      exact same_of_numbers (hvalue x hx) (hvalue y hy)
    · intro x hx y hy
      exact above_of_numbers (hvalue x hx) (hvalue y hy)
  · refine Comparison.ahead_trans_of_measure id ?_ ?_ hdiffer hfg hgh
    · intro x hx y hy
      rcases htexts x hx y hy with rfl | htext
      · exact iff_of_true (parts.equivalence.refl x) rfl
      · exact same_of_text htext
    · intro x hx y hy
      rcases htexts x hx y hy with rfl | htext
      · exact iff_of_false (fun habove => parts.asymm habove habove) (lt_irrefl x)
      · exact above_of_text htext

/-- A number and a word are told apart by their texts. -/
theorem ahead_number_word {f g : Nat → List Char} {i : Nat} (hf : (parseU64 (f i)).isSome)
    (hg : parseU64 (g i) = none) :
    f i ≠ g i ∧ (parts.Ahead i f g ↔ g i < f i) ∧ (parts.Ahead i g f ↔ f i < g i) := by
  have hne : f i ≠ g i := fun heq => by simp [heq, hg] at hf
  refine ⟨hne, ?_, ?_⟩
  · rw [Comparison.ahead_of_not_same fun hsame => hne ((same_of_text (Or.inr hg)).mp hsame)]
    exact above_of_text (Or.inr hg)
  · rw [Comparison.ahead_of_not_same fun hsame => hne ((same_of_text (Or.inl hg)).mp hsame).symm]
    exact above_of_text (Or.inl hg)

/-- At one place: the versions go in a circle if there are two numbers and a word between them, and
the versions of the numbers are in the other order. -/
theorem ahead_trans_at_iff {f g h : Nat → List Char} {i : Nat} :
    (¬ (Same (f i) (g i) ∧ Same (g i) (h i)) →
      parts.Ahead i f g → parts.Ahead i g h → parts.Ahead i f h) ↔
    ¬ (WordBetween (f i) (h i) (g i) ∧ parts.Ahead i f g) ∧
    ¬ (WordBetween (g i) (f i) (h i) ∧ parts.Ahead i g h) ∧
    ¬ (WordBetween (h i) (g i) (f i) ∧ ¬ parts.Ahead i f h) := by
  constructor
  · intro htrans
    refine ⟨?_, ?_, ?_⟩
    · rintro ⟨hword, hfg⟩
      obtain ⟨hne, hgh, -⟩ := ahead_number_word (f := g) hword.hi_number hword.word_text
      obtain ⟨-, hfh, -⟩ := ahead_number_word (f := f) hword.lo_number hword.word_text
      have hdiffer : ¬ (Same (f i) (g i) ∧ Same (g i) (h i)) :=
        fun hsame => hne ((same_of_text (Or.inr hword.word_text)).mp hsame.2)
      exact lt_asymm hword.lo_lt (hfh.mp (htrans hdiffer hfg (hgh.mpr hword.lt_hi)))
    · rintro ⟨hword, hgh⟩
      obtain ⟨hne, -, hfg⟩ := ahead_number_word (f := g) hword.lo_number hword.word_text
      obtain ⟨-, -, hfh⟩ := ahead_number_word (f := h) hword.hi_number hword.word_text
      have hdiffer : ¬ (Same (f i) (g i) ∧ Same (g i) (h i)) :=
        fun hsame => hne ((same_of_text (Or.inl hword.word_text)).mp hsame.1).symm
      exact lt_asymm hword.lt_hi (hfh.mp (htrans hdiffer (hfg.mpr hword.lo_lt) hgh))
    · rintro ⟨hword, hfh⟩
      obtain ⟨hne, hfg, -⟩ := ahead_number_word (f := f) hword.hi_number hword.word_text
      obtain ⟨-, -, hgh⟩ := ahead_number_word (f := h) hword.lo_number hword.word_text
      have hdiffer : ¬ (Same (f i) (g i) ∧ Same (g i) (h i)) :=
        fun hsame => hne ((same_of_text (Or.inr hword.word_text)).mp hsame.1)
      exact hfh (htrans hdiffer (hfg.mpr hword.lt_hi) (hgh.mpr hword.lo_lt))
  · rintro ⟨hfirst, hsecond, hthird⟩ hdiffer hfg hgh
    by_contra hfh
    -- by how many of the three parts are numbers; two of them are the circle
    cases hf : parseU64 (f i) with
    | none =>
      cases hg : parseU64 (g i) with
      | none => exact hfh (ahead_trans_of_few (Or.inr (by simp [hf, hg])) hdiffer hfg hgh)
      | some n =>
        cases hh : parseU64 (h i) with
        | none => exact hfh (ahead_trans_of_few (Or.inr (by simp [hf, hh])) hdiffer hfg hgh)
        | some m =>
          have hg' : (parseU64 (g i)).isSome := by rw [hg]; rfl
          have hh' : (parseU64 (h i)).isSome := by rw [hh]; rfl
          obtain ⟨-, -, hfg'⟩ := ahead_number_word (f := g) hg' hf
          obtain ⟨hne, -, hfh'⟩ := ahead_number_word (f := h) hh' hf
          have hlt : f i < h i := lt_of_le_of_ne (not_lt.mp (mt hfh'.mpr hfh)) (Ne.symm hne)
          exact hsecond ⟨⟨hg', hh', hf, hfg'.mp hfg, hlt⟩, hgh⟩
    | some n =>
      have hf' : (parseU64 (f i)).isSome := by rw [hf]; rfl
      cases hg : parseU64 (g i) with
      | none =>
        cases hh : parseU64 (h i) with
        | none => exact hfh (ahead_trans_of_few (Or.inr (by simp [hg, hh])) hdiffer hfg hgh)
        | some m =>
          have hh' : (parseU64 (h i)).isSome := by rw [hh]; rfl
          obtain ⟨-, hfg', -⟩ := ahead_number_word (f := f) hf' hg
          obtain ⟨-, -, hgh'⟩ := ahead_number_word (f := h) hh' hg
          exact hthird ⟨⟨hh', hf', hg, hgh'.mp hgh, hfg'.mp hfg⟩, hfh⟩
      | some m =>
        have hg' : (parseU64 (g i)).isSome := by rw [hg]; rfl
        cases hh : parseU64 (h i) with
        | none =>
          obtain ⟨-, hgh', -⟩ := ahead_number_word (f := g) hg' hh
          obtain ⟨hne, hfh', -⟩ := ahead_number_word (f := f) hf' hh
          have hlt : f i < h i := lt_of_le_of_ne (not_lt.mp (mt hfh'.mpr hfh)) hne
          exact hfirst ⟨⟨hf', hg', hh, hlt, hgh'.mp hgh⟩, hfg⟩
        | some k => exact hfh (ahead_trans_of_few (Or.inl (by simp [hf, hg, hh])) hdiffer hfg hgh)

/-- Being newer is handed on if and only if the versions do not go in a circle. -/
theorem newer_trans_iff (a b c : List Char) :
    (isNewer a b = true → isNewer b c = true → isNewer a c = true) ↔ NoCircle a b c := by
  simp only [isNewer_iff_ahead]
  rw [Comparison.ahead_trans_iff]
  exact forall_congr' fun i => imp_congr_right fun _ => ahead_trans_at_iff

theorem newer_irrefl (a : List Char) : isNewer a a = false := by
  rw [Bool.eq_false_iff, ne_eq, isNewer_iff]
  exact Comparison.not_listAhead_self

theorem newer_asymm {a b : List Char} (h : isNewer a b = true) : isNewer b a = false := by
  rw [Bool.eq_false_iff, ne_eq, isNewer_iff_ahead]
  exact Comparison.ahead_asymm (isNewer_iff_ahead.mp h)

end Rahgozar.Update
