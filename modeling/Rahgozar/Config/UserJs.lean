import Rahgozar.Lib.Trim
import Rahgozar.Update.Download

set_option autoImplicit false

/-! # The browser's `user.js` (`src/cert_installer.rs`)

Installing the certificate appends a marker line and a preference to `user.js`, and removing it
strips them again. A file that names the preference by itself belongs to the user.
-/

namespace Rahgozar.Config.UserJs

open Drive (trim isWhitespace)
open Update.Download (lines)

/-! ## The functions -/

def fxMarker : List Char := "// rahgozar: auto-added, safe to strip with --remove-cert".toList
def fxPref : List Char := "user_pref(\"security.enterprise_roots.enabled\", true);".toList

/-- What `contains` looks for. -/
def prefName : List Char := "security.enterprise_roots.enabled".toList

inductive EnterpriseRootsEdit where
  | addedBlock (text : List Char)
  | alreadyOurs
  | userOwned
deriving DecidableEq

/-- The loop of `contains_our_block`, with the line before. -/
def containsBlock : Option (List Char) → List (List Char) → Bool
  | _, [] => false
  | prev, line :: rest =>
      if prev.map trim = some fxMarker ∧ trim line = fxPref then true
      else containsBlock (some line) rest

def containsOurBlock (existing : List Char) : Bool := containsBlock none (lines existing)

/-- The text with its last line ended. -/
def ended (text : List Char) : List Char :=
  if text ≠ [] ∧ text.getLast? ≠ some '\n' then text ++ ['\n'] else text

def addEnterpriseRootsBlock (existing : List Char) : EnterpriseRootsEdit :=
  if containsOurBlock existing then .alreadyOurs
  else if prefName <:+: existing then .userOwned
  else .addedBlock (ended existing ++ fxMarker ++ ['\n'] ++ fxPref ++ ['\n'])

/-- The loop of `strip_enterprise_roots_block`. -/
def stripLoop : List (List Char) → List (List Char)
  | [] => []
  | [line] => [line]
  | line :: next :: rest =>
      if trim line = fxMarker ∧ trim next = fxPref then stripLoop rest
      else line :: stripLoop (next :: rest)

def stripEnterpriseRootsBlock (existing : List Char) : Option (List Char) :=
  if containsOurBlock existing then
    let joined := ['\n'].intercalate (stripLoop (lines existing))
    some (if existing.getLast? = some '\n' ∧ joined ≠ [] then joined ++ ['\n'] else joined)
  else none

/-! ## Rows -/

/-- Rows, each with its end. -/
def unlines (rows : List (List Char)) : List Char := rows.flatMap (· ++ ['\n'])

/-- A row as `lines` gives it. -/
def chomp (row : List Char) : List Char :=
  if row.getLast? = some '\r' then row.dropLast else row

theorem unlines_append (rows rows' : List (List Char)) :
    unlines (rows ++ rows') = unlines rows ++ unlines rows' := List.flatMap_append

theorem getLast?_unlines {rows : List (List Char)} (h : rows ≠ []) :
    (unlines rows).getLast? = some '\n' := by
  obtain ⟨front, row, rfl⟩ := (List.eq_nil_or_concat rows).resolve_left h
  simp [unlines]

theorem splitOn_unlines {rows : List (List Char)} (h : ∀ row ∈ rows, '\n' ∉ row) :
    (unlines rows).splitOn '\n' = rows ++ [[]] := by
  induction rows with
  | nil => rfl
  | cons row rows ih =>
      have hrow : ∀ c ∈ row, (c == '\n') = false := fun c hc => by
        rw [beq_eq_false_iff_ne]
        rintro rfl
        exact h row List.mem_cons_self hc
      have hcons : unlines (row :: rows) = row ++ '\n' :: unlines rows := by
        simp [unlines]
      rw [hcons, List.splitOn, List.splitOnP_append_cons_of_forall_mem hrow '\n' rfl,
        List.cons_append, ← ih fun row' hrow' => h row' (List.mem_cons_of_mem row hrow')]
      rfl

theorem lines_unlines {rows : List (List Char)} (h : ∀ row ∈ rows, '\n' ∉ row) :
    lines (unlines rows) = rows.map chomp := by
  unfold lines
  simp only [splitOn_unlines h, List.dropLast_concat, List.getLast?_concat]
  rfl

theorem unlines_cons (row : List Char) (rows : List (List Char)) :
    unlines (row :: rows) = row ++ '\n' :: unlines rows := by
  simp [unlines]

theorem exists_rows_last (text : List Char) : ∃ rows last, text = unlines rows ++ last ∧
    (∀ row ∈ rows, '\n' ∉ row) ∧ '\n' ∉ last := by
  induction text with
  | nil => exact ⟨[], [], rfl, nofun, nofun⟩
  | cons c text ih =>
      obtain ⟨rows, last, rfl, hrows, hlast⟩ := ih
      by_cases hc : c = '\n'
      · subst hc
        exact ⟨[] :: rows, last, rfl, List.forall_mem_cons.mpr ⟨nofun, hrows⟩, hlast⟩
      · cases rows with
        | nil =>
            refine ⟨[], c :: last, rfl, nofun, ?_⟩
            simpa using ⟨Ne.symm hc, hlast⟩
        | cons row rows =>
            obtain ⟨hrow, hrest⟩ := List.forall_mem_cons.mp hrows
            refine ⟨(c :: row) :: rows, last, rfl, List.forall_mem_cons.mpr ⟨?_, hrest⟩, hlast⟩
            simpa using ⟨Ne.symm hc, hrow⟩

theorem infix_unlines {rows : List (List Char)} {row : List Char} (h : row ∈ rows) :
    row <:+: unlines rows := by
  obtain ⟨front, back, rfl⟩ := List.append_of_mem h
  rw [unlines_append, unlines_cons]
  exact ⟨unlines front, '\n' :: unlines back, by simp⟩

/-- A text whose last line is ended is a text of rows. -/
theorem exists_rows (text : List Char) : ∃ rows, (∀ row ∈ rows, '\n' ∉ row ∧ row <:+: text) ∧
    ended text = unlines rows := by
  obtain ⟨rows, last, rfl, hrows, hlast⟩ := exists_rows_last text
  have hinfix : ∀ row ∈ rows, row <:+: unlines rows ++ last := fun row hrow =>
    (infix_unlines hrow).trans (List.prefix_append _ _).isInfix
  by_cases hnil : last = []
  · subst hnil
    refine ⟨rows, fun row hrow => ⟨hrows row hrow, hinfix row hrow⟩, ?_⟩
    rw [List.append_nil]
    refine if_neg fun h => h.2 (getLast?_unlines ?_)
    rintro rfl
    exact h.1 rfl
  · refine ⟨rows ++ [last], fun row hrow => ?_, ?_⟩
    · rcases List.mem_append.mp hrow with hrow | hrow
      · exact ⟨hrows row hrow, hinfix row hrow⟩
      · rw [List.mem_singleton.mp hrow]
        exact ⟨hlast, (List.suffix_append _ _).isInfix⟩
    · have hopen : (unlines rows ++ last).getLast? ≠ some '\n' := by
        rw [List.getLast?_append_of_ne_nil _ hnil]
        exact fun h => hlast (List.mem_of_getLast? h)
      rw [ended, if_pos ⟨List.append_ne_nil_of_right_ne_nil _ hnil, hopen⟩, unlines_append]
      simp [unlines]

/-! ## The block -/

theorem chomp_eq_self_iff {row : List Char} : chomp row = row ↔ row.getLast? ≠ some '\r' := by
  unfold chomp
  split_ifs with hcr
  · refine ⟨fun h => ?_, fun h => absurd hcr h⟩
    have hne : row ≠ [] := by
      rintro rfl
      cases hcr
    have hlength := congrArg List.length h
    have hpos := List.length_pos_of_ne_nil hne
    rw [List.length_dropLast] at hlength
    omega
  · exact ⟨fun _ => hcr, fun _ => rfl⟩

theorem map_chomp_eq_self_iff {rows : List (List Char)} :
    rows.map chomp = rows ↔ ∀ row ∈ rows, row.getLast? ≠ some '\r' := by
  have hid : rows.map id = rows := List.map_id rows
  constructor
  · intro h row hrow
    exact chomp_eq_self_iff.mp (List.map_inj_left.mp (h.trans hid.symm) row hrow)
  · intro h
    exact (List.map_inj_left.mpr fun row hrow => chomp_eq_self_iff.mpr (h row hrow)).trans hid

theorem containsBlock_append (prev : Option (List Char)) (rows : List (List Char)) :
    containsBlock prev (rows ++ [fxMarker, fxPref]) = true := by
  induction rows generalizing prev with
  | nil =>
      show containsBlock prev [fxMarker, fxPref] = true
      have hfirst : ¬ (prev.map trim = some fxMarker ∧ trim fxMarker = fxPref) :=
        fun h => absurd h.2 (by decide)
      have hsecond : (some fxMarker).map trim = some fxMarker ∧ trim fxPref = fxPref := by decide
      rw [containsBlock, if_neg hfirst, containsBlock, if_pos hsecond]
  | cons row rows ih =>
      rw [List.cons_append, containsBlock]
      split_ifs
      · rfl
      · exact ih (some row)

/-- The loop takes the block and leaves the rows before it, among which there is no preference. -/
theorem stripLoop_append {rows : List (List Char)} (h : ∀ row ∈ rows, trim row ≠ fxPref) :
    stripLoop (rows ++ [fxMarker, fxPref]) = rows := by
  have hblock : trim fxMarker = fxMarker ∧ trim fxPref = fxPref := by decide
  have hmarker : trim fxMarker ≠ fxPref := by decide
  induction rows with
  | nil => exact if_pos hblock
  | cons row rows ih =>
      obtain ⟨-, hrest⟩ := List.forall_mem_cons.mp h
      cases rows with
      | nil =>
          show stripLoop (row :: fxMarker :: [fxPref]) = [row]
          rw [stripLoop, if_neg fun h => hmarker h.2]
          exact congrArg (row :: ·) (if_pos hblock)
      | cons next rows =>
          show stripLoop (row :: next :: (rows ++ [fxMarker, fxPref])) = row :: next :: rows
          rw [stripLoop, if_neg fun h => hrest next List.mem_cons_self h.2]
          exact congrArg (row :: ·) (ih hrest)

/-- A row that is the preference names it. -/
theorem infix_of_trim {row : List Char} (h : trim row = fxPref) : prefName <:+: row := by
  obtain ⟨v, w, -, -, hrow⟩ := Trim.exists_append_trim_append isWhitespace row
  have hname : prefName <:+: fxPref := by decide
  rw [show Trim.trim isWhitespace row = fxPref from h] at hrow
  exact hname.trans ⟨v, w, hrow⟩

theorem infix_of_chomp (row : List Char) : chomp row <:+: row := by
  unfold chomp
  split_ifs
  · exact (List.dropLast_prefix row).isInfix
  · exact List.infix_rfl

theorem unlines_eq_intercalate {rows : List (List Char)} (h : rows ≠ []) :
    unlines rows = ['\n'].intercalate rows ++ ['\n'] := by
  induction rows with
  | nil => exact absurd rfl h
  | cons row rows ih =>
      cases rows with
      | nil => simp [unlines, List.intercalate]
      | cons next rows =>
          rw [unlines_cons, ih (List.cons_ne_nil _ _), List.intercalate_cons_cons]
          simp

/-- Stripping what was added gives the rows back, but for carriage returns. -/
theorem strip_unlines {rows : List (List Char)}
    (h : ∀ row ∈ rows, '\n' ∉ row ∧ ¬ prefName <:+: row) :
    stripEnterpriseRootsBlock (unlines (rows ++ [fxMarker, fxPref])) =
      some (if ['\n'].intercalate (rows.map chomp) = [] then []
        else unlines (rows.map chomp)) := by
  have hfree : ∀ row ∈ rows ++ [fxMarker, fxPref], '\n' ∉ row := by
    intro row hrow
    rcases List.mem_append.mp hrow with hrow | hrow
    · exact (h row hrow).1
    · rcases List.mem_pair.mp hrow with rfl | rfl <;> decide
  have hlines : lines (unlines (rows ++ [fxMarker, fxPref])) =
      rows.map chomp ++ [fxMarker, fxPref] := by
    rw [lines_unlines hfree, List.map_append]
    rfl
  have hpref : ∀ row ∈ rows.map chomp, trim row ≠ fxPref := by
    intro row hrow hp
    obtain ⟨row', hrow', rfl⟩ := List.mem_map.mp hrow
    exact (h row' hrow').2 ((infix_of_trim hp).trans (infix_of_chomp row'))
  have hend : (unlines (rows ++ [fxMarker, fxPref])).getLast? = some '\n' :=
    getLast?_unlines (List.append_ne_nil_of_right_ne_nil _ (List.cons_ne_nil _ _))
  rw [stripEnterpriseRootsBlock, containsOurBlock, hlines, if_pos (containsBlock_append _ _),
    stripLoop_append hpref]
  dsimp only
  by_cases hjoined : ['\n'].intercalate (rows.map chomp) = []
  · have hopen : ¬ ((unlines (rows ++ [fxMarker, fxPref])).getLast? = some '\n' ∧
        ['\n'].intercalate (rows.map chomp) ≠ []) := fun h => h.2 hjoined
    rw [if_neg hopen, if_pos hjoined, hjoined]
  · have hne : rows.map chomp ≠ [] := fun hnil => hjoined (by rw [hnil]; rfl)
    rw [if_pos ⟨hend, hjoined⟩, if_neg hjoined, unlines_eq_intercalate hne]

theorem unlines_injective {rows rows' : List (List Char)} (h : ∀ row ∈ rows, '\n' ∉ row)
    (h' : ∀ row ∈ rows', '\n' ∉ row) (heq : unlines rows = unlines rows') : rows = rows' := by
  have hsplit := congrArg (List.splitOn '\n') heq
  rw [splitOn_unlines h, splitOn_unlines h'] at hsplit
  exact List.append_cancel_right hsplit

/-- **Removing the certificate gives `user.js` back** as it was, with its last line ended, exactly
if no line of it ends with a carriage return and it is more than one blank line. -/
theorem strip_added_iff {existing out : List Char}
    (h : addEnterpriseRootsBlock existing = .addedBlock out) :
    stripEnterpriseRootsBlock out = some (ended existing) ↔
      (∀ line ∈ (ended existing).splitOn '\n', line.getLast? ≠ some '\r') ∧
        ended existing ≠ ['\n'] := by
  obtain ⟨rows, hrows, hended⟩ := exists_rows existing
  unfold addEnterpriseRootsBlock at h
  split_ifs at h with hours huser
  cases h
  -- the file with the block, row by row
  have hout : ended existing ++ fxMarker ++ ['\n'] ++ fxPref ++ ['\n'] =
      unlines (rows ++ [fxMarker, fxPref]) := by
    rw [unlines_append, hended]
    simp [unlines]
  have hfree : ∀ row ∈ rows, '\n' ∉ row := fun row hrow => (hrows row hrow).1
  have hchomped : ∀ row ∈ rows.map chomp, '\n' ∉ row := by
    intro row hrow
    obtain ⟨row', hrow', rfl⟩ := List.mem_map.mp hrow
    exact fun hc => hfree row' hrow' ((infix_of_chomp row').subset hc)
  rw [hout, strip_unlines fun row hrow => ⟨hfree row hrow, fun hname =>
    huser (hname.trans (hrows row hrow).2)⟩, hended, splitOn_unlines hfree, Option.some.injEq]
  have hblank : unlines rows = ['\n'] ↔ rows = [[]] :=
    ⟨fun heq => unlines_injective hfree (by simp) heq, fun heq => by rw [heq]; rfl⟩
  -- the rows come back without their carriage returns
  have hsame : unlines (rows.map chomp) = unlines rows ↔
      ∀ line ∈ rows ++ [[]], line.getLast? ≠ some '\r' := by
    constructor
    · intro heq line hline
      rcases List.mem_append.mp hline with hline | hline
      · have hmap := unlines_injective hchomped hfree heq
        exact map_chomp_eq_self_iff.mp hmap line hline
      · rw [List.mem_singleton.mp hline]
        nofun
    · intro hall
      rw [map_chomp_eq_self_iff.mpr fun row hrow => hall row (List.mem_append_left _ hrow)]
  rw [← hsame, Ne, hblank]
  by_cases hjoined : ['\n'].intercalate (rows.map chomp) = []
  · -- the rows come back as nothing
    rw [if_pos hjoined]
    by_cases hnil : rows = []
    · subst hnil
      exact ⟨fun _ => ⟨rfl, nofun⟩, fun _ => rfl⟩
    · have hlast := getLast?_unlines hnil
      have hmapped : rows.map chomp ≠ [] := fun hmap => hnil (List.map_eq_nil_iff.mp hmap)
      refine ⟨fun heq => ?_, fun hboth => absurd (hblank.mp ?_) hboth.2⟩
      · rw [← heq] at hlast
        cases hlast
      · rw [← hboth.1, unlines_eq_intercalate hmapped, hjoined]
        rfl
  · rw [if_neg hjoined]
    refine ⟨fun heq => ⟨heq, ?_⟩, fun heq => heq.1⟩
    rintro rfl
    exact hjoined rfl

/-- A file with a comment, a blank line and two settings, the last one without an end of line. -/
def ownLines : List Char :=
  "// mine\n\nuser_pref(\"a\", 1);\nuser_pref(\"b\", false);".toList

theorem strip_added_iff_ownLines :
    stripEnterpriseRootsBlock (ended ownLines ++ fxMarker ++ ['\n'] ++ fxPref ++ ['\n']) =
      some (ended ownLines) := by
  have h : addEnterpriseRootsBlock ownLines =
      .addedBlock (ended ownLines ++ fxMarker ++ ['\n'] ++ fxPref ++ ['\n']) := by decide +kernel
  exact (strip_added_iff h).mpr (by decide +kernel)

end Rahgozar.Config.UserJs
