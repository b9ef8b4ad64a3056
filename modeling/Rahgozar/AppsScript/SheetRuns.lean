import Rahgozar.AppsScript.SheetAnswers

set_option autoImplicit false

/-! # The spreadsheet cache over whole runs (`assets/apps_script/Code.gs`)

The rows that are in use, the row of the cursor and the rows that the sheet has are three sizes of
one buffer. A store never looks for an older row of its key, blank rows are inserted as long as the
last rows are not in use, and a clear may leave blank rows anywhere. A run records what has been
stored, and in which row.
-/

namespace Rahgozar.AppsScript

/-! ## The steps of a store -/

namespace Sheet

/-- The row with this number. -/
def rowAt (sheet : Sheet) (n : Nat) : Option Row := (sheet.rows[n - 2]?).join

/-- The number of rows of the sheet behind `_ensureRowsAllocated`. -/
def ensureRowsAllocated (sheet : Sheet) (maxRows : Nat) : Nat :=
  if sheet.numRows < cacheMaxRows + 1 then maxRows + (cacheMaxRows + 1 - sheet.numRows) else maxRows

/-- The number of rows of the sheet behind a store. -/
def allocated (x : Execution) (sheet : Sheet) (maxRows : Nat) : Nat :=
  if x.ok .openMeta then
    if x.ok .ensureRowsAllocated then sheet.ensureRowsAllocated maxRows else maxRows
  else if x.ok .appendRow then max maxRows (sheet.numRows + 1)
  else maxRows

/-- The number of the row that a store writes. -/
def written (x : Execution) (sheet : Sheet) : Option Nat :=
  if x.ok .openMeta then
    if x.ok .ensureRowsAllocated && x.ok .getNextCursor && x.ok .setValues then
      some sheet.getNextCursor
    else none
  else if x.ok .appendRow then some (sheet.numRows + 1)
  else none

theorem writeRow_rows (x : Execution) (sheet : Sheet) (row : Row) :
    (sheet.writeRow x row).1.rows =
      match sheet.written x with
      | none => sheet.rows
      | some n => (sheet.setRow n row).rows := by
  unfold writeRow written
  split
  · split
    · dsimp only
      split
      · rfl
      · rfl
    · rfl
  · split
    · rfl
    · rfl

end Sheet

section

variable (pf : Platform)

/-- The row that a response is stored as, if it gets that far. -/
def rowOf (x : Execution) (url : String) (headers : Option Json) (resp : Response) : Option Row :=
  if 500 ≤ resp.code then none
  else
    match ttlSeconds pf resp with
    | .error _ => none
    | .ok ttl =>
        if ttl = 0 then none
        else if gzips pf resp && !x.ok .gzip then none
        else if cacheMaxBodyBytes < (storedBody pf resp).length then none
        else
          match getCacheKey pf url headers with
          | .error _ => none
          | .ok hash => some {
              hash := hash
              url := url
              status := resp.code
              headers := resp.headers
              body := storedBody pf resp
              timestamp := x.now
              expiresAt := x.now + ttl * 1000
              z := gzips pf resp }

/-- The row that `_fetchAndCache` comes to write. -/
def fetchedRow (x : Execution) (origin : Origin) (url : String) (headers : Option Json) :
    Option Row :=
  if !x.ok .openForStore then none
  else
    match origin ((⟨url, cacheOpts⟩ : FetchArg).sent pf) with
    | .error _ => none
    | .ok resp => rowOf pf x url headers resp

theorem store_sheet (x : Execution) (sheet : Sheet) (url : String) (headers : Option Json)
    (resp : Response) :
    (store pf x sheet url headers resp).1 =
      match rowOf pf x url headers resp with
      | none => sheet
      | some row => (sheet.writeRow x row).1 := by
  unfold store rowOf
  split
  · rfl
  cases ttlSeconds pf resp with
  | error e => rfl
  | ok ttl =>
      dsimp only
      split
      · rfl
      split
      · rfl
      split
      · rfl
      cases getCacheKey pf url headers with
      | error e => rfl
      | ok hash => rfl

theorem fetchAndCache_sheet (origin : Origin) (x : Execution) (sheet : Sheet) (url : String)
    (headers : Option Json) :
    (fetchAndCache pf origin x sheet url headers).2.2 =
      match fetchedRow pf x origin url headers with
      | none => sheet
      | some row => (sheet.writeRow x row).1 := by
  unfold fetchAndCache fetchedRow
  split
  · rfl
  dsimp only
  cases origin ((⟨url, cacheOpts⟩ : FetchArg).sent pf) with
  | error e => rfl
  | ok resp =>
      dsimp only
      rw [← store_sheet]
      cases store pf x sheet url headers resp with
      | mk sheet' done =>
          cases done with
          | true => rfl
          | false => rfl

end

/-! ## Runs -/

/-- A row that has been written, and its number. -/
structure StoredRow where
  number : Nat
  row : Row

/-- The sheet, the number of its rows, and what has been stored, the last one first. -/
structure SheetRun where
  sheet : Sheet
  maxRows : Nat
  stored : List StoredRow

/-- A call of one of the functions, in an execution of its own. -/
inductive SheetOp where
  | fetchAndCache (x : Execution) (origin : Origin) (url : String) (headers : Option Json)
  | getFromCache (x : Execution) (url : String) (headers : Option Json)
  | clearExpiredCache (x : Execution)
  | clearEntireCache (x : Execution)

namespace SheetRun

/-- A sheet with its headings and so many rows. -/
def start (maxRows : Nat) : SheetRun := ⟨.empty, maxRows, []⟩

/-- A row is written to the sheet. -/
def store (x : Execution) (s : SheetRun) (row : Row) : SheetRun :=
  ⟨(s.sheet.writeRow x row).1, s.sheet.allocated x s.maxRows,
    match s.sheet.written x with
    | some n => ⟨n, row⟩ :: s.stored
    | none => s.stored⟩

def step (pf : Platform) (s : SheetRun) : SheetOp → Option SheetRun
  | .fetchAndCache x origin url headers =>
      match fetchedRow pf x origin url headers with
      | none => some s
      | some row => some (s.store x row)
  | .getFromCache _ _ _ => some s
  | .clearExpiredCache x =>
      if x.ok .openForStore then some { s with sheet := s.sheet.clearExpiredCache x.now }
      else some s
  -- the cursor is reset whether or not the rows are cleared
  | .clearEntireCache x =>
      some { s with
        sheet := ⟨if x.ok .openForStore then [] else s.sheet.rows,
          if x.ok .openMeta then some 2 else s.sheet.cursor⟩ }

/-- The sheet of a step is that of the function. -/
theorem step_fetchAndCache (pf : Platform) (s : SheetRun) (x : Execution) (origin : Origin)
    (url : String) (headers : Option Json) :
    (step pf s (.fetchAndCache x origin url headers)).map sheet =
      some (AppsScript.fetchAndCache pf origin x s.sheet url headers).2.2 := by
  rw [fetchAndCache_sheet, step]
  cases fetchedRow pf x origin url headers with
  | none => rfl
  | some row => rfl

/-- What was stored last under this key. -/
def lastStored (s : SheetRun) (hash : String) : Option StoredRow :=
  s.stored.find? fun e => e.row.hash = hash

end SheetRun

/-! ## What is to hold -/

/-- Every row of the buffer has content. -/
def Sheet.AllInUse (sheet : Sheet) : Prop :=
  ∀ n, 2 ≤ n → n ≤ cacheMaxRows + 1 → (sheet.rowAt n).isSome = true

/-- What is served from a row. -/
def Row.served (pf : Platform) (x : Execution) (row : Row) :
    Except String (Option (Nat × Json × Json)) := do
  let body ← row.bodyField pf
  let fresh ← refreshCachedHeaders pf row.headers row.timestamp x.now
  pure (some (row.status, fresh, body))

namespace SheetRun

/-- The sheet has no more rows than those it had and those of the buffer. -/
def Bounded (maxRows : Nat) (s : SheetRun) : Prop := s.maxRows ≤ maxRows + (cacheMaxRows + 1)

/-- A store overwrites a row of another key only when all the rows are in use. -/
def SparesOthers (pf : Platform) (s : SheetRun) : SheetOp → Prop
  | .fetchAndCache x origin url headers =>
      ∀ row n old, fetchedRow pf x origin url headers = some row → s.sheet.written x = some n →
        s.sheet.rowAt n = some old → old.hash ≠ row.hash → s.sheet.AllInUse
  | _ => True

/-- The entry that was stored last under the key of a request: it is still in its row, and has not
expired. -/
structure Due (pf : Platform) (s : SheetRun) (x : Execution) (url : String) (headers : Option Json)
    (e : StoredRow) : Prop where
  key : getCacheKey pf url headers = .ok e.row.hash
  last : s.lastStored e.row.hash = some e
  kept : s.sheet.rowAt e.number = some e.row
  unexpired : ¬e.row.expiresAt < x.now

/-- A lookup that can be made is answered from that entry. -/
def FindsLast (pf : Platform) (s : SheetRun) : SheetOp → Prop
  | .getFromCache x url headers =>
      x.ok .openForLookup = true → x.ok .findNext = true → ∀ e, s.Due pf x url headers e →
        getFromCache pf x s.sheet url headers = e.row.served pf x
  | _ => True

/-! ## When it does -/

/-- The rows that have been added are no more than the rows in use, when more are inserted, and
those in use do not fill the sheet when one is appended. -/
def GrowsWithin (pf : Platform) (maxRows : Nat) (s : SheetRun) : SheetOp → Prop
  | .fetchAndCache x origin url headers =>
      (fetchedRow pf x origin url headers).isSome = true →
        if x.ok .openMeta then
          x.ok .ensureRowsAllocated = true → s.sheet.numRows < cacheMaxRows + 1 →
            s.maxRows ≤ maxRows + s.sheet.numRows
        else x.ok .appendRow = true → s.sheet.numRows ≤ maxRows + cacheMaxRows
  | _ => True

/-- When the last rows are in use and others have been cleared, the cursor is not at a row of
another key. -/
def CursorSpares (pf : Platform) (s : SheetRun) : SheetOp → Prop
  | .fetchAndCache x origin url headers =>
      ∀ row, fetchedRow pf x origin url headers = some row → x.ok .openMeta = true →
        (x.ok .ensureRowsAllocated && x.ok .getNextCursor && x.ok .setValues) = true →
        s.sheet.numRows < cacheMaxRows + 1 ∨ s.sheet.AllInUse ∨
          ∀ old, s.sheet.rowAt s.sheet.getNextCursor = some old → old.hash = row.hash
  | _ => True

/-- The `URL_Hash` cell of the entry that is due shows the text that was written to it, and no row
above shows that text in a cell. -/
def ShownFirst (pf : Platform) (s : SheetRun) : SheetOp → Prop
  | .getFromCache x url headers =>
      ∀ e, s.Due pf x url headers e → pf.showCell e.row.hash = e.row.hash ∧
        ∀ n row, 2 ≤ n → n < e.number → s.sheet.rowAt n = some row →
          ((row.cells pf).any fun cell => pf.toLowerCase cell == pf.toLowerCase e.row.hash) = false
  | _ => True

end SheetRun

/-! ## The rows of a sheet -/

namespace Sheet

variable {sheet : Sheet} {n : Nat}

/-- Below the rows in use there are blank ones only. -/
theorem rowAt_of_numRows_lt (h : sheet.numRows < n) : sheet.rowAt n = none := by
  unfold numRows at h
  unfold rowAt
  rw [← List.rdropWhile_append_rtakeWhile (p := Option.isNone) (l := sheet.rows),
    List.getElem?_append_right (by omega)]
  cases hget : (sheet.rows.rtakeWhile Option.isNone)[n - 2 -
      (sheet.rows.rdropWhile Option.isNone).length]? with
  | none => rfl
  | some r =>
      have hblank := List.mem_rtakeWhile_imp (List.mem_of_getElem? hget)
      rw [Option.isNone_iff_eq_none.mp hblank]
      rfl

/-- The last row in use is not blank. -/
theorem isSome_rowAt_numRows (h : 2 ≤ sheet.numRows) :
    (sheet.rowAt sheet.numRows).isSome = true := by
  have hpre := List.rdropWhile_prefix Option.isNone sheet.rows
  have hlast := List.rdropWhile_last_not Option.isNone sheet.rows
  unfold numRows at h ⊢
  unfold rowAt
  generalize sheet.rows.rdropWhile Option.isNone = used at h hpre hlast
  have hne : used ≠ [] := by
    rintro rfl
    exact absurd h (by decide)
  obtain ⟨blank, hrows⟩ := hpre
  have hindex : 1 + used.length - 2 = used.length - 1 := by omega
  rw [← hrows, hindex, List.getElem?_append_left (by omega), ← List.getLast?_eq_getElem?,
    List.getLast?_eq_some_getLast hne]
  specialize hlast hne
  cases hrow : used.getLast hne with
  | none =>
      rw [hrow] at hlast
      exact absurd rfl hlast
  | some row => rfl

theorem numRows_le {m : Nat} (hm : 1 ≤ m) (h : ∀ k, m < k → sheet.rowAt k = none) :
    sheet.numRows ≤ m := by
  by_contra hlt
  have hsome : (sheet.rowAt sheet.numRows).isSome = true := isSome_rowAt_numRows (by omega)
  rw [h _ (not_le.mp hlt)] at hsome
  cases hsome

theorem rowAt_setRow (row : Row) {k : Nat} (hn : 2 ≤ n) (hk : 2 ≤ k) :
    (sheet.setRow n row).rowAt k = if k = n then some row else sheet.rowAt k := by
  unfold setRow rowAt
  by_cases hlt : n - 2 < sheet.rows.length
  · rw [if_pos hlt]
    dsimp only
    rw [List.getElem?_set]
    by_cases hkn : k = n
    · rw [if_pos hkn, hkn, if_pos rfl, if_pos hlt]
      rfl
    · rw [if_neg hkn, if_neg (by omega)]
  · rw [if_neg hlt]
    dsimp only
    have hlen : (sheet.rows ++ List.replicate (n - 2 - sheet.rows.length) none).length = n - 2 := by
      rw [List.length_append, List.length_replicate]
      omega
    obtain hkn | hkn | hkn := Nat.lt_trichotomy k n
    · rw [if_neg (by omega), List.getElem?_append_left (by omega), List.getElem?_append]
      split
      · rfl
      · rename_i hbehind
        rw [List.getElem?_eq_none (not_lt.mp hbehind), List.getElem?_replicate]
        split
        · rfl
        · rfl
    · rw [if_pos hkn, hkn, List.getElem?_append_right (by omega), hlen, Nat.sub_self]
      rfl
    · rw [if_neg (by omega), List.getElem?_eq_none, List.getElem?_eq_none]
      · omega
      · rw [List.length_append, hlen, List.length_singleton]
        omega

theorem numRows_setRow_le (row : Row) (hn : 2 ≤ n) :
    (sheet.setRow n row).numRows ≤ max sheet.numRows n := by
  refine numRows_le (le_max_of_le_right (by omega)) fun k hk => ?_
  obtain ⟨hused, hkn⟩ := max_lt_iff.mp hk
  rw [rowAt_setRow row hn (by omega), if_neg (by omega), rowAt_of_numRows_lt hused]

/-- The first row that shows a text is found. -/
theorem findRow_of_rowAt {pf : Platform} {text : String} {row : Row}
    (hrow : sheet.rowAt n = some row)
    (hshows : ((row.cells pf).any fun cell => pf.toLowerCase cell == pf.toLowerCase text) = true)
    (habove : ∀ k above, 2 ≤ k → k < n → sheet.rowAt k = some above →
      ((above.cells pf).any fun cell => pf.toLowerCase cell == pf.toLowerCase text) = false) :
    sheet.findRow pf text = some row := by
  have hget : sheet.rows[n - 2]? = some (some row) := Option.join_eq_some_iff.mp hrow
  have hlt : n - 2 < sheet.rows.length := (List.getElem?_eq_some_iff.mp hget).1
  have hsplit : sheet.rows =
      sheet.rows.take (n - 2) ++ some row :: sheet.rows.drop (n - 2 + 1) := by
    rw [← (List.getElem?_eq_some_iff.mp hget).2, List.cons_getElem_drop_succ, List.take_append_drop]
  have hnone : ((sheet.rows.take (n - 2)).filterMap id).find? (fun row =>
      (row.cells pf).any fun cell => pf.toLowerCase cell == pf.toLowerCase text) = none := by
    rw [List.find?_eq_none]
    intro above hmem
    obtain ⟨r, hr, hid⟩ := List.mem_filterMap.mp hmem
    obtain ⟨i, hi, hri⟩ := List.mem_iff_getElem.mp hr
    rw [List.length_take] at hi
    have hat : sheet.rowAt (i + 2) = some above := by
      refine Option.join_eq_some_iff.mpr ?_
      rw [← show r = some above from hid, ← hri, List.getElem_take, Nat.add_sub_cancel,
        List.getElem?_eq_getElem]
    rw [Bool.not_eq_true]
    exact habove (i + 2) above (by omega) (by omega) hat
  unfold findRow
  rw [hsplit, List.filterMap_append, List.find?_append, hnone, Option.none_or]
  exact List.find?_cons_of_pos hshows

end Sheet

namespace SheetRun

variable {pf : Platform} {s t : SheetRun} {e : SheetOp} {maxRows : Nat}

/-! ## The size -/

/-- The rows behind a store, by what it could do. -/
theorem allocated_le_iff (x : Execution) (h : s.Bounded maxRows) :
    s.sheet.allocated x s.maxRows ≤ maxRows + (cacheMaxRows + 1) ↔
      if x.ok .openMeta then
        x.ok .ensureRowsAllocated = true → s.sheet.numRows < cacheMaxRows + 1 →
          s.maxRows ≤ maxRows + s.sheet.numRows
      else x.ok .appendRow = true → s.sheet.numRows ≤ maxRows + cacheMaxRows := by
  unfold Bounded at h
  unfold Sheet.allocated Sheet.ensureRowsAllocated
  by_cases hmeta : x.ok .openMeta = true
  · rw [if_pos hmeta, if_pos hmeta]
    by_cases hensure : x.ok .ensureRowsAllocated = true
    · rw [if_pos hensure]
      by_cases hshort : s.sheet.numRows < cacheMaxRows + 1
      · rw [if_pos hshort]
        constructor
        · intro hle _ _
          omega
        · intro hle
          have hroom := hle hensure hshort
          omega
      · rw [if_neg hshort]
        exact iff_of_true h fun _ hlt => absurd hlt hshort
    · rw [if_neg hensure]
      exact iff_of_true h fun hok => absurd hok hensure
  · rw [if_neg hmeta, if_neg hmeta]
    by_cases happend : x.ok .appendRow = true
    · rw [if_pos happend]
      constructor
      · intro hle _
        omega
      · intro hle
        have hroom := hle happend
        omega
    · rw [if_neg happend]
      exact iff_of_true h fun hok => absurd hok happend

theorem step_bounded_iff (h : s.Bounded maxRows) (hstep : step pf s e = some t) :
    t.Bounded maxRows ↔ s.GrowsWithin pf maxRows e := by
  cases e with
  | fetchAndCache x origin url headers =>
      unfold step at hstep
      unfold GrowsWithin
      cases hrow : fetchedRow pf x origin url headers with
      | none =>
          simp only [hrow] at hstep ⊢
          cases hstep
          exact iff_of_true h fun hsome => (nomatch hsome)
      | some row =>
          simp only [hrow] at hstep ⊢
          cases hstep
          exact (allocated_le_iff x h).trans ⟨fun hgrows _ => hgrows, fun hgrows => hgrows rfl⟩
  | getFromCache x url headers =>
      cases hstep
      exact iff_of_true h trivial
  | clearExpiredCache x =>
      unfold step at hstep
      dsimp only at hstep
      split at hstep
      · cases hstep
        exact iff_of_true h trivial
      · cases hstep
        exact iff_of_true h trivial
  | clearEntireCache x =>
      cases hstep
      exact iff_of_true h trivial

/-! ## The row of a store -/

/-- Above the last row a store overwrites the row of the cursor, and below it none. -/
theorem sparesOthers_iff (s : SheetRun) (e : SheetOp) :
    s.SparesOthers pf e ↔ s.CursorSpares pf e := by
  cases e with
  | fetchAndCache x origin url headers =>
      constructor
      · intro hspares row hrow hmeta hcalls
        by_cases hshort : s.sheet.numRows < cacheMaxRows + 1
        · exact Or.inl hshort
        refine Or.inr (or_iff_not_imp_left.mpr fun hgap old hold => ?_)
        by_contra hother
        refine hgap (hspares row s.sheet.getNextCursor old hrow ?_ hold hother)
        unfold Sheet.written
        rw [if_pos hmeta, if_pos hcalls]
      · intro hcursor row n old hrow hwritten hold hother
        have hblank : n ≠ s.sheet.numRows + 1 := by
          rintro rfl
          rw [Sheet.rowAt_of_numRows_lt (Nat.lt_succ_self _)] at hold
          cases hold
        unfold Sheet.written at hwritten
        split at hwritten
        · rename_i hmeta
          split at hwritten
          · rename_i hcalls
            cases hwritten
            obtain hshort | hall | hown := hcursor row hrow hmeta hcalls
            · unfold Sheet.getNextCursor at hblank
              rw [if_pos hshort] at hblank
              exact absurd rfl hblank
            · exact hall
            · exact absurd (hown old hold) hother
          · cases hwritten
        · split at hwritten
          · cases hwritten
            exact absurd rfl hblank
          · cases hwritten
  | getFromCache x url headers => exact Iff.rfl
  | clearExpiredCache x => exact Iff.rfl
  | clearEntireCache x => exact Iff.rfl

/-! ## What is found -/

/-- A row whose first cell shows its key is one that is looked for. -/
theorem shows_hash {row : Row} (h : pf.showCell row.hash = row.hash) :
    ((row.cells pf).any fun cell => pf.toLowerCase cell == pf.toLowerCase row.hash) = true :=
  List.any_eq_true.mpr ⟨pf.showCell row.hash, List.mem_cons_self, by rw [h, beq_self_eq_true]⟩

theorem findsLast_of_shownFirst (s : SheetRun) (e : SheetOp) (h : s.ShownFirst pf e) :
    s.FindsLast pf e := by
  cases e with
  | getFromCache x url headers =>
      intro hopen hfind e hdue
      obtain ⟨hshown, habove⟩ := h e hdue
      have hfound : s.sheet.findRow pf e.row.hash = some e.row :=
        Sheet.findRow_of_rowAt hdue.kept (shows_hash hshown) habove
      have hcached : findInCache pf x s.sheet url headers = .ok (some e.row) := by
        unfold findInCache
        rw [hopen, hfind, hdue.key]
        dsimp only
        rw [hfound, Option.filter_some, decide_eq_false hdue.unexpired]
        rfl
      unfold getFromCache
      rw [hcached]
      rfl
  | fetchAndCache x origin url headers => trivial
  | clearExpiredCache x => trivial
  | clearEntireCache x => trivial

/-! ## The shape of the buffer -/

/-- The cursor is at a row of the buffer, and the rows in use are rows of the sheet. -/
structure InRange (s : SheetRun) : Prop where
  cursor : ∀ c, s.sheet.cursor = some c → c ≤ cacheMaxRows + 1
  used : s.sheet.numRows ≤ s.maxRows

/-- A store writes one of the rows in use or the one below them, and the sheet has that row. -/
theorem written_le {x : Execution} {n : Nat} (h : s.InRange) (hn : s.sheet.written x = some n) :
    2 ≤ n ∧ n ≤ s.sheet.numRows + 1 ∧ n ≤ s.sheet.allocated x s.maxRows ∧
      (x.ok .openMeta = true → n ≤ cacheMaxRows + 1) := by
  have hused := h.used
  have hone : 1 ≤ s.sheet.numRows := Nat.le_add_right _ _
  unfold Sheet.written at hn
  unfold Sheet.allocated Sheet.ensureRowsAllocated
  by_cases hmeta : x.ok .openMeta = true
  · rw [if_pos hmeta] at hn ⊢
    split at hn
    · rename_i hcalls
      cases hn
      have hensure := (Bool.and_eq_true_iff.mp (Bool.and_eq_true_iff.mp hcalls).1).1
      rw [if_pos hensure]
      unfold Sheet.getNextCursor
      by_cases hshort : s.sheet.numRows < cacheMaxRows + 1
      · rw [if_pos hshort, if_pos hshort]
        omega
      · rw [if_neg hshort, if_neg hshort]
        have hrange : ∀ c, 2 ≤ c → c ≤ cacheMaxRows + 1 → 2 ≤ c ∧ c ≤ s.sheet.numRows + 1 ∧
            c ≤ s.maxRows ∧ (x.ok .openMeta = true → c ≤ cacheMaxRows + 1) := by
          intro c hc hle
          exact ⟨hc, by omega, by omega, fun _ => hle⟩
        cases hcursor : s.sheet.cursor with
        | none => exact hrange 2 (le_refl 2) (by decide)
        | some c =>
            have hc := h.cursor c hcursor
            dsimp only
            split
            · exact hrange 2 (le_refl 2) (by decide)
            · exact hrange c (by omega) hc
    · cases hn
  · rw [if_neg hmeta] at hn ⊢
    split at hn
    · rename_i happend
      cases hn
      rw [if_pos happend]
      exact ⟨by omega, le_refl _, le_max_right _ _, fun hok => absurd hok hmeta⟩
    · cases hn

theorem le_allocated (x : Execution) (sheet : Sheet) (maxRows : Nat) :
    maxRows ≤ sheet.allocated x maxRows := by
  unfold Sheet.allocated Sheet.ensureRowsAllocated
  split_ifs <;> omega

/-- The cursor behind a store. -/
theorem cursor_writeRow {x : Execution} {row : Row} {c : Nat} (h : s.InRange)
    (hc : (s.sheet.writeRow x row).1.cursor = some c) : c ≤ cacheMaxRows + 1 := by
  have hset : ∀ n, (s.sheet.setRow n row).cursor = s.sheet.cursor := by
    intro n
    unfold Sheet.setRow
    split
    · rfl
    · rfl
  unfold Sheet.writeRow at hc
  split at hc
  · split at hc
    · dsimp only at hc
      split at hc
      · have hnext := Option.some.inj hc
        split at hnext
        · rw [← hnext]
          decide
        · omega
      · exact h.cursor c ((hset _).symm.trans hc)
    · exact h.cursor c hc
  · split at hc
    · exact h.cursor c ((hset _).symm.trans hc)
    · exact h.cursor c hc

theorem numRows_congr {sheet sheet' : Sheet} (h : sheet.rows = sheet'.rows) :
    sheet.numRows = sheet'.numRows := by
  unfold Sheet.numRows
  rw [h]

theorem numRows_clearExpiredCache_le (sheet : Sheet) (now : Nat) :
    (sheet.clearExpiredCache now).numRows ≤ sheet.numRows := by
  refine Sheet.numRows_le (Nat.le_add_right _ _) fun k hk => ?_
  have hblank := Sheet.rowAt_of_numRows_lt hk
  unfold Sheet.rowAt at hblank ⊢
  show ((sheet.rows.map _)[k - 2]?).join = none
  rw [List.getElem?_map]
  cases hget : sheet.rows[k - 2]? with
  | none => rfl
  | some r =>
      rw [hget] at hblank
      rw [show r = none from hblank]
      rfl

theorem step_inRange (h : s.InRange) (hstep : step pf s e = some t) : t.InRange := by
  cases e with
  | fetchAndCache x origin url headers =>
      rw [step] at hstep
      cases hrow : fetchedRow pf x origin url headers with
      | none =>
          rw [hrow] at hstep
          cases hstep
          exact h
      | some row =>
          rw [hrow] at hstep
          cases hstep
          refine ⟨fun c hc => cursor_writeRow h hc, ?_⟩
          have hgrown := le_allocated x s.sheet s.maxRows
          have hrows := Sheet.writeRow_rows x s.sheet row
          -- the row that is written is one of those the sheet has by then
          show (s.sheet.writeRow x row).1.numRows ≤ s.sheet.allocated x s.maxRows
          cases hwritten : s.sheet.written x with
          | none =>
              rw [hwritten] at hrows
              rw [numRows_congr hrows]
              exact le_trans h.used hgrown
          | some n =>
              rw [hwritten] at hrows
              obtain ⟨htwo, -, hle, -⟩ := written_le h hwritten
              rw [numRows_congr hrows]
              exact le_trans (Sheet.numRows_setRow_le row htwo)
                (max_le (le_trans h.used hgrown) hle)
  | getFromCache x url headers =>
      cases hstep
      exact h
  | clearExpiredCache x =>
      rw [step] at hstep
      split at hstep
      · cases hstep
        exact ⟨h.cursor, le_trans (numRows_clearExpiredCache_le _ _) h.used⟩
      · cases hstep
        exact h
  | clearEntireCache x =>
      cases hstep
      refine ⟨fun c hc => ?_, ?_⟩
      · dsimp only at hc
        split at hc
        · cases hc
          decide
        · exact h.cursor c hc
      · have hone : 1 ≤ s.sheet.numRows := Nat.le_add_right _ _
        by_cases hopen : x.ok .openForStore = true
        · show Sheet.numRows ⟨if x.ok .openForStore then [] else s.sheet.rows, _⟩ ≤ s.maxRows
          rw [if_pos hopen]
          exact le_trans hone h.used
        · show Sheet.numRows ⟨if x.ok .openForStore then [] else s.sheet.rows, _⟩ ≤ s.maxRows
          rw [if_neg hopen]
          exact h.used

/-- In every run the rows in use are rows of the sheet, and the cursor is at a row of the buffer. -/
theorem run_inRange (pf : Platform) {maxRows : Nat} (h : 1 ≤ maxRows) (ops : List SheetOp) :
    StepRun.AllStates (step pf) InRange (start maxRows) ops := by
  have hstart : (start maxRows).InRange := by
    refine ⟨fun c hc => ?_, h⟩
    cases hc
    decide
  exact StepRun.allStates_of_inv (fun _ _ _ hs hstep => step_inRange hs hstep) (fun _ hs => hs)
    hstart ops

theorem run_inRange_page : StepRun.AllStates (step .page) InRange (start 1000)
    [.fetchAndCache (executionAt 0) pageOrigin pageUrl none, .clearEntireCache (executionAt 1)] :=
  run_inRange .page (by decide) _

/-- No row above the last one in use is blank. -/
def Contiguous (sheet : Sheet) : Prop :=
  ∀ n, 2 ≤ n → n ≤ sheet.numRows → (sheet.rowAt n).isSome = true

/-- An expired row is cleared only with all the rows below it. -/
def ClearsBelow (s : SheetRun) : SheetOp → Prop
  | .clearExpiredCache x =>
      ∀ n row n' row', s.sheet.rowAt n = some row → s.sheet.rowAt n' = some row' → n < n' →
        row.expiresAt < x.now → row'.expiresAt < x.now
  | _ => True

theorem rowAt_congr {sheet sheet' : Sheet} (h : sheet.rows = sheet'.rows) (n : Nat) :
    sheet.rowAt n = sheet'.rowAt n := by
  unfold Sheet.rowAt
  rw [h]

theorem contiguous_congr {sheet sheet' : Sheet} (h : sheet.rows = sheet'.rows) :
    Contiguous sheet ↔ Contiguous sheet' := by
  unfold Contiguous
  rw [numRows_congr h]
  simp only [rowAt_congr h]

theorem contiguous_setRow {sheet : Sheet} (h : Contiguous sheet) {n : Nat} (row : Row) (hn : 2 ≤ n)
    (hle : n ≤ sheet.numRows + 1) : Contiguous (sheet.setRow n row) := by
  intro k hk hused
  rw [Sheet.rowAt_setRow row hn hk]
  by_cases hkn : k = n
  · rw [if_pos hkn]
    rfl
  · rw [if_neg hkn]
    have hmost : (sheet.setRow n row).numRows ≤ max sheet.numRows n :=
      Sheet.numRows_setRow_le row hn
    exact h k hk (by omega)

theorem rowAt_clearExpiredCache (sheet : Sheet) (now n : Nat) :
    (sheet.clearExpiredCache now).rowAt n =
      (sheet.rowAt n).filter fun row => !decide (row.expiresAt < now) := by
  unfold Sheet.rowAt
  show ((sheet.rows.map _)[n - 2]?).join = _
  rw [List.getElem?_map]
  cases sheet.rows[n - 2]? with
  | none => rfl
  | some r => rfl

theorem contiguous_clearExpiredCache {sheet : Sheet} {now : Nat} (h : Contiguous sheet)
    (hbelow : ∀ n row n' row', sheet.rowAt n = some row → sheet.rowAt n' = some row' → n < n' →
      row.expiresAt < now → row'.expiresAt < now) : Contiguous (sheet.clearExpiredCache now) := by
  intro k hk hused
  have hlast := Sheet.isSome_rowAt_numRows (le_trans hk hused)
  generalize (sheet.clearExpiredCache now).numRows = m at hused hlast
  rw [rowAt_clearExpiredCache] at hlast ⊢
  obtain ⟨row', hrow'⟩ := Option.isSome_iff_exists.mp hlast
  obtain ⟨hat', hkept'⟩ := Option.filter_eq_some_iff.mp hrow'
  have hm : m ≤ sheet.numRows := by
    by_contra hgt
    rw [Sheet.rowAt_of_numRows_lt (not_le.mp hgt)] at hat'
    cases hat'
  obtain ⟨row, hat⟩ := Option.isSome_iff_exists.mp (h k hk (le_trans hused hm))
  obtain rfl | hlt := eq_or_lt_of_le hused
  · exact hlast
  · have hkept : ¬row.expiresAt < now := by
      intro hexpired
      have hexpired' := hbelow k row m row' hat hat' hlt hexpired
      rw [decide_eq_true hexpired'] at hkept'
      cases hkept'
    rw [hat, Option.filter_some, decide_eq_false hkept]
    rfl

theorem contiguous_nil (cursor : Option Nat) : Contiguous ⟨[], cursor⟩ := by
  intro n hn hle
  have hone : (⟨[], cursor⟩ : Sheet).numRows = 1 := rfl
  omega

/-- The shape is kept by a run that clears from below. -/
theorem step_contiguous (h : s.InRange ∧ Contiguous s.sheet) (hclears : s.ClearsBelow e)
    (hstep : step pf s e = some t) : t.InRange ∧ Contiguous t.sheet := by
  refine ⟨step_inRange h.1 hstep, ?_⟩
  obtain ⟨hrange, hcontiguous⟩ := h
  cases e with
  | fetchAndCache x origin url headers =>
      rw [step] at hstep
      cases hrow : fetchedRow pf x origin url headers with
      | none =>
          rw [hrow] at hstep
          cases hstep
          exact hcontiguous
      | some row =>
          rw [hrow] at hstep
          cases hstep
          have hrows := Sheet.writeRow_rows x s.sheet row
          show Contiguous (s.sheet.writeRow x row).1
          cases hwritten : s.sheet.written x with
          | none =>
              rw [hwritten] at hrows
              exact (contiguous_congr hrows).mpr hcontiguous
          | some n =>
              rw [hwritten] at hrows
              obtain ⟨htwo, hle, -, -⟩ := written_le hrange hwritten
              exact (contiguous_congr hrows).mpr (contiguous_setRow hcontiguous row htwo hle)
  | getFromCache x url headers =>
      cases hstep
      exact hcontiguous
  | clearExpiredCache x =>
      rw [step] at hstep
      split at hstep
      · cases hstep
        exact contiguous_clearExpiredCache hcontiguous hclears
      · cases hstep
        exact hcontiguous
  | clearEntireCache x =>
      cases hstep
      by_cases hopen : x.ok .openForStore = true
      · show Contiguous ⟨if x.ok .openForStore then [] else s.sheet.rows, _⟩
        rw [if_pos hopen]
        exact contiguous_nil _
      · show Contiguous ⟨if x.ok .openForStore then [] else s.sheet.rows, _⟩
        rw [if_neg hopen]
        exact hcontiguous

/-- A run that clears from below leaves no blank row in the buffer, so its stores spare the rows of
other keys. -/
theorem run_sparesOthers (pf : Platform) {maxRows : Nat} (h : 1 ≤ maxRows) {ops : List SheetOp}
    (hclears : StepRun.AllSteps (step pf) ClearsBelow (start maxRows) ops) :
    StepRun.AllSteps (step pf) (SparesOthers pf) (start maxRows) ops := by
  have hstart : (start maxRows).InRange ∧ Contiguous (start maxRows).sheet := by
    refine ⟨⟨fun c hc => ?_, h⟩, contiguous_nil _⟩
    cases hc
    decide
  refine StepRun.allSteps_of_inv (P := fun s => s.InRange ∧ Contiguous s.sheet)
    (fun _ _ _ hs hc hstep => step_contiguous hs hc hstep) (fun s e t hs _ _ => ?_) hstart hclears
  rw [sparesOthers_iff]
  cases e with
  | fetchAndCache x origin url headers =>
      intro row _ _ _
      by_cases hshort : s.sheet.numRows < cacheMaxRows + 1
      · exact Or.inl hshort
      · exact Or.inr (Or.inl fun n hn hle => hs.2 n hn (by omega))
  | getFromCache x url headers => trivial
  | clearExpiredCache x => trivial
  | clearEntireCache x => trivial

/-- **The spreadsheet cache over a run**: it keeps its size, spares the rows of other keys and finds
what it holds, as far as the steps meet the condition of each. -/
theorem run_exact (pf : Platform) (maxRows : Nat) (ops : List SheetOp) :
    (StepRun.AllStates (step pf) (Bounded maxRows) (start maxRows) ops ↔
      StepRun.AllSteps (step pf) (GrowsWithin pf maxRows) (start maxRows) ops) ∧
    (StepRun.AllSteps (step pf) (SparesOthers pf) (start maxRows) ops ↔
      StepRun.AllSteps (step pf) (CursorSpares pf) (start maxRows) ops) ∧
    (StepRun.AllSteps (step pf) (ShownFirst pf) (start maxRows) ops →
      StepRun.AllSteps (step pf) (FindsLast pf) (start maxRows) ops) := by
  have hevery : ∀ s e t, True → step pf s e = some t → True := fun _ _ _ _ _ => trivial
  have hstart : (start maxRows).Bounded maxRows := Nat.le_add_right _ _
  refine ⟨?_, ?_, ?_⟩
  · exact StepRun.allStates_iff_allSteps (C := GrowsWithin pf maxRows)
      (fun _ _ _ h hstep => step_bounded_iff h hstep) hstart ops
  · exact StepRun.allSteps_congr hevery (fun s e _ => sparesOthers_iff s e) trivial ops
  · exact StepRun.allSteps_imp hevery (fun s e _ => findsLast_of_shownFirst s e) trivial

/-- The row that the page is stored as. -/
def pageRow (now : Nat) : Row where
  hash := "c0c15cd02b271e87a293219613468259"
  url := pageUrl
  status := 200
  headers := .obj []
  body := "aGk="
  timestamp := now
  expiresAt := now + 86400000
  z := false

theorem step_page (s : SheetRun) (now : Nat) :
    step .page s (.fetchAndCache (executionAt now) pageOrigin pageUrl none) =
      some (s.store (executionAt now) (pageRow now)) := by
  have hrow : fetchedRow .page (executionAt now) pageOrigin pageUrl none = some (pageRow now) := rfl
  rw [step, hrow]

/-- A store while the last rows are not in use, when every call succeeds. -/
theorem store_short (s : SheetRun) (now : Nat) (row : Row)
    (hshort : s.sheet.numRows < cacheMaxRows + 1) :
    s.store (executionAt now) row =
      ⟨(s.sheet.setRow (s.sheet.numRows + 1) row).advanceCursor (s.sheet.numRows + 1),
        s.maxRows + (cacheMaxRows + 1 - s.sheet.numRows),
        ⟨s.sheet.numRows + 1, row⟩ :: s.stored⟩ := by
  have hcursor : s.sheet.getNextCursor = s.sheet.numRows + 1 := if_pos hshort
  have hsheet : (s.sheet.writeRow (executionAt now) row).1 =
      (s.sheet.setRow s.sheet.getNextCursor row).advanceCursor s.sheet.getNextCursor := rfl
  have hrows : s.sheet.allocated (executionAt now) s.maxRows =
      s.maxRows + (cacheMaxRows + 1 - s.sheet.numRows) := if_pos hshort
  have hwritten : s.sheet.written (executionAt now) = some s.sheet.getNextCursor := rfl
  unfold store
  rw [hsheet, hrows, hwritten, hcursor]

theorem store_page (maxRows now : Nat) (row : Row) :
    (start maxRows).store (executionAt now) row =
      ⟨⟨[some row], some 3⟩, maxRows + 5000, [⟨2, row⟩]⟩ := by
  have hused : (start maxRows).sheet.numRows = 1 := rfl
  rw [store_short _ _ _ (by rw [hused]; decide), hused]
  rfl

theorem store_page_again (maxRows now : Nat) (row row' : Row) :
    (SheetRun.mk ⟨[some row], some 3⟩ maxRows [⟨2, row⟩]).store (executionAt now) row' =
      ⟨⟨[some row, some row'], some 4⟩, maxRows + 4999, [⟨3, row'⟩, ⟨2, row⟩]⟩ := by
  have hused : (⟨[some row], some 3⟩ : Sheet).numRows = 2 := rfl
  rw [store_short _ _ _ (by rw [hused]; decide)]
  dsimp only
  rw [hused]
  rfl

/-- The run after the page has been stored twice. -/
def storedTwice (maxRows now now' : Nat) : SheetRun :=
  ⟨⟨[some (pageRow now), some (pageRow now')], some 4⟩, maxRows + 5000 + 4999,
    [⟨3, pageRow now'⟩, ⟨2, pageRow now⟩]⟩

theorem steps_page (maxRows now now' : Nat) :
    (step .page (start maxRows)
      (.fetchAndCache (executionAt now) pageOrigin pageUrl none)).bind (fun s =>
        step .page s (.fetchAndCache (executionAt now') pageOrigin pageUrl none)) =
      some (storedTwice maxRows now now') := by
  rw [step_page, store_page, Option.bind_some, step_page, store_page_again]
  rfl

/-- The page is stored, again when its row has expired, and looked up: more rows are inserted than
the buffer has, and the expired row hides the fresh one. -/
theorem second_store_fails :
    ¬StepRun.AllStates (step .page) (Bounded 1000) (start 1000)
      [.fetchAndCache (executionAt 0) pageOrigin pageUrl none,
        .fetchAndCache (executionAt 86400001) pageOrigin pageUrl none] ∧
    ¬StepRun.AllSteps (step .page) (FindsLast .page) (start 1000)
      [.fetchAndCache (executionAt 0) pageOrigin pageUrl none,
        .fetchAndCache (executionAt 86400001) pageOrigin pageUrl none,
        .getFromCache (executionAt 86400002) pageUrl none] := by
  obtain ⟨s, hfirst, hsecond⟩ := Option.bind_eq_some_iff.mp (steps_page 1000 0 86400001)
  constructor
  · rintro ⟨-, hall⟩
    have hbounded : (storedTwice 1000 0 86400001).Bounded 1000 :=
      (hall s hfirst).2 _ hsecond
    unfold Bounded storedTwice at hbounded
    have hcache : cacheMaxRows = 5000 := rfl
    dsimp only at hbounded
    omega
  · intro hall
    have hlookup := (((hall s hfirst).2 _ hsecond).2 _ rfl).1
    have hdue : (storedTwice 1000 0 86400001).Due .page (executionAt 86400002) pageUrl none
        ⟨3, pageRow 86400001⟩ := ⟨rfl, rfl, rfl, by decide⟩
    have hserved := hlookup rfl rfl _ hdue
    unfold storedTwice at hserved
    dsimp only at hserved
    have hsome := congrArg (fun r => r.toOption.map Option.isSome) hserved
    revert hsome
    decide +kernel

/-! ### A digest of digits -/

def digitsUrl : String := "https://a.example/3220427"

/-- The digest of its key reads as a number, and a cell shows it as one. -/
def digitsPlatform : Platform :=
  { Platform.page with
    md5 := fun _ => [7, 129, 119, 86, 132, 149, 3, 16, 118, 87, 19, 83, 2, 20, 131, 120]
    showCell := fun text =>
      if text = "07817756849503107657135302148378" then "7.81776E+30" else text }

def digitsRow : Row :=
  { pageRow 0 with hash := "07817756849503107657135302148378", url := digitsUrl }

/-- The only row there is, and it has not expired, but the finder does not come upon it. -/
theorem digits_not_found :
    ¬StepRun.AllSteps (step digitsPlatform) (FindsLast digitsPlatform) (start 1000)
      [.fetchAndCache (executionAt 0) pageOrigin digitsUrl none,
        .getFromCache (executionAt 1000) digitsUrl none] := by
  intro hall
  have hrow : fetchedRow digitsPlatform (executionAt 0) pageOrigin digitsUrl none =
      some digitsRow := rfl
  have hstored : step digitsPlatform (start 1000)
      (.fetchAndCache (executionAt 0) pageOrigin digitsUrl none) =
        some ⟨⟨[some digitsRow], some 3⟩, 6000, [⟨2, digitsRow⟩]⟩ := by
    rw [step, hrow]
    exact congrArg some (store_page 1000 0 digitsRow)
  have hdue : (SheetRun.mk ⟨[some digitsRow], some 3⟩ 6000 [⟨2, digitsRow⟩]).Due digitsPlatform
      (executionAt 1000) digitsUrl none ⟨2, digitsRow⟩ := ⟨rfl, rfl, rfl, by decide⟩
  have hserved := ((hall _ hstored).2 _ rfl).1 rfl rfl _ hdue
  have hsome := congrArg (fun r => r.toOption.map Option.isSome) hserved
  revert hsome
  decide +kernel

end SheetRun

end Rahgozar.AppsScript
