import Rahgozar.Lib.Run

set_option autoImplicit false

/-! # Self-update (`src/update_apply.rs`)

`download_and_stage` copies a checked archive to `<x>.new`, `restart_to_apply` brings it to the
place of the installed program, and `finalize_pending_at_startup` ends or makes up for the swap
when the program starts. What is installed is a file on Unix, a bundle directory on macOS, and a
file that cannot be replaced while it runs on Windows.

The process has a program counter; a step is one file operation, which may fail, and between two
steps the process may crash. A copy is two operations: it has begun, and it is complete.
-/

namespace Rahgozar.Desktop.SelfUpdate

inductive Platform where
  | unix
  | macBundle
  | windows
deriving DecidableEq

/-- A version of the program: the one that was installed, or one out of an archive. `checked` says
that a signature was there and valid. -/
inductive Program where
  | installed
  | archive (checked : Bool)
deriving DecidableEq

/-- What a path holds: a complete program, or a part of one (a copy that stopped half-way, a
directory that was removed in part or copied over another, a bundle without the executable). -/
inductive Content where
  | whole (p : Program)
  | broken
deriving DecidableEq

/-- An archive that has been extracted; `usable` says that it has what the install needs. -/
structure Archive where
  checked : Bool
  usable : Bool
deriving DecidableEq

/-- Where the process is: what it does next. -/
inductive Proc where
  | off
  | running
  -- `finalize_pending_at_startup`
  | cleanupStaleOld
  | lateRename
  | lateCleanup
  | lateBackup
  | lateSwap
  | lateRollback
  -- `stage_from_archive`
  | unlinkStaged (a : Archive)
  | copyBegin (a : Archive)
  | copyEnd (a : Archive) (clean : Bool)
  | setMode
  -- `restart_to_apply`
  | apply
  | applyCleanup
  | applyBackup
  | applySwap
  | relaunch
  -- `finalize_pending_at_startup` in a process that runs from `.new`
  | newCleanup
  | newBackup
  | newSwap
  | newRunning
deriving DecidableEq

/-- The installed path, `<x>.new` and `<x>.old`. `handle` says that the process has a
`StagedUpdate`. -/
structure Install where
  target : Option Content
  staged : Option Content
  backup : Option Content
  handle : Bool
  proc : Proc
deriving DecidableEq

inductive Event where
  /-- somebody starts the installed program -/
  | start
  /-- an archive for `download_and_stage` is there -/
  | download (a : Archive)
  /-- `restart_to_apply` is called -/
  | restart
  /-- the next file operation of the process -/
  | fileOp (ok : Bool)
  | crash
deriving DecidableEq

variable (platform : Platform) (keyEmbedded : Bool)

/-- A removal; a directory whose removal fails may be gone in part. -/
def remove (content : Option Content) (ok : Bool) : Option Content :=
  if ok then none
  else if platform = .macBundle then content.map fun _ => .broken
  else content

/-- Is there a program to run? -/
def runs : Option Content → Bool
  | some (.whole _) => true
  | _ => false

namespace Install

def init : Install := ⟨some (.whole .installed), none, none, false, .off⟩

/-- Behind the cleanup at startup: is there an update to apply late? -/
def lookForStaged (s : Install) : Proc :=
  match platform with
  | .windows => .running
  | .unix => if s.staged.isSome then .lateRename else .running
  | .macBundle => if s.staged.isSome then .lateCleanup else .running

/-- `download_and_stage` up to the first change next to the installed program. Without a bundle or
a binary in the archive nothing is touched, but a bundle is looked into only after the copy. -/
def beginStaging (s : Install) (a : Archive) : Install :=
  if keyEmbedded && !a.checked then s
  else if platform ≠ .macBundle ∧ a.usable = false then s
  else { s with proc := .unlinkStaged a }

/-- The end of a copy. -/
def copied (s : Install) (a : Archive) (clean : Bool) : Install :=
  let content := if a.usable && clean then .whole (.archive a.checked) else .broken
  match platform with
  | .unix => { s with staged := some content, proc := .setMode }
  | .macBundle =>
      { s with staged := some content, handle := s.handle || a.usable, proc := .running }
  | .windows => { s with staged := some content, handle := true, proc := .running }

/-- `<x>.new` takes the installed path. -/
def swapIn (s : Install) (next : Proc) : Option Install :=
  s.staged.map fun content => { s with target := some content, staged := none, proc := next }

/-- The installed program, if it is there, goes to `<x>.old`; a directory does not replace
another. -/
def moveAway (s : Install) (next : Proc) : Option Install :=
  match s.target with
  | none => some { s with proc := next }
  | some content =>
      if platform = .macBundle ∧ s.backup.isSome then none
      else some { s with target := none, backup := some content, proc := next }

def fileOp (s : Install) (ok : Bool) : Option Install :=
  match s.proc with
  | .off => none
  | .running => none
  | .newRunning => none
  | .cleanupStaleOld =>
      -- in a bundle the name is that of the executable inside, so the bundle's `.old` stays
      let s := if platform = .macBundle then s else { s with backup := remove platform s.backup ok }
      some { s with proc := s.lookForStaged platform }
  | .lateRename => if ok then s.swapIn .running else some { s with proc := .running }
  | .lateCleanup => some { s with backup := remove platform s.backup ok, proc := .lateBackup }
  | .lateBackup =>
      if ok then s.moveAway platform .lateSwap else some { s with proc := .running }
  | .lateSwap => if ok then s.swapIn .running else some { s with proc := .lateRollback }
  | .lateRollback =>
      if ok then
        s.backup.map fun content =>
          { s with target := some content, backup := none, proc := .running }
      else some { s with proc := .running }
  | .unlinkStaged a => some { s with staged := remove platform s.staged ok, proc := .copyBegin a }
  | .copyBegin a =>
      if ok then
        -- a file is cut to nothing first, a directory is copied into
        let clean := platform ≠ .macBundle || s.staged.isNone
        some { s with staged := some .broken, proc := .copyEnd a clean }
      else some { s with proc := .running }
  | .copyEnd a clean =>
      if ok then some (s.copied platform a clean) else some { s with proc := .running }
  | .setMode => some { s with handle := s.handle || ok, proc := .running }
  | .apply =>
      match platform with
      | .unix => if ok then s.swapIn .relaunch else some { s with proc := .running }
      | .macBundle =>
          if s.staged.isSome then some { s with proc := .applyCleanup }
          else some { s with proc := .running }
      | .windows =>
          if ok then
            if runs s.staged then some { s with handle := false, proc := .newCleanup } else none
          else some { s with proc := .running }
  | .applyCleanup => some { s with backup := remove platform s.backup ok, proc := .applyBackup }
  | .applyBackup =>
      if ok then s.moveAway platform .applySwap else some { s with proc := .running }
  | .applySwap => if ok then s.swapIn .relaunch else some { s with proc := .running }
  | .relaunch =>
      if ok then
        (if runs s.target then some { s with handle := false, proc := .cleanupStaleOld } else none)
      else some { s with proc := .running }
  | .newCleanup => some { s with backup := remove platform s.backup ok, proc := .newBackup }
  | .newBackup =>
      if ok then s.moveAway platform .newSwap
      -- thirty attempts have failed
      else some { s with proc := .newSwap }
  | .newSwap => if ok then s.swapIn .relaunch else some { s with proc := .newRunning }

def step (s : Install) : Event → Option Install
  | .start =>
      if s.proc = .off ∧ runs s.target then some { s with proc := .cleanupStaleOld } else none
  | .download a => if s.proc = .running then some (s.beginStaging platform keyEmbedded a) else none
  | .restart => if s.proc = .running ∧ s.handle then some { s with proc := .apply } else none
  | .fileOp ok => s.fileOp platform ok
  | .crash => some { s with handle := false, proc := .off }

/-- A complete program: the one that was installed, or one out of an archive that passed the
check, if there is a key. -/
def Trusted : Program → Prop
  | .installed => True
  | .archive checked => keyEmbedded = true → checked = true

/-- The installed path holds a complete program. -/
def Intact (s : Install) : Prop := ∃ p, s.target = some (.whole p) ∧ Trusted keyEmbedded p

/-- The installed program stays where it is, and what takes its place is complete. -/
def Replaces (s : Install) (e : Event) : Prop :=
  match s.proc, e with
  | .lateBackup, .fileOp true => False
  | .applyBackup, .fileOp true => False
  | .newBackup, .fileOp true => False
  | .lateRename, .fileOp true => runs s.staged = true
  | .apply, .fileOp true => platform = .unix → runs s.staged = true
  | _, _ => True

/-! ## What is known in every run -/

/-- The archive the process is staging. -/
def archive? : Proc → Option Archive
  | .unlinkStaged a => some a
  | .copyBegin a => some a
  | .copyEnd a _ => some a
  | _ => none

/-- Between the two renames of a bundle. -/
def betweenRenames : Proc → Bool
  | .lateSwap => true
  | .lateRollback => true
  | .applySwap => true
  | _ => false

/-- The process runs from `<x>.new` and is about to leave it. -/
def fromNew : Proc → Bool
  | .newCleanup => true
  | .newBackup => true
  | .newSwap => true
  | _ => false

/-- A path with a complete program on it has a trusted one. -/
def Good (content : Option Content) : Prop :=
  ∀ p, content = some (.whole p) → Trusted keyEmbedded p

structure Inv (s : Install) : Prop where
  target : Good keyEmbedded s.target
  staged : Good keyEmbedded s.staged
  backup : Good keyEmbedded s.backup
  archive : ∀ a, archive? s.proc = some a → keyEmbedded = true → a.checked = true
  away : betweenRenames s.proc = true → s.target = none
  fromNew : fromNew s.proc = true → runs s.staged = true

variable {platform keyEmbedded} {s t : Install} {e : Event} {content : Option Content} {next : Proc}

theorem good_none : Good keyEmbedded none := nofun

theorem good_broken : Good keyEmbedded (some .broken) := nofun

theorem Good.remove (h : Good keyEmbedded content) (ok : Bool) :
    Good keyEmbedded (remove platform content ok) := by
  unfold SelfUpdate.remove
  split_ifs
  · exact good_none
  · cases content with
    | none => exact good_none
    | some c => exact good_broken
  · exact h

/-- What the counter tells about the paths: nothing, for most of its values. -/
def Plain (next : Proc) : Prop :=
  archive? next = none ∧ betweenRenames next = false ∧ Install.fromNew next = false

theorem Inv.of_plain (htarget : Good keyEmbedded t.target) (hstaged : Good keyEmbedded t.staged)
    (hbackup : Good keyEmbedded t.backup) (hplain : Plain t.proc) : Inv keyEmbedded t where
  target := htarget
  staged := hstaged
  backup := hbackup
  archive a ha := by
    rw [hplain.1] at ha
    cases ha
  away ha := by
    rw [hplain.2.1] at ha
    cases ha
  fromNew hn := by
    rw [hplain.2.2] at hn
    cases hn

theorem Inv.goto (h : Inv keyEmbedded s) (hplain : Plain next) :
    Inv keyEmbedded { s with proc := next } :=
  .of_plain h.target h.staged h.backup hplain

theorem Inv.swapIn (h : Inv keyEmbedded s) (hplain : Plain next) (ht : s.swapIn next = some t) :
    Inv keyEmbedded t := by
  obtain ⟨c, hc, rfl⟩ := Option.map_eq_some_iff.mp ht
  exact .of_plain (hc ▸ h.staged) good_none h.backup hplain

theorem moveAway_cases (ht : s.moveAway platform next = some t) :
    t.target = none ∧ t.staged = s.staged ∧ t.proc = next ∧
      (t.backup = s.target ∨ t.backup = s.backup) := by
  unfold Install.moveAway at ht
  cases hc : s.target with
  | none =>
      rw [hc] at ht
      cases ht
      exact ⟨rfl, rfl, rfl, .inr rfl⟩
  | some c =>
      rw [hc] at ht
      dsimp only at ht
      split_ifs at ht
      cases ht
      exact ⟨rfl, rfl, rfl, .inl rfl⟩

theorem Inv.moveAway (h : Inv keyEmbedded s) (harchive : archive? next = none)
    (hnew : Install.fromNew next = true → runs s.staged = true)
    (ht : s.moveAway platform next = some t) : Inv keyEmbedded t := by
  obtain ⟨htarget, hstaged, hproc, hbackup⟩ := moveAway_cases ht
  refine ⟨htarget ▸ good_none, hstaged ▸ h.staged, ?_, ?_, fun _ => htarget, ?_⟩
  · rcases hbackup with hb | hb
    · exact hb ▸ h.target
    · exact hb ▸ h.backup
  · intro a ha
    rw [hproc, harchive] at ha
    cases ha
  · rw [hproc, hstaged]
    exact hnew

theorem Inv.copied {a : Archive} {clean : Bool} (h : Inv keyEmbedded s)
    (ha : keyEmbedded = true → a.checked = true) : Inv keyEmbedded (s.copied platform a clean) := by
  have hcontent : Good keyEmbedded
      (some (if a.usable && clean then .whole (.archive a.checked) else .broken)) := by
    split_ifs
    · intro p hp
      cases hp
      exact ha
    · exact good_broken
  unfold Install.copied
  cases platform <;> exact .of_plain h.target hcontent h.backup ⟨rfl, rfl, rfl⟩

theorem lookForStaged_plain (s : Install) : Plain (s.lookForStaged platform) := by
  unfold Install.lookForStaged
  cases platform with
  | windows => exact ⟨rfl, rfl, rfl⟩
  | unix => dsimp only; split_ifs <;> exact ⟨rfl, rfl, rfl⟩
  | macBundle => dsimp only; split_ifs <;> exact ⟨rfl, rfl, rfl⟩

/-- A rename of `<x>.new` that may fail. -/
theorem inv_swapIn_or {next' : Proc} {ok : Bool}
    (ht : (if ok then s.swapIn next else some { s with proc := next' }) = some t)
    (h : Inv keyEmbedded s) (hplain : Plain next)
    (hfailed : Inv keyEmbedded { s with proc := next' }) : Inv keyEmbedded t := by
  split_ifs at ht
  · exact h.swapIn hplain ht
  · cases ht
    exact hfailed

theorem inv_moveAway_or {next' : Proc} {ok : Bool}
    (ht : (if ok then s.moveAway platform next else some { s with proc := next' }) = some t)
    (h : Inv keyEmbedded s) (harchive : archive? next = none)
    (hnew : fromNew next = true → runs s.staged = true)
    (hfailed : Inv keyEmbedded { s with proc := next' }) : Inv keyEmbedded t := by
  split_ifs at ht
  · exact h.moveAway harchive hnew ht
  · cases ht
    exact hfailed

/-- A removal of `<x>.old`. -/
theorem Inv.removeBackup (h : Inv keyEmbedded s) (ok : Bool) (hplain : Plain next) :
    Inv keyEmbedded { s with backup := remove platform s.backup ok, proc := next } :=
  .of_plain h.target h.staged (h.backup.remove ok) hplain

/-- The operations of `stage_from_archive`; the archive is the one that was checked. -/
theorem stage_inv {ok : Bool} {a : Archive} (h : Inv keyEmbedded s)
    (hp : archive? s.proc = some a) (ht : s.fileOp platform ok = some t) :
    Inv keyEmbedded t := by
  have ha := h.archive a hp
  have hstages : ∀ a', some a = some a' → keyEmbedded = true → a'.checked = true := by
    intro a' ha'
    cases ha'
    exact ha
  unfold fileOp at ht
  cases hproc : s.proc with
  | unlinkStaged b =>
      rw [hproc] at ht hp
      cases hp
      cases ht
      exact ⟨h.target, h.staged.remove ok, h.backup, hstages, nofun, nofun⟩
  | copyBegin b =>
      rw [hproc] at ht hp
      cases hp
      dsimp only at ht
      split_ifs at ht <;> cases ht
      · exact ⟨h.target, good_broken, h.backup, hstages, nofun, nofun⟩
      · exact h.goto ⟨rfl, rfl, rfl⟩
  | copyEnd b clean =>
      rw [hproc] at ht hp
      cases hp
      dsimp only at ht
      split_ifs at ht <;> cases ht
      · exact h.copied ha
      · exact h.goto ⟨rfl, rfl, rfl⟩
  | _ =>
      rw [hproc] at hp
      cases hp

/-- `restart_to_apply` begins. -/
theorem apply_inv {ok : Bool} (h : Inv keyEmbedded s) (hp : s.proc = .apply)
    (ht : s.fileOp platform ok = some t) : Inv keyEmbedded t := by
  have hrun : Inv keyEmbedded { s with proc := .running } := h.goto ⟨rfl, rfl, rfl⟩
  simp only [fileOp, hp] at ht
  cases platform with
  | unix => exact inv_swapIn_or ht h ⟨rfl, rfl, rfl⟩ hrun
  | macBundle =>
      dsimp only at ht
      split_ifs at ht <;> cases ht
      · exact h.goto ⟨rfl, rfl, rfl⟩
      · exact hrun
  | windows =>
      dsimp only at ht
      split_ifs at ht with hok hruns <;> cases ht
      · exact ⟨h.target, h.staged, h.backup, nofun, nofun, fun _ => hruns⟩
      · exact hrun

theorem fileOp_inv {ok : Bool} (h : Inv keyEmbedded s) (ht : s.fileOp platform ok = some t) :
    Inv keyEmbedded t := by
  have hrun : Inv keyEmbedded { s with proc := .running } := h.goto ⟨rfl, rfl, rfl⟩
  have hfile := ht
  unfold fileOp at ht
  cases hp : s.proc with
  | off | running | newRunning => simp [hp] at ht
  | unlinkStaged a | copyBegin a | copyEnd a clean =>
      exact stage_inv (a := a) h (by rw [hp]; rfl) hfile
  | apply => exact apply_inv h hp hfile
  | cleanupStaleOld =>
      simp only [hp] at ht
      cases ht
      split_ifs
      · exact h.goto (lookForStaged_plain _)
      · exact h.removeBackup ok (lookForStaged_plain _)
  | lateCleanup | applyCleanup =>
      simp only [hp] at ht
      cases ht
      exact h.removeBackup ok ⟨rfl, rfl, rfl⟩
  | lateRename | applySwap =>
      simp only [hp] at ht
      exact inv_swapIn_or ht h ⟨rfl, rfl, rfl⟩ hrun
  | lateBackup | applyBackup =>
      simp only [hp] at ht
      exact inv_moveAway_or ht h rfl nofun hrun
  | lateSwap =>
      simp only [hp] at ht
      -- the target is still away when the rename has failed
      have haway : s.target = none := h.away (by rw [hp]; rfl)
      exact inv_swapIn_or ht h ⟨rfl, rfl, rfl⟩
        ⟨h.target, h.staged, h.backup, nofun, fun _ => haway, nofun⟩
  | lateRollback =>
      simp only [hp] at ht
      split_ifs at ht
      · obtain ⟨c, hc, rfl⟩ := Option.map_eq_some_iff.mp ht
        exact .of_plain (hc ▸ h.backup) h.staged good_none ⟨rfl, rfl, rfl⟩
      · cases ht
        exact hrun
  | setMode =>
      simp only [hp] at ht
      cases ht
      exact .of_plain h.target h.staged h.backup ⟨rfl, rfl, rfl⟩
  | relaunch =>
      simp only [hp] at ht
      split_ifs at ht <;> cases ht
      · exact .of_plain h.target h.staged h.backup ⟨rfl, rfl, rfl⟩
      · exact hrun
  | newCleanup =>
      simp only [hp] at ht
      cases ht
      have hruns : runs s.staged = true := h.fromNew (by rw [hp]; rfl)
      exact ⟨h.target, h.staged, h.backup.remove ok, nofun, nofun, fun _ => hruns⟩
  | newBackup =>
      simp only [hp] at ht
      have hruns : runs s.staged = true := h.fromNew (by rw [hp]; rfl)
      exact inv_moveAway_or ht h rfl (fun _ => hruns)
        ⟨h.target, h.staged, h.backup, nofun, nofun, fun _ => hruns⟩
  | newSwap =>
      simp only [hp] at ht
      exact inv_swapIn_or ht h ⟨rfl, rfl, rfl⟩ (h.goto ⟨rfl, rfl, rfl⟩)

theorem step_inv (h : Inv keyEmbedded s) (ht : s.step platform keyEmbedded e = some t) :
    Inv keyEmbedded t := by
  cases e with
  | start =>
      simp only [step] at ht
      split_ifs at ht
      cases ht
      exact h.goto ⟨rfl, rfl, rfl⟩
  | download a =>
      simp only [step] at ht
      split_ifs at ht
      cases ht
      unfold beginStaging
      split_ifs with hunchecked husable
      · exact h
      · exact h
      · refine ⟨h.target, h.staged, h.backup, ?_, nofun, nofun⟩
        intro a' ha' hkey
        cases ha'
        simpa [hkey] using hunchecked
  | restart =>
      simp only [step] at ht
      split_ifs at ht
      cases ht
      exact h.goto ⟨rfl, rfl, rfl⟩
  | fileOp ok => exact fileOp_inv h ht
  | crash =>
      cases ht
      exact .of_plain h.target h.staged h.backup ⟨rfl, rfl, rfl⟩

theorem init_inv : Inv keyEmbedded init := by
  refine .of_plain ?_ good_none good_none ⟨rfl, rfl, rfl⟩
  intro p hp
  cases hp
  exact True.intro

/-! ## Which steps keep the installed program -/

theorem Inv.intact_iff (h : Inv keyEmbedded s) : Intact keyEmbedded s ↔ runs s.target = true := by
  constructor
  · rintro ⟨p, hp, -⟩
    rw [hp]
    rfl
  · intro hruns
    match hc : s.target with
    | none => simp [hc, runs] at hruns
    | some .broken => simp [hc, runs] at hruns
    | some (.whole p) => exact ⟨p, hc, h.target p hc⟩

theorem runs_swapIn (ht : s.swapIn next = some t) : runs t.target = runs s.staged := by
  obtain ⟨c, hc, rfl⟩ := Option.map_eq_some_iff.mp ht
  rw [hc]

theorem runs_moveAway (ht : s.moveAway platform next = some t) : runs t.target = false := by
  rw [(moveAway_cases ht).1]
  rfl

/-- A rename of `<x>.new` onto the installed path keeps a program there if it brings one. -/
theorem runs_swapIn_or {next' : Proc} {ok : Bool}
    (ht : (if ok then s.swapIn next else some { s with proc := next' }) = some t)
    (hs : runs s.target = true) : runs t.target = true ↔ (ok = true → runs s.staged = true) := by
  cases ok with
  | true =>
      rw [runs_swapIn ht]
      exact ⟨fun h _ => h, fun h => h rfl⟩
  | false =>
      cases ht
      exact iff_of_true hs nofun

theorem runs_moveAway_or {next' : Proc} {ok : Bool}
    (ht : (if ok then s.moveAway platform next else some { s with proc := next' }) = some t)
    (hs : runs s.target = true) : runs t.target = true ↔ ok = false := by
  cases ok with
  | true => simp [runs_moveAway ht]
  | false =>
      cases ht
      exact iff_of_true hs rfl

theorem not_runs_of_away (h : Inv keyEmbedded s) (hp : betweenRenames s.proc = true) :
    ¬runs s.target = true := by
  rw [h.away hp]
  exact Bool.false_ne_true

theorem copied_target (a : Archive) (clean : Bool) :
    (s.copied platform a clean).target = s.target := by
  cases platform <;> rfl

/-- The operations on other paths than the installed one. -/
def sparesTarget (platform : Platform) : Proc → Bool
  | .cleanupStaleOld | .lateCleanup | .unlinkStaged _ | .copyBegin _ | .copyEnd .. | .setMode => true
  | .apply => platform ≠ .unix
  | .applyCleanup | .relaunch | .newCleanup => true
  | _ => false

theorem fileOp_target {ok : Bool} (hspares : sparesTarget platform s.proc = true)
    (ht : s.fileOp platform ok = some t) : t.target = s.target := by
  unfold fileOp at ht
  cases hp : s.proc with
  | cleanupStaleOld =>
      simp only [hp] at ht
      cases ht
      split_ifs <;> rfl
  | lateCleanup | unlinkStaged a | setMode | applyCleanup | newCleanup =>
      simp only [hp] at ht
      cases ht
      rfl
  | copyBegin a | relaunch =>
      simp only [hp] at ht
      split_ifs at ht <;> cases ht <;> rfl
  | copyEnd a clean =>
      simp only [hp] at ht
      split_ifs at ht <;> cases ht
      · exact copied_target a clean
      · rfl
  | apply =>
      simp only [hp] at ht
      cases platform with
      | unix => simp [hp, sparesTarget] at hspares
      | macBundle | windows =>
          dsimp only at ht
          split_ifs at ht <;> cases ht <;> rfl
  | _ => simp [hp, sparesTarget] at hspares

theorem replaces_of_spares {ok : Bool} (hspares : sparesTarget platform s.proc = true) :
    Replaces platform s (.fileOp ok) := by
  unfold Replaces
  cases hp : s.proc with
  | apply =>
      rw [hp] at hspares
      cases ok
      · exact True.intro
      · intro hunix
        simp [hunix, sparesTarget] at hspares
  | lateBackup | applyBackup | newBackup | lateRename => simp [hp, sparesTarget] at hspares
  | _ => exact True.intro

theorem fileOp_runs_iff {ok : Bool} (h : Inv keyEmbedded s) (hs : runs s.target = true)
    (ht : s.fileOp platform ok = some t) :
    runs t.target = true ↔ Replaces platform s (.fileOp ok) := by
  by_cases hspares : sparesTarget platform s.proc = true
  · refine iff_of_true ?_ (replaces_of_spares hspares)
    rw [fileOp_target hspares ht]
    exact hs
  unfold fileOp at ht
  unfold Replaces
  cases hp : s.proc with
  | off | running | newRunning => simp [hp] at ht
  | lateSwap | lateRollback | applySwap =>
      exact absurd hs (not_runs_of_away h (by rw [hp]; rfl))
  | lateRename =>
      simp only [hp] at ht
      rw [runs_swapIn_or ht hs]
      cases ok <;> simp
  | apply =>
      obtain rfl : platform = .unix := by simpa [hp, sparesTarget] using hspares
      simp only [hp] at ht
      rw [runs_swapIn_or ht hs]
      cases ok <;> simp
  | lateBackup | applyBackup | newBackup =>
      simp only [hp] at ht
      rw [runs_moveAway_or ht hs]
      cases ok <;> simp
  | newSwap =>
      simp only [hp] at ht
      -- a process that runs from `<x>.new` has a complete program there
      have hstaged : runs s.staged = true := h.fromNew (by rw [hp]; rfl)
      rw [runs_swapIn_or ht hs]
      exact iff_of_true (fun _ => hstaged) True.intro
  | _ => simp [hp, sparesTarget] at hspares

theorem step_runs_iff (h : Inv keyEmbedded s) (hs : runs s.target = true)
    (ht : s.step platform keyEmbedded e = some t) :
    runs t.target = true ↔ Replaces platform s e := by
  cases e with
  | fileOp ok => exact fileOp_runs_iff h hs ht
  | start =>
      simp only [step] at ht
      split_ifs at ht
      cases ht
      refine iff_of_true hs ?_
      unfold Replaces
      cases s.proc <;> exact True.intro
  | download a =>
      simp only [step] at ht
      split_ifs at ht with hp
      cases ht
      unfold Replaces
      rw [hp]
      refine iff_of_true ?_ True.intro
      unfold beginStaging
      split_ifs <;> exact hs
  | restart =>
      simp only [step] at ht
      split_ifs at ht with hp
      cases ht
      unfold Replaces
      rw [hp.1]
      exact iff_of_true hs True.intro
  | crash =>
      cases ht
      refine iff_of_true hs ?_
      unfold Replaces
      cases s.proc <;> exact True.intro

theorem step_intact_iff (h : Inv keyEmbedded s) (hs : Intact keyEmbedded s)
    (ht : s.step platform keyEmbedded e = some t) :
    Intact keyEmbedded t ↔ Replaces platform s e := by
  rw [(step_inv h ht).intact_iff]
  exact step_runs_iff h (h.intact_iff.mp hs) ht

/-- **Self-update.** In every run of downloads, restarts, starts, failures and crashes the installed
path holds a complete program, the one that was installed or one out of a checked archive, if and
only if no step moves the program away and no step puts an incomplete `<x>.new` in its place. -/
theorem intact_iff_replaces (platform : Platform) (keyEmbedded : Bool) (es : List Event) :
    StepRun.AllStates (step platform keyEmbedded) (Intact keyEmbedded) init es ↔
      StepRun.AllSteps (step platform keyEmbedded) (Replaces platform) init es :=
  StepRun.allStates_iff_allSteps_of_inv (fun _ _ _ => step_inv)
    (fun _ _ _ => step_intact_iff) init_inv ⟨.installed, rfl, True.intro⟩ es

/-- A file copy of a checked update stops half-way, and the next start puts the part that is there
in the place of the program. In a bundle the process crashes between the two renames. -/
theorem update_not_atomic :
    (¬StepRun.AllStates (step .unix true) (Intact true) init
      [.start, .fileOp true, .download ⟨true, true⟩, .fileOp true, .fileOp true, .crash,
        .start, .fileOp true, .fileOp true]) ∧
    ¬StepRun.AllStates (step .macBundle true) (Intact true) init
      [.start, .fileOp true, .download ⟨true, true⟩, .fileOp true, .fileOp true, .fileOp true,
        .restart, .fileOp true, .fileOp true, .fileOp true, .crash] := by
  constructor
  · intro h
    have hend := StepRun.allStates_last (t := ⟨some .broken, none, none, false, .running⟩) h rfl
    obtain ⟨p, hp, -⟩ := hend
    cases hp
  · intro h
    have hend := StepRun.allStates_last (t := ⟨none, some (.whole (.archive true)),
      some (.whole .installed), false, .off⟩) h rfl
    obtain ⟨p, hp, -⟩ := hend
    cases hp

end Install

end Rahgozar.Desktop.SelfUpdate
