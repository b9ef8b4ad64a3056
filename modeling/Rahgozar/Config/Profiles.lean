import Rahgozar.Config.RefreshToken

set_option autoImplicit false

/-! # The profile store

`profiles.json` holds named snapshots of `config.json` and the name of the active one. The
operations are those of `src/profiles.rs` and of `ProfileStore.kt`; some of them write
`config.json` as well. Each file is replaced at once or not at all, and which of an operation's
writes succeed is part of the event.
-/

namespace Rahgozar.Config

/-! ## The two files -/

/-- A JSON object as the store sees it: the `drive` object and the rest of the keys. -/
structure Snapshot (R : Type) where
  drive : Option DriveObject
  rest : R
deriving DecidableEq

/-- `config.json` -/
inductive Live (R : Type) where
  | missing
  | unreadable
  | object (json : Snapshot R)
deriving DecidableEq

/-- What `prepareForSave` sees of it. -/
def Live.file {R : Type} : Live R → ConfigJson
  | missing => .missing
  | unreadable => .unreadable
  | object json => .object json.drive

/-- A configuration in a form; `rest` is what the other fields are written as. -/
structure RahgozarConfig (R : Type) where
  form : Form
  rest : R
deriving DecidableEq

def RahgozarConfig.toJson {R : Type} (cfg : RahgozarConfig R) : Snapshot R :=
  ⟨some cfg.form.toJson.drive, cfg.rest⟩

/-- What `ConfigStore.save` writes. -/
def savedJson {R : Type} (live : Live R) (cfg : RahgozarConfig R) : Snapshot R :=
  RahgozarConfig.toJson { cfg with form := prepareForSave live.file cfg.form }

/-- `config.json` has a token of the client in the form. -/
def HoldsTokenOf (file : ConfigJson) (form : Form) : Prop :=
  ∃ drive, file = .object (some drive) ∧ trimKotlin drive.oauthRefreshToken ≠ [] ∧
    trimKotlin drive.oauthClientId = trimKotlin form.driveOauthClientId ∧
    trimKotlin drive.oauthClientSecret = trimKotlin form.driveOauthClientSecret

/-- A save does not merge the token of the file into the form, nor does it drop the form's own. -/
def KeepsToken (file : ConfigJson) (form : Form) : Prop :=
  file = .missing ∨
    (HoldsTokenOf file form ∧ isBlank form.driveOauthRefreshTokenSnapshot = false) ∨
    (¬HoldsTokenOf file form ∧ form.driveOauthRefreshTokenSnapshot = [])

theorem withoutRefreshToken_eq_self_iff {form : Form} :
    form.withoutRefreshToken = form ↔ form.driveOauthRefreshTokenSnapshot = [] := by
  constructor
  · intro h
    rw [← h]
    rfl
  · intro h
    rw [Form.withoutRefreshToken, ← h]

/-- A token that comes from the file is not the form's blank one. -/
theorem trimKotlin_ne_of_isBlank {token text : Text} (htoken : trimKotlin token ≠ [])
    (hblank : isBlank text = true) : trimKotlin token ≠ text := by
  intro h
  apply htoken
  have hall : ∀ c ∈ text, isWhitespaceKotlin c = true := List.all_eq_true.mp hblank
  have hnil : trimKotlin (trimKotlin token) = [] := by
    rw [h]
    exact Trim.trim_eq_nil_iff.mpr hall
  rwa [trimKotlin, trimKotlin, Trim.trim_idem] at hnil

theorem prepareForSave_eq_self_iff (file : ConfigJson) (form : Form) :
    prepareForSave file form = form ↔ KeepsToken file form := by
  have hwithout (hnot : ¬HoldsTokenOf file form) (hfile : file ≠ .missing) :
      form.withoutRefreshToken = form ↔ KeepsToken file form := by
    rw [withoutRefreshToken_eq_self_iff]
    simp [KeepsToken, hnot, hfile]
  unfold prepareForSave
  split
  · exact iff_of_true rfl (.inl rfl)
  · exact hwithout (fun ⟨drive, h, _⟩ => nomatch h) nofun
  · exact hwithout (fun ⟨drive, h, _⟩ => nomatch h) nofun
  · rename_i drive
    dsimp only
    split_ifs with hempty hids hblank
    · refine hwithout (fun ⟨d, hd, htoken, _⟩ => ?_) nofun
      cases hd
      exact htoken (List.isEmpty_iff.mp hempty)
    · refine hwithout (fun ⟨d, hd, _, hid, hsecret⟩ => ?_) nofun
      cases hd
      exact hids.elim (absurd hid) (absurd hsecret)
    all_goals
      have htoken : trimKotlin drive.oauthRefreshToken ≠ [] := by simpa using hempty
      rw [not_or, not_not, not_not] at hids
      have hholds : HoldsTokenOf (.object (some drive)) form := ⟨drive, rfl, htoken, hids⟩
    · refine iff_of_false (fun h => ?_) ?_
      · exact trimKotlin_ne_of_isBlank htoken hblank
          (congrArg Form.driveOauthRefreshTokenSnapshot h)
      · simp [KeepsToken, hholds, hblank]
    · exact iff_of_true rfl (.inr (.inl ⟨hholds, by simpa using hblank⟩))

/-- Nothing but the token of a form is changed. -/
theorem prepareForSave_eq (file : ConfigJson) (form : Form) :
    prepareForSave file form = { form with
      driveOauthRefreshTokenSnapshot :=
        (prepareForSave file form).driveOauthRefreshTokenSnapshot } := by
  unfold prepareForSave
  split
  · rfl
  · rfl
  · rfl
  · dsimp only
    split_ifs <;> rfl

/-- When the form is what `ConfigStore.save` writes. -/
theorem toJson_eq_savedJson_iff {R : Type} (live : Live R) (cfg : RahgozarConfig R) :
    cfg.toJson = savedJson live cfg ↔ KeepsToken live.file cfg.form := by
  rw [← prepareForSave_eq_self_iff]
  constructor
  · intro h
    have hsome := congrArg (fun json => json.drive.map DriveObject.oauthRefreshToken) h
    have htoken : cfg.form.driveOauthRefreshTokenSnapshot =
        (prepareForSave live.file cfg.form).driveOauthRefreshTokenSnapshot :=
      Option.some_inj.mp hsome
    rw [prepareForSave_eq, ← htoken]
  · intro h
    rw [savedJson, h]

structure Profile (R : Type) where
  name : Text
  config : Snapshot R
deriving DecidableEq

structure ProfilesFile (R : Type) where
  active : Text
  profiles : List (Profile R)
deriving DecidableEq

/-- Both files; `profiles` is `none` when there is no `profiles.json`. -/
structure Disk (R : Type) where
  config : Live R
  profiles : Option (ProfilesFile R)
deriving DecidableEq

inductive ErrorKind where
  | emptyName
  | duplicate
  | notFound
  | corruptOnDisk
  /-- the snapshot would not run -/
  | invalidSnapshot
  | saveFailed
deriving DecidableEq

/-- `MutationResult`, `ApplyResult` and `Result<ApplyOutcome, ProfileError>` -/
inductive Outcome where
  | ok
  | partialConfigOnly
  | error (kind : ErrorKind)
deriving DecidableEq

namespace ProfilesFile

variable {R : Type} (pf : ProfilesFile R)

def empty : ProfilesFile R := ⟨[], []⟩

def find (name : Text) : Option (Profile R) := pf.profiles.find? fun p => p.name = name

/-- The profile of this name gets another; the first one, if there are several. -/
def renameFirst (name target : Text) : List (Profile R) → List (Profile R)
  | [] => []
  | p :: ps => if p.name = name then { p with name := target } :: ps
      else p :: renameFirst name target ps

/-! ## `src/profiles.rs` -/

/-- `load_from`; a file that is not there is an empty store. -/
def loadFrom : Option (ProfilesFile R) → Except ErrorKind (ProfilesFile R)
  | none => .ok empty
  | some pf =>
      if (pf.profiles.any fun p => (trimRust p.name).isEmpty) then .error .corruptOnDisk
      else if (pf.profiles.map Profile.name).Nodup then .ok pf
      else .error .corruptOnDisk

def rename (name target : Text) : Except ErrorKind (ProfilesFile R) :=
  let target := trimRust target
  if target.isEmpty then .error .emptyName
  else if name ≠ target ∧ (pf.find target).isSome then .error .duplicate
  else if (pf.find name).isNone then .error .notFound
  else .ok ⟨if pf.active = name then target else pf.active, renameFirst name target pf.profiles⟩

def delete (name : Text) : Except ErrorKind (ProfilesFile R) :=
  if (pf.find name).isNone then .error .notFound
  else .ok ⟨if pf.active = name then [] else pf.active, pf.profiles.eraseP fun p => p.name = name⟩

def duplicate (name target : Text) : Except ErrorKind (ProfilesFile R) :=
  let target := trimRust target
  if target.isEmpty then .error .emptyName
  else if (pf.find target).isSome then .error .duplicate
  else
    match pf.find name with
    | none => .error .notFound
    | some src => .ok { pf with profiles := pf.profiles ++ [⟨target, src.config⟩] }

end ProfilesFile

namespace Disk

open ProfilesFile

variable {R : Type} (d : Disk R)

/-- `save` of the profiles, and what is reported when it fails. -/
def saveProfiles (written : Bool) (pf : ProfilesFile R) (failed : Outcome) : Disk R × Outcome :=
  if written then ({ d with profiles := some pf }, .ok) else (d, failed)

/-- `config.json` is replaced, and then `profiles.json`. -/
def saveBoth (configWritten profilesWritten : Bool) (json : Snapshot R) (pf : ProfilesFile R) :
    Disk R × Outcome :=
  if configWritten then
    saveProfiles { d with config := .object json } profilesWritten pf .partialConfigOnly
  else (d, .error .saveFailed)

/-- A load, an operation on what was loaded, and a `save_to`. -/
def rustEdit (written : Bool) (edit : ProfilesFile R → Except ErrorKind (ProfilesFile R)) :
    Disk R × Outcome :=
  match loadFrom d.profiles with
  | .error kind => (d, .error kind)
  | .ok pf =>
      match edit pf with
      | .error kind => (d, .error kind)
      | .ok pf' => d.saveProfiles written pf' (.error .saveFailed)

/-- `apply_profile_with_paths`; `loadable` is `validate_snapshot_loadable`. -/
def applyProfileWithPaths (loadable : Snapshot R → Bool) (configWritten profilesWritten : Bool)
    (name : Text) : Disk R × Outcome :=
  match loadFrom d.profiles with
  | .error kind => (d, .error kind)
  | .ok pf =>
      match pf.find name with
      | none => (d, .error .notFound)
      | some p =>
          if !loadable p.config then (d, .error .corruptOnDisk)
          else d.saveBoth configWritten profilesWritten p.config { pf with active := name }

/-! ## `ProfileStore.kt` -/

inductive LoadResult (R : Type) where
  | ok (state : ProfilesFile R)
  | missing
  | corrupt

def loadStrict : Option (ProfilesFile R) → LoadResult R
  | none => .missing
  | some pf =>
      if (pf.profiles.any fun p => isBlank p.name) then .corrupt
      else if (pf.profiles.map Profile.name).Nodup then .ok pf
      else .corrupt

/-- The operations that want a file: what they do with the state in it. -/
def withState (run : ProfilesFile R → Disk R × Outcome) : Disk R × Outcome :=
  match loadStrict d.profiles with
  | .ok state => run state
  | .missing => (d, .error .notFound)
  | .corrupt => (d, .error .corruptOnDisk)

/-- The operations to which a missing file is an empty store. -/
def withStateOrEmpty (run : ProfilesFile R → Disk R × Outcome) : Disk R × Outcome :=
  match loadStrict d.profiles with
  | .ok state => run state
  | .missing => run empty
  | .corrupt => (d, .error .corruptOnDisk)

/-- `applyProfile`; `runs` is `validateRuntimeShape` of a snapshot that decodes. -/
def applyProfile (runs : Snapshot R → Bool) (configWritten profilesWritten : Bool) (name : Text) :
    Disk R × Outcome :=
  d.withState fun state =>
    match state.find name with
    | none => (d, .error .notFound)
    | some p =>
        if !runs p.config then (d, .error .invalidSnapshot)
        else d.saveBoth configWritten profilesWritten p.config { state with active := name }

def upsert (configWritten profilesWritten : Bool) (name : Text) (cfg : RahgozarConfig R) :
    Disk R × Outcome :=
  let trimmed := trimKotlin name
  if trimmed.isEmpty then (d, .error .emptyName)
  else
    d.withStateOrEmpty fun state =>
      let snapshot := cfg.toJson
      let newList :=
        if (state.find trimmed).isSome then
          state.profiles.map fun p => if p.name = trimmed then ⟨trimmed, snapshot⟩ else p
        else state.profiles ++ [⟨trimmed, snapshot⟩]
      d.saveBoth configWritten profilesWritten (savedJson d.config cfg) ⟨trimmed, newList⟩

def insertNew (configWritten profilesWritten : Bool) (name : Text) (cfg : RahgozarConfig R) :
    Disk R × Outcome :=
  let trimmed := trimKotlin name
  if trimmed.isEmpty then (d, .error .emptyName)
  else
    d.withStateOrEmpty fun state =>
      if (state.find trimmed).isSome then (d, .error .duplicate)
      else d.saveBoth configWritten profilesWritten (savedJson d.config cfg)
        ⟨trimmed, state.profiles ++ [⟨trimmed, cfg.toJson⟩]⟩

def rename (written : Bool) (name target : Text) : Disk R × Outcome :=
  let toTrimmed := trimKotlin target
  if toTrimmed.isEmpty then (d, .error .emptyName)
  else
    d.withState fun state =>
      if (state.find name).isNone then (d, .error .notFound)
      else if name ≠ toTrimmed ∧ (state.find toTrimmed).isSome then (d, .error .duplicate)
      else d.saveProfiles written
        ⟨if state.active = name then toTrimmed else state.active,
          state.profiles.map fun p => if p.name = name then { p with name := toTrimmed } else p⟩
        (.error .saveFailed)

def delete (written : Bool) (name : Text) : Disk R × Outcome :=
  d.withState fun state =>
    if (state.find name).isNone then (d, .error .notFound)
    else d.saveProfiles written
      ⟨if state.active = name then [] else state.active,
        state.profiles.eraseP fun p => p.name = name⟩ (.error .saveFailed)

def duplicate (written : Bool) (name target : Text) : Disk R × Outcome :=
  let toTrimmed := trimKotlin target
  if toTrimmed.isEmpty then (d, .error .emptyName)
  else
    d.withState fun state =>
      match state.find name with
      | none => (d, .error .notFound)
      | some src =>
          if (state.find toTrimmed).isSome then (d, .error .duplicate)
          else d.saveProfiles written
            ⟨state.active, state.profiles ++ [⟨toTrimmed, src.config⟩]⟩ (.error .saveFailed)

/-- `clearActiveIfAny`; nobody hears of a failure. -/
def clearActiveIfAny (written : Bool) : Disk R :=
  match loadStrict d.profiles with
  | .ok state =>
      if state.active.isEmpty then d else (d.saveProfiles written { state with active := [] } .ok).1
  | _ => d

/-- An edit in the form: `ConfigStore.save`, and behind it `clearActiveIfAny`. -/
def persist (configWritten profilesWritten : Bool) (cfg : RahgozarConfig R) : Disk R × Outcome :=
  if configWritten then
    (clearActiveIfAny { d with config := .object (savedJson d.config cfg) } profilesWritten, .ok)
  else (d, .error .saveFailed)

end Disk

/-! ## Runs -/

inductive ProfileOp (R : Type) where
  | rustRename (name target : Text)
  | rustDelete (name : Text)
  | rustDuplicate (name target : Text)
  | applyProfileWithPaths (name : Text)
  | applyProfile (name : Text)
  | upsert (name : Text) (cfg : RahgozarConfig R)
  | insertNew (name : Text) (cfg : RahgozarConfig R)
  | rename (name target : Text)
  | delete (name : Text)
  | duplicate (name target : Text)
  | persist (cfg : RahgozarConfig R)

structure ProfileEvent (R : Type) where
  op : ProfileOp R
  configWritten : Bool
  profilesWritten : Bool

/-- The two checks of a snapshot before it is applied. -/
structure Checks (R : Type) where
  validateSnapshotLoadable : Snapshot R → Bool
  validateRuntimeShape : Snapshot R → Bool

namespace Disk

variable {R : Type} (checks : Checks R)

def perform (d : Disk R) (e : ProfileEvent R) : Disk R × Outcome :=
  match e.op with
  | .rustRename name target => d.rustEdit e.profilesWritten fun pf => pf.rename name target
  | .rustDelete name => d.rustEdit e.profilesWritten fun pf => pf.delete name
  | .rustDuplicate name target => d.rustEdit e.profilesWritten fun pf => pf.duplicate name target
  | .applyProfileWithPaths name =>
      d.applyProfileWithPaths checks.validateSnapshotLoadable e.configWritten e.profilesWritten name
  | .applyProfile name =>
      d.applyProfile checks.validateRuntimeShape e.configWritten e.profilesWritten name
  | .upsert name cfg => d.upsert e.configWritten e.profilesWritten name cfg
  | .insertNew name cfg => d.insertNew e.configWritten e.profilesWritten name cfg
  | .rename name target => d.rename e.profilesWritten name target
  | .delete name => d.delete e.profilesWritten name
  | .duplicate name target => d.duplicate e.profilesWritten name target
  | .persist cfg => d.persist e.configWritten e.profilesWritten cfg

def step (d : Disk R) (e : ProfileEvent R) : Option (Disk R) := some (d.perform checks e).1

/-- No profile yet. -/
def start (config : Live R) : Disk R := ⟨config, none⟩

/-- The active profile, if there is one, is the live configuration. -/
def Matches (profiles : Option (ProfilesFile R)) (config : Live R) : Prop :=
  ∀ pf, profiles = some pf → pf.active ≠ [] →
    ∃ p ∈ pf.profiles, p.name = pf.active ∧ config = .object p.config

def NamesOk (pf : ProfilesFile R) : Prop :=
  (∀ p ∈ pf.profiles, p.name ≠ []) ∧ (pf.profiles.map Profile.name).Nodup

structure Sound (d : Disk R) : Prop where
  active : Matches d.profiles d.config
  names : ∀ pf, d.profiles = some pf → NamesOk pf

/-- An error other than `PartialConfigOnly` leaves both files as they are. -/
def ErrorsClean (d : Disk R) (e : ProfileEvent R) : Prop :=
  ∀ kind, (d.perform checks e).2 = .error kind → (d.perform checks e).1 = d

/-! ## The condition -/

/-- What an operation writes to `config.json`, if it comes to that. -/
def configWrite (d : Disk R) : ProfileOp R → Option (Snapshot R)
  | .applyProfileWithPaths name =>
      match ProfilesFile.loadFrom d.profiles with
      | .error _ => none
      | .ok pf => (pf.find name).bind fun p =>
          if checks.validateSnapshotLoadable p.config then some p.config else none
  | .applyProfile name =>
      match loadStrict d.profiles with
      | .ok pf => (pf.find name).bind fun p =>
          if checks.validateRuntimeShape p.config then some p.config else none
      | _ => none
  | .upsert name cfg =>
      match loadStrict d.profiles with
      | .corrupt => none
      | _ => if (trimKotlin name).isEmpty then none else some (savedJson d.config cfg)
  | .insertNew name cfg =>
      match loadStrict d.profiles with
      | .corrupt => none
      | .missing => if (trimKotlin name).isEmpty then none else some (savedJson d.config cfg)
      | .ok pf =>
          if (trimKotlin name).isEmpty || (pf.find (trimKotlin name)).isSome then none
          else some (savedJson d.config cfg)
  | .persist cfg => some (savedJson d.config cfg)
  | _ => none

/-- The form whose snapshot an operation stores beside it. -/
def storedForm : ProfileOp R → Option (RahgozarConfig R)
  | .upsert _ cfg => some cfg
  | .insertNew _ cfg => some cfg
  | _ => none

/-- Is the pointer written behind `config.json`? An edit does not write over a file it cannot
read. -/
def movesPointer (d : Disk R) (e : ProfileEvent R) : Bool :=
  e.profilesWritten &&
    match e.op, loadStrict d.profiles with
    | .persist _, .corrupt => false
    | _, _ => true

/-- Of an operation that writes `config.json`: if the pointer is written as well, the form stored
beside it is saved with its own token; if that write fails or is left out, no other profile than
what was written is active. -/
def WritesMatch (d : Disk R) (e : ProfileEvent R) : Prop :=
  e.configWritten = true → ∀ json, d.configWrite checks e.op = some json →
    if d.movesPointer e then ∀ cfg, storedForm e.op = some cfg → KeepsToken d.config.file cfg.form
    else Matches d.profiles (.object json)

/-! ## Names -/

variable {d : Disk R} {pf : ProfilesFile R} {p : Profile R} {name target : Text}

theorem mem_of_find (h : pf.find name = some p) : p ∈ pf.profiles ∧ p.name = name :=
  ⟨List.mem_of_find?_eq_some h, by simpa using List.find?_some h⟩

theorem ne_of_find_none (h : ¬ (pf.find name).isSome = true) :
    ∀ p ∈ pf.profiles, p.name ≠ name := by
  rw [Bool.not_eq_true, Option.isSome_eq_false_iff, Option.isNone_iff_eq_none] at h
  intro p hp
  simpa using List.find?_eq_none.mp h p hp

/-- One name, one profile. -/
theorem NamesOk.unique (h : NamesOk pf) {p q : Profile R} (hp : p ∈ pf.profiles)
    (hq : q ∈ pf.profiles) (hname : p.name = q.name) : p = q :=
  List.inj_on_of_nodup_map h.2 hp hq hname

theorem NamesOk.append (h : NamesOk pf) (hne : target ≠ [])
    (hfresh : ∀ p ∈ pf.profiles, p.name ≠ target) (active : Text) (config : Snapshot R) :
    NamesOk ⟨active, pf.profiles ++ [⟨target, config⟩]⟩ := by
  constructor
  · intro p hp
    rcases List.mem_append.mp hp with hold | hnew
    · exact h.1 p hold
    · rw [List.mem_singleton] at hnew
      exact hnew ▸ hne
  · rw [List.map_append, List.map_singleton, List.nodup_append]
    refine ⟨h.2, List.nodup_singleton _, ?_⟩
    intro n hn m hm
    obtain ⟨p, hp, rfl⟩ := List.mem_map.mp hn
    rw [List.mem_singleton] at hm
    exact hm ▸ hfresh p hp

theorem renameFirst_eq_map (name target : Text) (ps : List (Profile R))
    (h : (ps.map Profile.name).Nodup) :
    ProfilesFile.renameFirst name target ps =
      ps.map fun p => if p.name = name then { p with name := target } else p := by
  induction ps with
  | nil => rfl
  | cons p ps ih =>
      rw [List.map_cons, List.nodup_cons] at h
      rw [ProfilesFile.renameFirst, List.map_cons]
      split_ifs with hp
      · -- no other profile has the name
        have hrest : ps.map (fun q => if q.name = name then { q with name := target } else q) =
            ps.map id := by
          refine List.map_congr_left fun q hq => if_neg fun hqn => h.1 ?_
          rw [hp, ← hqn]
          exact List.mem_map_of_mem hq
        rw [hrest, List.map_id]
      · rw [ih h.2]

/-- The profiles with another name for one of them. -/
def renamed (pf : ProfilesFile R) (name target : Text) : ProfilesFile R :=
  ⟨if pf.active = name then target else pf.active,
    pf.profiles.map fun p => if p.name = name then { p with name := target } else p⟩

theorem NamesOk.renamed (h : NamesOk pf) (hne : target ≠ [])
    (hfresh : name ≠ target → ∀ p ∈ pf.profiles, p.name ≠ target) :
    NamesOk (renamed pf name target) := by
  constructor
  · intro p hp
    obtain ⟨q, hq, rfl⟩ := List.mem_map.mp hp
    split_ifs
    · exact hne
    · exact h.1 q hq
  · have hnames : (Disk.renamed pf name target).profiles.map Profile.name =
        (pf.profiles.map Profile.name).map fun n => if n = name then target else n := by
      simp only [Disk.renamed, List.map_map]
      refine List.map_congr_left fun p _ => ?_
      simp only [Function.comp_apply]
      split_ifs <;> rfl
    rw [hnames]
    -- a name that is not renamed is not the new one
    have hother : ∀ n ∈ pf.profiles.map Profile.name, n ≠ name → n ≠ target := by
      intro n hn hnn hnt
      obtain ⟨p, hp, rfl⟩ := List.mem_map.mp hn
      exact hfresh (fun hsame => hnn (hnt.trans hsame.symm)) p hp hnt
    refine h.2.map_on fun n hn m hm heq => ?_
    split_ifs at heq with hnn hmn hmn
    · rw [hnn, hmn]
    · exact absurd heq.symm (hother m hm hmn)
    · exact absurd heq (hother n hn hnn)
    · exact heq

theorem NamesOk.eraseP (h : NamesOk pf) (active : Text) (q : Profile R → Bool) :
    NamesOk ⟨active, pf.profiles.eraseP q⟩ :=
  ⟨fun p hp => h.1 p (List.mem_of_mem_eraseP hp), h.2.sublist (List.eraseP_sublist.map _)⟩

theorem NamesOk.active (h : NamesOk pf) (active : Text) : NamesOk { pf with active := active } := h

theorem namesOk_empty : NamesOk (ProfilesFile.empty : ProfilesFile R) := ⟨nofun, List.nodup_nil⟩

/-! ## Changes of the profiles alone -/

theorem Sound.saveProfiles (h : Sound d) (written : Bool) (hnames : NamesOk pf)
    (hmatches : Matches (some pf) d.config) (failed : Outcome) :
    Sound (d.saveProfiles written pf failed).1 := by
  unfold Disk.saveProfiles
  split_ifs
  · exact ⟨hmatches, fun pf' hpf => by cases hpf; exact hnames⟩
  · exact h

/-- A change in which the active profile keeps its snapshot. -/
theorem matches_of_kept {config : Live R} {pf' : ProfilesFile R}
    (h : Matches (some pf) config)
    (hkept : pf'.active ≠ [] → pf.active ≠ [] ∧ ∀ p ∈ pf.profiles, p.name = pf.active →
      ∃ q ∈ pf'.profiles, q.name = pf'.active ∧ q.config = p.config) :
    Matches (some pf') config := by
  intro f hf hne
  cases hf
  obtain ⟨hold, hkept⟩ := hkept hne
  obtain ⟨p, hp, hname, hconfig⟩ := h pf rfl hold
  obtain ⟨q, hq, hqname, hqconfig⟩ := hkept p hp hname
  exact ⟨q, hq, hqname, hqconfig ▸ hconfig⟩

theorem matches_renamed {config : Live R} (h : Matches (some pf) config) (hname : name ≠ []) :
    Matches (some (renamed pf name target)) config := by
  apply matches_of_kept h
  intro hne
  have hold : pf.active ≠ [] := by
    intro hempty
    have hother : pf.active ≠ name := fun hsame => hname (hsame.symm.trans hempty)
    exact hne ((if_neg hother).trans hempty)
  refine ⟨hold, fun p hp hactive => ⟨_, List.mem_map_of_mem hp, ?_, ?_⟩⟩
  · show (if p.name = name then { p with name := target } else p).name =
      if pf.active = name then target else pf.active
    rw [hactive]
    split_ifs
    · rfl
    · exact hactive
  · split_ifs <;> rfl

theorem matches_deleted {config : Live R} (h : Matches (some pf) config) (name : Text) :
    Matches (some ⟨if pf.active = name then [] else pf.active,
      pf.profiles.eraseP fun p => p.name = name⟩) config := by
  apply matches_of_kept h
  intro hne
  dsimp only at hne ⊢
  by_cases hactive : pf.active = name
  · exact absurd (if_pos hactive) hne
  · rw [if_neg hactive] at hne ⊢
    refine ⟨hne, fun p hp hp' => ⟨p, ?_, hp', rfl⟩⟩
    refine (List.mem_eraseP_of_neg ?_).mpr hp
    rw [decide_eq_true_eq, hp']
    exact hactive

theorem matches_appended {config : Live R} (h : Matches (some pf) config) (q : Profile R) :
    Matches (some ⟨pf.active, pf.profiles ++ [q]⟩) config := by
  apply matches_of_kept h
  exact fun hne => ⟨hne, fun p hp hp' => ⟨p, List.mem_append_left _ hp, hp', rfl⟩⟩

theorem matches_cleared {config : Live R} :
    Matches (some ({ pf with active := [] } : ProfilesFile R)) config := by
  intro f hf hne
  cases hf
  exact absurd rfl hne

/-- What is loaded has good names, and the active profile matches. -/
theorem loadFrom_ok {pf : ProfilesFile R} (h : Sound d)
    (hload : ProfilesFile.loadFrom d.profiles = .ok pf) :
    NamesOk pf ∧ Matches (some pf) d.config := by
  cases hp : d.profiles with
  | none =>
      rw [hp] at hload
      cases hload
      refine ⟨namesOk_empty, fun f hf hne => ?_⟩
      cases hf
      exact absurd rfl hne
  | some f =>
      rw [hp, ProfilesFile.loadFrom] at hload
      split_ifs at hload
      cases hload
      exact ⟨h.names _ hp, hp ▸ h.active⟩

theorem loadStrict_ok {pf : ProfilesFile R} (h : Sound d) (hload : loadStrict d.profiles = .ok pf) :
    d.profiles = some pf ∧ NamesOk pf ∧ Matches (some pf) d.config := by
  cases hp : d.profiles with
  | none =>
      rw [hp] at hload
      cases hload
  | some f =>
      rw [hp, loadStrict] at hload
      split_ifs at hload
      cases hload
      exact ⟨rfl, h.names _ hp, hp ▸ h.active⟩

theorem loadStrict_missing (hload : loadStrict d.profiles = .missing) : d.profiles = none := by
  cases hp : d.profiles with
  | none => rfl
  | some f =>
      rw [hp, loadStrict] at hload
      split_ifs at hload

theorem sound_rustEdit (h : Sound d) (written : Bool)
    {edit : ProfilesFile R → Except ErrorKind (ProfilesFile R)}
    (hedit : ∀ pf pf', NamesOk pf → Matches (some pf) d.config → edit pf = .ok pf' →
      NamesOk pf' ∧ Matches (some pf') d.config) :
    Sound (d.rustEdit written edit).1 := by
  unfold rustEdit
  split
  · exact h
  · rename_i pf hload
    obtain ⟨hnames, hmatches⟩ := loadFrom_ok h hload
    split
    · exact h
    · rename_i pf' hpf'
      obtain ⟨hnames', hmatches'⟩ := hedit pf pf' hnames hmatches hpf'
      exact h.saveProfiles written hnames' hmatches' _

theorem sound_withState (h : Sound d) {run : ProfilesFile R → Disk R × Outcome}
    (hrun : ∀ pf, NamesOk pf → Matches (some pf) d.config → Sound (run pf).1) :
    Sound (d.withState run).1 := by
  unfold withState
  split
  · rename_i pf hload
    obtain ⟨-, hnames, hmatches⟩ := loadStrict_ok h hload
    exact hrun pf hnames hmatches
  · exact h
  · exact h

theorem name_ne_of_find (hnames : NamesOk pf) (hfind : ¬ (pf.find name).isNone = true) :
    name ≠ [] := by
  rw [Option.isNone_iff_eq_none] at hfind
  obtain ⟨p, hp⟩ := Option.ne_none_iff_exists'.mp hfind
  obtain ⟨hmem, rfl⟩ := mem_of_find hp
  exact hnames.1 p hmem

theorem sound_rustRename (h : Sound d) (written : Bool) (name target : Text) :
    Sound (d.rustEdit written fun pf => pf.rename name target).1 := by
  refine sound_rustEdit h written fun pf pf' hnames hmatches hpf' => ?_
  unfold ProfilesFile.rename at hpf'
  dsimp only at hpf'
  by_cases hempty : (trimRust target).isEmpty = true
  · rw [if_pos hempty] at hpf'
    cases hpf'
  by_cases hdup : name ≠ trimRust target ∧ (pf.find (trimRust target)).isSome = true
  · rw [if_neg hempty, if_pos hdup] at hpf'
    cases hpf'
  by_cases hfind : (pf.find name).isNone = true
  · rw [if_neg hempty, if_neg hdup, if_pos hfind] at hpf'
    cases hpf'
  rw [if_neg hempty, if_neg hdup, if_neg hfind, renameFirst_eq_map _ _ _ hnames.2] at hpf'
  cases hpf'
  refine ⟨hnames.renamed (by simpa using hempty) fun hne => ?_,
    matches_renamed hmatches (name_ne_of_find hnames hfind)⟩
  exact ne_of_find_none fun hsome => hdup ⟨hne, hsome⟩

theorem sound_rustDelete (h : Sound d) (written : Bool) (name : Text) :
    Sound (d.rustEdit written fun pf => pf.delete name).1 := by
  refine sound_rustEdit h written fun pf pf' hnames hmatches hpf' => ?_
  unfold ProfilesFile.delete at hpf'
  by_cases hfind : (pf.find name).isNone = true
  · rw [if_pos hfind] at hpf'
    cases hpf'
  · rw [if_neg hfind] at hpf'
    cases hpf'
    exact ⟨hnames.eraseP _ _, matches_deleted hmatches name⟩

theorem sound_rustDuplicate (h : Sound d) (written : Bool) (name target : Text) :
    Sound (d.rustEdit written fun pf => pf.duplicate name target).1 := by
  refine sound_rustEdit h written fun pf pf' hnames hmatches hpf' => ?_
  unfold ProfilesFile.duplicate at hpf'
  dsimp only at hpf'
  split_ifs at hpf' with hempty hdup
  split at hpf'
  · cases hpf'
  · cases hpf'
    exact ⟨hnames.append (by simpa using hempty) (ne_of_find_none hdup) _ _,
      matches_appended hmatches _⟩

theorem sound_rename (h : Sound d) (written : Bool) (name target : Text) :
    Sound (d.rename written name target).1 := by
  unfold rename
  dsimp only
  by_cases hempty : (trimKotlin target).isEmpty = true
  · rw [if_pos hempty]
    exact h
  rw [if_neg hempty]
  refine sound_withState h fun pf hnames hmatches => ?_
  by_cases hfind : (pf.find name).isNone = true
  · rw [if_pos hfind]
    exact h
  by_cases hdup : name ≠ trimKotlin target ∧ (pf.find (trimKotlin target)).isSome = true
  · rw [if_neg hfind, if_pos hdup]
    exact h
  rw [if_neg hfind, if_neg hdup]
  refine h.saveProfiles written (hnames.renamed (by simpa using hempty) fun hne => ?_)
    (matches_renamed hmatches (name_ne_of_find hnames hfind)) _
  exact ne_of_find_none fun hsome => hdup ⟨hne, hsome⟩

theorem sound_delete (h : Sound d) (written : Bool) (name : Text) :
    Sound (d.delete written name).1 := by
  unfold delete
  refine sound_withState h fun pf hnames hmatches => ?_
  by_cases hfind : (pf.find name).isNone = true
  · rw [if_pos hfind]
    exact h
  · rw [if_neg hfind]
    exact h.saveProfiles written (hnames.eraseP _ _) (matches_deleted hmatches name) _

theorem sound_duplicate (h : Sound d) (written : Bool) (name target : Text) :
    Sound (d.duplicate written name target).1 := by
  unfold duplicate
  dsimp only
  split_ifs with hempty
  · exact h
  refine sound_withState h fun pf hnames hmatches => ?_
  split
  · exact h
  · split_ifs with hdup
    · exact h
    · exact h.saveProfiles written
        (hnames.append (by simpa using hempty) (ne_of_find_none hdup) _ _)
        (matches_appended hmatches _) _

/-! ## Changes of both files -/

theorem matches_object_iff {json q : Snapshot R} (hnames : NamesOk pf) (hactive : pf.active ≠ [])
    (hmem : ⟨pf.active, q⟩ ∈ pf.profiles) : Matches (some pf) (.object json) ↔ q = json := by
  constructor
  · intro h
    obtain ⟨p, hp, hname, hconfig⟩ := h pf rfl hactive
    have hsame : p = ⟨pf.active, q⟩ := hnames.unique hp hmem hname
    rw [hsame] at hconfig
    exact (Live.object.inj hconfig).symm
  · rintro rfl f hf -
    cases hf
    exact ⟨⟨pf.active, q⟩, hmem, rfl, rfl⟩

/-- Both files written: the active profile has to be what was written. Only `config.json`: the
profile that was active before. -/
theorem sound_saveBoth_iff {json q : Snapshot R} (h : Sound d)
    (configWritten profilesWritten : Bool)
    (hnames : NamesOk pf) (hactive : pf.active ≠ []) (hmem : ⟨pf.active, q⟩ ∈ pf.profiles) :
    Sound (d.saveBoth configWritten profilesWritten json pf).1 ↔
      (configWritten = true →
        if profilesWritten then q = json else Matches d.profiles (.object json)) := by
  cases configWritten with
  | false => exact ⟨fun _ => nofun, fun _ => h⟩
  | true =>
      rw [forall_prop_of_true rfl]
      cases profilesWritten with
      | false => exact ⟨fun hs => hs.active, fun hm => ⟨hm, h.names⟩⟩
      | true =>
          rw [if_pos rfl, ← matches_object_iff hnames hactive hmem]
          exact ⟨fun hs => hs.active, fun hm => ⟨hm, fun f hf => by cases hf; exact hnames⟩⟩

/-- What an operation without a write of `config.json` has to meet. -/
theorem writesMatch_of_none {e : ProfileEvent R} (h : d.configWrite checks e.op = none) :
    WritesMatch checks d e := by
  intro _ json hjson
  rw [h] at hjson
  cases hjson

theorem writesMatch_iff {e : ProfileEvent R} {json : Snapshot R}
    (hwrite : d.configWrite checks e.op = some json)
    (hmoves : d.movesPointer e = e.profilesWritten) :
    WritesMatch checks d e ↔ (e.configWritten = true →
      if e.profilesWritten then
        ∀ cfg, storedForm e.op = some cfg → KeepsToken d.config.file cfg.form
      else Matches d.profiles (.object json)) := by
  unfold WritesMatch
  rw [hwrite, hmoves]
  simp only [Option.some.injEq, forall_eq']

theorem movesPointer_eq {e : ProfileEvent R} (h : ∀ cfg, e.op ≠ .persist cfg) :
    d.movesPointer e = e.profilesWritten := by
  unfold movesPointer
  cases hop : e.op with
  | persist cfg => exact absurd hop (h cfg)
  | _ => exact Bool.and_true _

/-- An operation that applies a snapshot of the store. -/
theorem sound_apply_iff {e : ProfileEvent R} (h : Sound d) (hnames : NamesOk pf)
    (hfind : pf.find name = some p) (hwrite : d.configWrite checks e.op = some p.config)
    (hmoves : d.movesPointer e = e.profilesWritten) (hstored : storedForm e.op = none) :
    Sound (d.saveBoth e.configWritten e.profilesWritten p.config { pf with active := name }).1 ↔
      WritesMatch checks d e := by
  obtain ⟨hmem, rfl⟩ := mem_of_find hfind
  rw [writesMatch_iff checks hwrite hmoves, hstored,
    sound_saveBoth_iff h e.configWritten e.profilesWritten (hnames.active p.name)
      (hnames.1 p hmem) hmem]
  simp

/-- An operation that stores the form under a name and makes it the active one. -/
theorem sound_store_iff {e : ProfileEvent R} {cfg : RahgozarConfig R} (h : Sound d)
    (hnames : NamesOk pf) (hactive : pf.active ≠ []) (hmem : ⟨pf.active, cfg.toJson⟩ ∈ pf.profiles)
    (hwrite : d.configWrite checks e.op = some (savedJson d.config cfg))
    (hmoves : d.movesPointer e = e.profilesWritten) (hstored : storedForm e.op = some cfg) :
    Sound (d.saveBoth e.configWritten e.profilesWritten (savedJson d.config cfg) pf).1 ↔
      WritesMatch checks d e := by
  rw [writesMatch_iff checks hwrite hmoves, hstored,
    sound_saveBoth_iff h e.configWritten e.profilesWritten hnames hactive hmem,
    toJson_eq_savedJson_iff]
  simp only [Option.some.injEq, forall_eq']

/-- The list of `upsert`. -/
theorem NamesOk.upserted (h : NamesOk pf) (hne : target ≠ []) (snapshot : Snapshot R) :
    NamesOk ⟨target, if (pf.find target).isSome then
        pf.profiles.map fun p => if p.name = target then ⟨target, snapshot⟩ else p
      else pf.profiles ++ [⟨target, snapshot⟩]⟩ ∧
    ⟨target, snapshot⟩ ∈ (if (pf.find target).isSome then
        pf.profiles.map fun p => if p.name = target then ⟨target, snapshot⟩ else p
      else pf.profiles ++ [⟨target, snapshot⟩]) := by
  by_cases hfind : (pf.find target).isSome = true
  · obtain ⟨p, hp⟩ := Option.isSome_iff_exists.mp hfind
    obtain ⟨hmem, hname⟩ := mem_of_find hp
    rw [if_pos hfind]
    have hkeeps : (pf.profiles.map fun p => if p.name = target then ⟨target, snapshot⟩ else p).map
        Profile.name = pf.profiles.map Profile.name := by
      rw [List.map_map]
      refine List.map_congr_left fun q _ => ?_
      simp only [Function.comp_apply]
      split_ifs with hq
      · exact hq.symm
      · rfl
    refine ⟨⟨?_, hkeeps ▸ h.2⟩, List.mem_map.mpr ⟨p, hmem, if_pos hname⟩⟩
    intro q hq
    obtain ⟨q', hq', rfl⟩ := List.mem_map.mp hq
    split_ifs
    · exact hne
    · exact h.1 q' hq'
  · rw [if_neg hfind]
    exact ⟨h.append hne (ne_of_find_none hfind) target snapshot,
      List.mem_append_right _ (List.mem_singleton_self _)⟩

/-! ## One operation -/

theorem sound_applyProfileWithPaths_iff (h : Sound d) (name : Text)
    (configWritten profilesWritten : Bool) :
    Sound (d.applyProfileWithPaths checks.validateSnapshotLoadable configWritten profilesWritten
        name).1 ↔
      WritesMatch checks d ⟨.applyProfileWithPaths name, configWritten, profilesWritten⟩ := by
  unfold applyProfileWithPaths
  cases hload : ProfilesFile.loadFrom d.profiles with
  | error kind =>
      exact iff_of_true h (writesMatch_of_none checks (by simp [configWrite, hload]))
  | ok pf =>
      dsimp only
      cases hfind : pf.find name with
      | none =>
          exact iff_of_true h (writesMatch_of_none checks (by simp [configWrite, hload, hfind]))
      | some p =>
          by_cases hvalid : checks.validateSnapshotLoadable p.config = true
          · simp only [hvalid, Bool.not_true, Bool.false_eq_true, if_false]
            exact sound_apply_iff checks
              (e := ⟨.applyProfileWithPaths name, configWritten, profilesWritten⟩) h
              (loadFrom_ok h hload).1 hfind (by simp [configWrite, hload, hfind, hvalid])
              (movesPointer_eq nofun) rfl
          · simp only [hvalid, Bool.not_false, if_true]
            exact iff_of_true h
              (writesMatch_of_none checks (by simp [configWrite, hload, hfind, hvalid]))

theorem sound_applyProfile_iff (h : Sound d) (name : Text) (configWritten profilesWritten : Bool) :
    Sound (d.applyProfile checks.validateRuntimeShape configWritten profilesWritten name).1 ↔
      WritesMatch checks d ⟨.applyProfile name, configWritten, profilesWritten⟩ := by
  unfold applyProfile withState
  cases hload : loadStrict d.profiles with
  | missing =>
      exact iff_of_true h (writesMatch_of_none checks (by simp [configWrite, hload]))
  | corrupt =>
      exact iff_of_true h (writesMatch_of_none checks (by simp [configWrite, hload]))
  | ok pf =>
      dsimp only
      cases hfind : pf.find name with
      | none =>
          exact iff_of_true h (writesMatch_of_none checks (by simp [configWrite, hload, hfind]))
      | some p =>
          by_cases hvalid : checks.validateRuntimeShape p.config = true
          · simp only [hvalid, Bool.not_true, Bool.false_eq_true, if_false]
            exact sound_apply_iff checks
              (e := ⟨.applyProfile name, configWritten, profilesWritten⟩) h
              (loadStrict_ok h hload).2.1 hfind (by simp [configWrite, hload, hfind, hvalid])
              (movesPointer_eq nofun) rfl
          · simp only [hvalid, Bool.not_false, if_true]
            exact iff_of_true h
              (writesMatch_of_none checks (by simp [configWrite, hload, hfind, hvalid]))

theorem sound_upsert_iff (h : Sound d) (name : Text) (cfg : RahgozarConfig R)
    (configWritten profilesWritten : Bool) :
    Sound (d.upsert configWritten profilesWritten name cfg).1 ↔
      WritesMatch checks d ⟨.upsert name cfg, configWritten, profilesWritten⟩ := by
  unfold upsert
  dsimp only
  by_cases hempty : (trimKotlin name).isEmpty = true
  · rw [if_pos hempty]
    refine iff_of_true h (writesMatch_of_none checks ?_)
    cases hload : loadStrict d.profiles <;> simp [configWrite, hload, hempty]
  rw [if_neg hempty]
  have hne : trimKotlin name ≠ [] := by simpa using hempty
  unfold withStateOrEmpty
  cases hload : loadStrict d.profiles with
  | corrupt =>
      exact iff_of_true h (writesMatch_of_none checks (by simp [configWrite, hload]))
  | missing =>
      obtain ⟨hnames, hmem⟩ := namesOk_empty.upserted hne cfg.toJson
      exact sound_store_iff checks (e := ⟨.upsert name cfg, configWritten, profilesWritten⟩) h
        hnames hne hmem (by simp [configWrite, hload, hempty]) (movesPointer_eq nofun) rfl
  | ok pf =>
      obtain ⟨hnames, hmem⟩ := (loadStrict_ok h hload).2.1.upserted hne cfg.toJson
      exact sound_store_iff checks (e := ⟨.upsert name cfg, configWritten, profilesWritten⟩) h
        hnames hne hmem (by simp [configWrite, hload, hempty]) (movesPointer_eq nofun) rfl

theorem sound_insertNew_iff (h : Sound d) (name : Text) (cfg : RahgozarConfig R)
    (configWritten profilesWritten : Bool) :
    Sound (d.insertNew configWritten profilesWritten name cfg).1 ↔
      WritesMatch checks d ⟨.insertNew name cfg, configWritten, profilesWritten⟩ := by
  unfold insertNew
  dsimp only
  by_cases hempty : (trimKotlin name).isEmpty = true
  · rw [if_pos hempty]
    refine iff_of_true h (writesMatch_of_none checks ?_)
    cases hload : loadStrict d.profiles <;> simp [configWrite, hload, hempty]
  rw [if_neg hempty]
  have hne : trimKotlin name ≠ [] := by simpa using hempty
  have hlast (ps : List (Profile R)) : (⟨trimKotlin name, cfg.toJson⟩ : Profile R) ∈
      ps ++ [⟨trimKotlin name, cfg.toJson⟩] :=
    List.mem_append_right _ (List.mem_singleton_self _)
  unfold withStateOrEmpty
  cases hload : loadStrict d.profiles with
  | corrupt =>
      exact iff_of_true h (writesMatch_of_none checks (by simp [configWrite, hload]))
  | missing =>
      exact sound_store_iff checks (e := ⟨.insertNew name cfg, configWritten, profilesWritten⟩) h
        (namesOk_empty.append hne nofun _ _) hne (hlast _) (by simp [configWrite, hload, hempty])
        (movesPointer_eq nofun) rfl
  | ok pf =>
      dsimp only
      by_cases hdup : (pf.find (trimKotlin name)).isSome = true
      · rw [if_pos hdup]
        exact iff_of_true h
          (writesMatch_of_none checks (by simp [configWrite, hload, hempty, hdup]))
      · rw [if_neg hdup]
        exact sound_store_iff checks
          (e := ⟨.insertNew name cfg, configWritten, profilesWritten⟩) h
          ((loadStrict_ok h hload).2.1.append hne (ne_of_find_none hdup) _ _) hne (hlast _)
          (by simp [configWrite, hload, hempty, hdup]) (movesPointer_eq nofun) rfl

theorem sound_config_iff (h : Sound d) (config : Live R) :
    Sound { d with config := config } ↔ Matches d.profiles config :=
  ⟨fun hs => hs.active, fun hm => ⟨hm, h.names⟩⟩

theorem matches_none (config : Live R) : Matches none config := nofun

theorem matches_of_active_empty {config : Live R} (h : pf.active = []) :
    Matches (some pf) config := by
  intro f hf hne
  cases hf
  exact absurd h hne

theorem sound_persist_iff (h : Sound d) (cfg : RahgozarConfig R)
    (configWritten profilesWritten : Bool) :
    Sound (d.persist configWritten profilesWritten cfg).1 ↔
      WritesMatch checks d ⟨.persist cfg, configWritten, profilesWritten⟩ := by
  cases configWritten with
  | false => exact iff_of_true h nofun
  | true =>
      have hcond : WritesMatch checks d ⟨.persist cfg, true, profilesWritten⟩ ↔
          (d.movesPointer ⟨.persist cfg, true, profilesWritten⟩ = false →
            Matches d.profiles (.object (savedJson d.config cfg))) := by
        simp [WritesMatch, configWrite, storedForm]
      rw [hcond]
      simp only [persist, if_true, clearActiveIfAny, movesPointer]
      cases hload : loadStrict d.profiles with
      | missing =>
          have hnone : ∀ c, Matches d.profiles c := loadStrict_missing hload ▸ matches_none
          exact iff_of_true ((sound_config_iff h _).mpr (hnone _)) fun _ => hnone _
      | corrupt =>
          simp only [Bool.and_false, forall_true_left]
          exact sound_config_iff h _
      | ok pf =>
          obtain ⟨hprofiles, hnames, -⟩ := loadStrict_ok h hload
          simp only [Bool.and_true]
          by_cases hempty : pf.active.isEmpty = true
          · have hall : ∀ c, Matches d.profiles c := fun c =>
              hprofiles ▸ matches_of_active_empty (List.isEmpty_iff.mp hempty)
            rw [if_pos hempty]
            exact iff_of_true ((sound_config_iff h _).mpr (hall _)) fun _ => hall _
          · rw [if_neg hempty]
            cases profilesWritten with
            | false =>
                rw [forall_prop_of_true rfl]
                exact sound_config_iff h _
            | true =>
                refine iff_of_true ⟨matches_cleared, fun f hf => ?_⟩ nofun
                cases hf
                exact hnames

/-- An operation keeps the store sound exactly if it meets the condition. -/
theorem perform_sound_iff {e : ProfileEvent R} (h : Sound d) :
    Sound (d.perform checks e).1 ↔ WritesMatch checks d e := by
  obtain ⟨op, configWritten, profilesWritten⟩ := e
  cases op with
  | rustRename name target =>
      exact iff_of_true (sound_rustRename h _ _ _) (writesMatch_of_none checks rfl)
  | rustDelete name => exact iff_of_true (sound_rustDelete h _ _) (writesMatch_of_none checks rfl)
  | rustDuplicate name target =>
      exact iff_of_true (sound_rustDuplicate h _ _ _) (writesMatch_of_none checks rfl)
  | applyProfileWithPaths name => exact sound_applyProfileWithPaths_iff checks h name _ _
  | applyProfile name => exact sound_applyProfile_iff checks h name _ _
  | upsert name cfg => exact sound_upsert_iff checks h name cfg _ _
  | insertNew name cfg => exact sound_insertNew_iff checks h name cfg _ _
  | rename name target => exact iff_of_true (sound_rename h _ _ _) (writesMatch_of_none checks rfl)
  | delete name => exact iff_of_true (sound_delete h _ _) (writesMatch_of_none checks rfl)
  | duplicate name target =>
      exact iff_of_true (sound_duplicate h _ _ _) (writesMatch_of_none checks rfl)
  | persist cfg => exact sound_persist_iff checks h cfg _ _

/-! ## Errors -/

/-- The disk and what is reported: an error comes with the files of before. -/
def CleanOn (d : Disk R) (result : Disk R × Outcome) : Prop :=
  ∀ kind, result.2 = .error kind → result.1 = d

theorem cleanOn_error (kind : ErrorKind) : CleanOn d (d, .error kind) := fun _ _ => rfl

theorem cleanOn_saveProfiles (written : Bool) (pf : ProfilesFile R) (failed : Outcome) :
    CleanOn d (d.saveProfiles written pf failed) := by
  unfold saveProfiles
  split_ifs
  · exact fun kind hkind => absurd hkind nofun
  · exact fun _ _ => rfl

theorem cleanOn_saveBoth (configWritten profilesWritten : Bool) (json : Snapshot R)
    (pf : ProfilesFile R) : CleanOn d (d.saveBoth configWritten profilesWritten json pf) := by
  unfold saveBoth saveProfiles
  split_ifs
  · exact fun kind hkind => absurd hkind nofun
  · exact fun kind hkind => absurd hkind nofun
  · exact cleanOn_error _

theorem cleanOn_rustEdit (written : Bool)
    (edit : ProfilesFile R → Except ErrorKind (ProfilesFile R)) :
    CleanOn d (d.rustEdit written edit) := by
  unfold rustEdit
  split
  · exact cleanOn_error _
  · split
    · exact cleanOn_error _
    · exact cleanOn_saveProfiles _ _ _

theorem cleanOn_withState {run : ProfilesFile R → Disk R × Outcome}
    (hrun : ∀ pf, CleanOn d (run pf)) : CleanOn d (d.withState run) := by
  unfold withState
  split
  · exact hrun _
  · exact cleanOn_error _
  · exact cleanOn_error _

theorem cleanOn_withStateOrEmpty {run : ProfilesFile R → Disk R × Outcome}
    (hrun : ∀ pf, CleanOn d (run pf)) : CleanOn d (d.withStateOrEmpty run) := by
  unfold withStateOrEmpty
  split
  · exact hrun _
  · exact hrun _
  · exact cleanOn_error _

/-- A check that comes first refuses with an error, or leaves it to what follows. -/
theorem cleanOn_check {c : Prop} [Decidable c] (kind : ErrorKind) {result : Disk R × Outcome}
    (h : CleanOn d result) : CleanOn d (if c then (d, .error kind) else result) := by
  split_ifs
  · exact cleanOn_error kind
  · exact h

theorem cleanOn_applyProfileWithPaths (loadable : Snapshot R → Bool)
    (configWritten profilesWritten : Bool) (name : Text) :
    CleanOn d (d.applyProfileWithPaths loadable configWritten profilesWritten name) := by
  unfold applyProfileWithPaths
  split
  · exact cleanOn_error _
  · split
    · exact cleanOn_error _
    · exact cleanOn_check _ (cleanOn_saveBoth _ _ _ _)

theorem cleanOn_applyProfile (runs : Snapshot R → Bool) (configWritten profilesWritten : Bool)
    (name : Text) : CleanOn d (d.applyProfile runs configWritten profilesWritten name) := by
  refine cleanOn_withState fun pf => ?_
  split
  · exact cleanOn_error _
  · exact cleanOn_check _ (cleanOn_saveBoth _ _ _ _)

theorem cleanOn_insertNew (configWritten profilesWritten : Bool) (name : Text)
    (cfg : RahgozarConfig R) : CleanOn d (d.insertNew configWritten profilesWritten name cfg) :=
  cleanOn_check _ (cleanOn_withStateOrEmpty fun _ => cleanOn_check _ (cleanOn_saveBoth _ _ _ _))

theorem cleanOn_rename (written : Bool) (name target : Text) :
    CleanOn d (d.rename written name target) :=
  cleanOn_check _ (cleanOn_withState fun _ =>
    cleanOn_check _ (cleanOn_check _ (cleanOn_saveProfiles _ _ _)))

theorem cleanOn_duplicate (written : Bool) (name target : Text) :
    CleanOn d (d.duplicate written name target) := by
  refine cleanOn_check _ (cleanOn_withState fun pf => ?_)
  split
  · exact cleanOn_error _
  · exact cleanOn_check _ (cleanOn_saveProfiles _ _ _)

theorem perform_errorsClean (d : Disk R) (e : ProfileEvent R) : ErrorsClean checks d e := by
  show CleanOn d (d.perform checks e)
  obtain ⟨op, configWritten, profilesWritten⟩ := e
  cases op with
  | rustRename name target => exact cleanOn_rustEdit _ _
  | rustDelete name => exact cleanOn_rustEdit _ _
  | rustDuplicate name target => exact cleanOn_rustEdit _ _
  | applyProfileWithPaths name => exact cleanOn_applyProfileWithPaths _ _ _ _
  | applyProfile name => exact cleanOn_applyProfile _ _ _ _
  | upsert name cfg =>
      exact cleanOn_check _ (cleanOn_withStateOrEmpty fun pf => cleanOn_saveBoth _ _ _ _)
  | insertNew name cfg => exact cleanOn_insertNew _ _ _ _
  | rename name target => exact cleanOn_rename _ _ _
  | delete name =>
      exact cleanOn_withState fun pf => cleanOn_check _ (cleanOn_saveProfiles _ _ _)
  | duplicate name target => exact cleanOn_duplicate _ _ _
  | persist cfg =>
      simp only [perform, persist]
      split_ifs
      · exact fun kind hkind => absurd hkind nofun
      · exact cleanOn_error _

/-! ## All runs -/

theorem start_sound (config : Live R) : Sound (start config) := ⟨matches_none _, nofun⟩

/-- **The active profile is the live configuration.** In a run from an empty store every state is
sound, and errors leave the files alone, exactly if every operation that writes `config.json`
meets the condition. -/
theorem active_matches_iff (config : Live R) (es : List (ProfileEvent R)) :
    (StepRun.AllStates (step checks) Sound (start config) es ∧
        StepRun.AllSteps (step checks) (ErrorsClean checks) (start config) es) ↔
      StepRun.AllSteps (step checks) (WritesMatch checks) (start config) es := by
  rw [and_iff_left (StepRun.allSteps_of_forall (perform_errorsClean checks) _ _)]
  apply StepRun.allStates_iff_allSteps
  · intro d e t hd ht
    cases ht
    exact perform_sound_iff checks hd
  · exact start_sound config

/-! ### A token that comes in between, and a write that fails -/

/-- A form that was loaded before the sign-in. -/
def signedOut : RahgozarConfig Nat := ⟨⟨"A".toList, "a".toList, []⟩, 0⟩

/-- The configuration after the sign-in. -/
def signedIn : Live Nat := .object ⟨some ⟨"A".toList, "a".toList, "1//t".toList⟩, 0⟩

def permissive : Checks Nat := ⟨fun _ => true, fun _ => true⟩

/-- A new profile, and a second one whose entry cannot be written. -/
def secondFails : List (ProfileEvent Nat) :=
  [ ⟨.insertNew "p".toList signedOut, true, true⟩,
    ⟨.insertNew "q".toList { signedOut with rest := 1 }, true, false⟩ ]

/-- `config.json` gets the token and the profile does not; or `config.json` gets the second
configuration and the first profile stays active. -/
theorem active_not_live :
    (∃ t, StepRun.run (step permissive) (start signedIn)
        [⟨.insertNew "p".toList signedOut, true, true⟩] = some t ∧ ¬ Sound t) ∧
      ∃ t, StepRun.run (step permissive) (start .missing) secondFails = some t ∧ ¬ Sound t := by
  have hmerged : StepRun.run (step permissive) (start signedIn)
      [⟨.insertNew "p".toList signedOut, true, true⟩] = some
        ⟨signedIn, some ⟨"p".toList, [⟨"p".toList, signedOut.toJson⟩]⟩⟩ := by decide +kernel
  have hsecond : StepRun.run (step permissive) (start .missing) secondFails = some
      ⟨.object (RahgozarConfig.toJson { signedOut with rest := 1 }),
        some ⟨"p".toList, [⟨"p".toList, signedOut.toJson⟩]⟩⟩ := by decide +kernel
  refine ⟨⟨_, hmerged, fun h => ?_⟩, _, hsecond, fun h => ?_⟩
  all_goals
    obtain ⟨p, hp, -, hconfig⟩ := h.active _ rfl (by decide +kernel)
    rw [List.mem_singleton] at hp
    subst hp
    revert hconfig
    decide +kernel

end Disk

end Rahgozar.Config
