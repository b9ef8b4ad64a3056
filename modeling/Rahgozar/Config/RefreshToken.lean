import Rahgozar.Drive.Peers
import Rahgozar.Lib.Run
import Rahgozar.Lib.Trim

set_option autoImplicit false

/-! # The Drive refresh token in `config.json`

Several writers share the `drive` object of `config.json`: the form on Android
(`ConfigStore.save`), the form on the desktop (`save_config`), the two ends of a sign-in
(`persist_drive_refresh_token`, `drive_oauth_complete`) and the clearing of a revoked token. Each
reads the file, changes it and replaces it in one step; a replacement may fail. A form on Android
is a copy of the file as it was when it was loaded, edited, with the token of that time inside.
-/

namespace Rahgozar.Config

abbrev Text := List Char

/-! ## White space -/

/-- Kotlin's `Char.isWhitespace`: `Character.isWhitespace` or `Character.isSpaceChar`. -/
def isWhitespaceKotlin (c : Char) : Bool :=
  let n := c.toNat
  (9 ≤ n && n ≤ 13) || (0x1c ≤ n && n ≤ 0x20) || n = 0xa0 || n = 0x1680 ||
    (0x2000 ≤ n && n ≤ 0x200a) || n = 0x2028 || n = 0x2029 || n = 0x202f || n = 0x205f ||
      n = 0x3000

def trimKotlin (text : Text) : Text := Trim.trim isWhitespaceKotlin text

/-- `String.isBlank` -/
def isBlank (text : Text) : Bool := text.all isWhitespaceKotlin

/-- Rust's `str::trim` -/
def trimRust (text : Text) : Text := Drive.trim text

/-- What a text is up to trimming, on either side. -/
def core (text : Text) : Text :=
  Trim.trim (fun c => isWhitespaceKotlin c || Drive.isWhitespace c) text

theorem core_trimKotlin (text : Text) : core (trimKotlin text) = core text :=
  Trim.trim_trim (fun c hc => by rw [hc, Bool.true_or]) text

theorem core_trimRust (text : Text) : core (trimRust text) = core text :=
  Trim.trim_trim (fun c hc => by rw [hc, Bool.or_true]) text

theorem core_nil : core [] = [] := rfl

theorem core_of_isBlank {text : Text} (h : isBlank text = true) : core text = [] := by
  rw [core, Trim.trim_eq_nil_iff]
  intro c hc
  rw [List.all_eq_true.mp h c hc, Bool.true_or]

theorem core_of_trimRust {text : Text} (h : trimRust text = []) : core text = [] := by
  rw [← core_trimRust, h, core_nil]

/-! ## The file and the forms -/

/-- The OAuth fields of the `drive` object; a field that is not there reads as an empty text. -/
structure DriveObject where
  oauthClientId : Text
  oauthClientSecret : Text
  oauthRefreshToken : Text
deriving DecidableEq

/-- `config.json`. Unreadable is a file that is not a JSON object, or whose `drive` is not one. -/
inductive ConfigJson where
  | missing
  | unreadable
  | object (drive : Option DriveObject)
deriving DecidableEq

namespace ConfigJson

/-- What the readers find in the `drive` object. -/
def drive : ConfigJson → DriveObject
  | object (some d) => d
  | _ => ⟨[], [], []⟩

def token (file : ConfigJson) : Text := file.drive.oauthRefreshToken

end ConfigJson

/-- The fields of `RahgozarConfig` that travel to the `drive` object. -/
structure Form where
  driveOauthClientId : Text
  driveOauthClientSecret : Text
  driveOauthRefreshTokenSnapshot : Text
deriving DecidableEq

/-- `ConfigStore.load`: a file that cannot be read gives the defaults. -/
def load (file : ConfigJson) : Form :=
  ⟨trimKotlin file.drive.oauthClientId, trimKotlin file.drive.oauthClientSecret,
    trimKotlin file.drive.oauthRefreshToken⟩

def Form.withoutRefreshToken (next : Form) : Form :=
  { next with driveOauthRefreshTokenSnapshot := [] }

/-- `ConfigStore.prepareForSave` -/
def prepareForSave (existing : ConfigJson) (next : Form) : Form :=
  match existing with
  | .missing => next
  | .unreadable => next.withoutRefreshToken
  | .object none => next.withoutRefreshToken
  | .object (some drive) =>
      let refreshToken := trimKotlin drive.oauthRefreshToken
      if refreshToken.isEmpty then next.withoutRefreshToken
      else if trimKotlin drive.oauthClientId ≠ trimKotlin next.driveOauthClientId ∨
          trimKotlin drive.oauthClientSecret ≠ trimKotlin next.driveOauthClientSecret then
        next.withoutRefreshToken
      else
        { next with
          -- the snapshot of the form goes before the token of the file
          driveOauthRefreshTokenSnapshot :=
            if isBlank next.driveOauthRefreshTokenSnapshot then refreshToken
            else next.driveOauthRefreshTokenSnapshot }

/-- `RahgozarConfig.toJson`; blank credentials are left out. -/
def Form.toJson (form : Form) : ConfigJson :=
  .object (some
    ⟨if isBlank form.driveOauthClientId then [] else trimKotlin form.driveOauthClientId,
      if isBlank form.driveOauthClientSecret then [] else trimKotlin form.driveOauthClientSecret,
      form.driveOauthRefreshTokenSnapshot⟩)

/-- `should_clear_drive_refresh_token` -/
def shouldClearDriveRefreshToken (drive : DriveObject) (nextClientId nextClientSecret : Text) :
    Bool :=
  !(trimRust drive.oauthRefreshToken).isEmpty &&
    (trimRust drive.oauthClientId ≠ nextClientId ||
      trimRust drive.oauthClientSecret ≠ nextClientSecret)

/-- `save_config` on the desktop; a file that is not there is written over the default base. -/
def saveConfig (file : ConfigJson) (clientId clientSecret : Text) : Except String ConfigJson :=
  match file with
  | .unreadable => .error "config.json::drive is not an object"
  | file =>
      let nextClientId := trimRust clientId
      let nextClientSecret := trimRust clientSecret
      let token :=
        if shouldClearDriveRefreshToken file.drive nextClientId nextClientSecret then [] else
          file.token
      .ok (.object (some ⟨nextClientId, nextClientSecret, token⟩))

/-- `persist_drive_refresh_token` -/
def persistDriveRefreshToken (file : ConfigJson)
    (refreshToken expectedClientId expectedClientSecret : Text) : Except String ConfigJson :=
  match file with
  | .missing => .error
      "config.json no longer exists — save your OAuth client credentials and sign in again"
  | .unreadable => .error "config.json is not a JSON object"
  | .object none => .error "config.json::drive is missing"
  | .object (some drive) =>
      if trimRust drive.oauthClientId ≠ trimRust expectedClientId ∨
          trimRust drive.oauthClientSecret ≠ trimRust expectedClientSecret then
        .error "OAuth credentials changed during sign-in — save the intended credentials and sign in again"
      else .ok (.object (some { drive with oauthRefreshToken := refreshToken }))

/-- The last part of `drive_oauth_complete`. -/
def driveOauthComplete (file : ConfigJson) (refreshToken clientId clientSecret : Text) :
    Except String ConfigJson :=
  match file with
  | .unreadable => .error "config.json::drive is not an object — aborting save"
  | _ => .ok (.object (some ⟨clientId, clientSecret, refreshToken⟩))

/-- `clear_drive_refresh_token`; without a `drive` object there is nothing to do. -/
def clearDriveRefreshToken : ConfigJson → ConfigJson
  | .object (some drive) => .object (some { drive with oauthRefreshToken := [] })
  | file => file

/-! ## Runs -/

/-- A token Google has minted, and for which client. -/
structure Minted where
  token : Text
  clientId : Text
  clientSecret : Text
deriving DecidableEq

/-- `forms` are the forms loaded so far, `minted` the tokens in the order of the sign-ins. -/
structure Device where
  file : ConfigJson
  forms : List Form
  minted : List Minted
deriving DecidableEq

inductive Writer where
  | load
  /-- `ConfigStore.save` of a loaded form with other credentials in it -/
  | save (form : Nat) (clientId clientSecret : Text)
  | saveConfig (clientId clientSecret : Text)
  /-- a sign-in that started with these credentials -/
  | persist (refreshToken clientId clientSecret : Text)
  | complete (refreshToken clientId clientSecret : Text)
  | clear

/-- `written` says whether the replacement of the file succeeds. -/
structure Event where
  writer : Writer
  written : Bool

namespace Device

/-- A device on which nobody has signed in yet. -/
def start (file : ConfigJson) : Device := ⟨file, [], []⟩

def replace (s : Device) (written : Bool) (file : ConfigJson) : Device :=
  if written then { s with file := file } else s

/-- A command that reports an error has not touched the file. -/
def replaceOk (s : Device) (written : Bool) : Except String ConfigJson → Device
  | .ok file => s.replace written file
  | .error _ => s

def mint (s : Device) (token clientId clientSecret : Text) : Device :=
  { s with minted := s.minted ++ [⟨token, clientId, clientSecret⟩] }

/-- The form with the credentials the user has put in. -/
def edited (form : Form) (clientId clientSecret : Text) : Form :=
  ⟨clientId, clientSecret, form.driveOauthRefreshTokenSnapshot⟩

def step (s : Device) (e : Event) : Option Device :=
  match e.writer with
  | .load => some { s with forms := s.forms ++ [Config.load s.file] }
  | .save form clientId clientSecret =>
      s.forms[form]?.map fun f =>
        s.replace e.written (prepareForSave s.file (edited f clientId clientSecret)).toJson
  | .saveConfig clientId clientSecret =>
      some (s.replaceOk e.written (Config.saveConfig s.file clientId clientSecret))
  | .persist token clientId clientSecret =>
      some ((s.mint token clientId clientSecret).replaceOk e.written
        (persistDriveRefreshToken s.file token clientId clientSecret))
  | .complete token clientId clientSecret =>
      some ((s.mint token clientId clientSecret).replaceOk e.written
        (driveOauthComplete s.file token clientId clientSecret))
  | .clear => some (s.replace e.written (clearDriveRefreshToken s.file))

/-- The stored token, if there is one, was minted for the stored client. -/
def Bound (s : Device) : Prop :=
  core s.file.token ≠ [] → ∃ m ∈ s.minted, core m.token = core s.file.token ∧
    core m.clientId = core s.file.drive.oauthClientId ∧
    core m.clientSecret = core s.file.drive.oauthClientSecret

def isSave : Writer → Bool
  | .save .. => true
  | .saveConfig .. => true
  | _ => false

/-- A save leaves the stored token or none: neither an older one nor one that is gone. -/
def KeepsToken (s : Device) (e : Event) : Prop :=
  isSave e.writer = true → ∀ t, s.step e = some t →
    core t.file.token = [] ∨ core t.file.token = core s.file.token

/-- A form that is saved with the stored credentials beside a stored token has no token of its own
or that token. -/
def SnapshotCurrent (s : Device) (e : Event) : Prop :=
  match e.writer with
  | .save form clientId clientSecret =>
      e.written = true → ∀ f, s.forms[form]? = some f → trimKotlin s.file.token ≠ [] →
        trimKotlin s.file.drive.oauthClientId = trimKotlin clientId →
        trimKotlin s.file.drive.oauthClientSecret = trimKotlin clientSecret →
        core f.driveOauthRefreshTokenSnapshot = [] ∨
          core f.driveOauthRefreshTokenSnapshot = core s.file.token
  | _ => True

/-! ## One write -/

/-- `file'` has no token, or the token and the client of `file`. -/
def SameOrNone (file file' : ConfigJson) : Prop :=
  core file'.token = [] ∨
    (core file'.token = core file.token ∧
      core file'.drive.oauthClientId = core file.drive.oauthClientId ∧
      core file'.drive.oauthClientSecret = core file.drive.oauthClientSecret)

theorem SameOrNone.refl (file : ConfigJson) : SameOrNone file file := .inr ⟨rfl, rfl, rfl⟩

theorem core_emitted (text : Text) :
    core (if isBlank text then [] else trimKotlin text) = core text := by
  by_cases h : isBlank text = true
  · rw [if_pos h, core_of_isBlank h, core_nil]
  · rw [if_neg h, core_trimKotlin]

theorem sameOrNone_withoutRefreshToken (file : ConfigJson) (form : Form) :
    SameOrNone file form.withoutRefreshToken.toJson := .inl rfl

theorem core_eq_of_trimKotlin {a b : Text} (h : trimKotlin a = trimKotlin b) :
    core a = core b := by rw [← core_trimKotlin a, h, core_trimKotlin]

theorem core_eq_of_trimRust {a b : Text} (h : trimRust a = trimRust b) : core a = core b := by
  rw [← core_trimRust a, h, core_trimRust]

/-- A save on Android, where the snapshot is blank or current if it is looked at. -/
theorem prepareForSave_sameOrNone {file : ConfigJson} {form : Form}
    (hmissing : file = .missing → core form.driveOauthRefreshTokenSnapshot = [])
    (hcurrent : trimKotlin file.token ≠ [] →
      trimKotlin file.drive.oauthClientId = trimKotlin form.driveOauthClientId →
      trimKotlin file.drive.oauthClientSecret = trimKotlin form.driveOauthClientSecret →
      core form.driveOauthRefreshTokenSnapshot = [] ∨
        core form.driveOauthRefreshTokenSnapshot = core file.token) :
    SameOrNone file (prepareForSave file form).toJson := by
  unfold prepareForSave
  split
  · exact .inl (hmissing rfl)
  · exact sameOrNone_withoutRefreshToken _ _
  · exact sameOrNone_withoutRefreshToken _ _
  · rename_i drive
    dsimp only
    by_cases hempty : (trimKotlin drive.oauthRefreshToken).isEmpty = true
    · rw [if_pos hempty]
      exact sameOrNone_withoutRefreshToken _ _
    rw [if_neg hempty]
    split_ifs with hclient hblank
    · exact sameOrNone_withoutRefreshToken _ _
    all_goals
      rw [not_or, not_not, not_not] at hclient
      have hclientId := (core_emitted form.driveOauthClientId).trans
        (core_eq_of_trimKotlin hclient.1).symm
      have hclientSecret := (core_emitted form.driveOauthClientSecret).trans
        (core_eq_of_trimKotlin hclient.2).symm
    · exact .inr ⟨core_trimKotlin _, hclientId, hclientSecret⟩
    · have hne : trimKotlin drive.oauthRefreshToken ≠ [] := by simpa using hempty
      refine (hcurrent hne hclient.1 hclient.2).imp_right fun h => ?_
      exact ⟨h, hclientId, hclientSecret⟩

theorem saveConfig_sameOrNone {file file' : ConfigJson} {clientId clientSecret : Text}
    (h : saveConfig file clientId clientSecret = .ok file') : SameOrNone file file' := by
  unfold saveConfig at h
  split at h
  · cases h
  · dsimp only at h
    cases h
    by_cases hclear : shouldClearDriveRefreshToken file.drive (trimRust clientId)
      (trimRust clientSecret) = true
    · left
      show core (if _ then [] else file.token) = []
      rw [if_pos hclear, core_nil]
    · have htoken : core (if shouldClearDriveRefreshToken file.drive (trimRust clientId)
          (trimRust clientSecret) = true then [] else file.token) = core file.token := by
        rw [if_neg hclear]
      simp only [shouldClearDriveRefreshToken, Bool.and_eq_true, Bool.not_eq_true',
        Bool.or_eq_true, decide_eq_true_eq, not_and_or, not_or, ne_eq, not_not,
        Bool.not_eq_false, List.isEmpty_iff] at hclear
      rcases hclear with hnone | ⟨hid, hsecret⟩
      · exact .inl (htoken.trans (core_of_trimRust hnone))
      · refine .inr ⟨htoken, ?_, ?_⟩
        · show core (trimRust clientId) = core file.drive.oauthClientId
          rw [← hid, core_trimRust]
        · show core (trimRust clientSecret) = core file.drive.oauthClientSecret
          rw [← hsecret, core_trimRust]

theorem clearDriveRefreshToken_sameOrNone (file : ConfigJson) :
    SameOrNone file (clearDriveRefreshToken file) := by
  unfold clearDriveRefreshToken
  split
  · exact .inl rfl
  · exact .refl _

/-! ## One step -/

variable {s t : Device} {e : Event}

/-- As long as there is no file, no form has a token. -/
def NothingLoaded (s : Device) : Prop :=
  s.file = .missing → ∀ f ∈ s.forms, core f.driveOauthRefreshTokenSnapshot = []

theorem replace_file (s : Device) (written : Bool) (file : ConfigJson) :
    (s.replace written file).file = if written then file else s.file := by
  unfold replace
  split_ifs <;> rfl

theorem replace_forms (s : Device) (written : Bool) (file : ConfigJson) :
    (s.replace written file).forms = s.forms := by
  unfold replace
  split_ifs <;> rfl

theorem replace_minted (s : Device) (written : Bool) (file : ConfigJson) :
    (s.replace written file).minted = s.minted := by
  unfold replace
  split_ifs <;> rfl

/-- A file that has been replaced is there. -/
theorem NothingLoaded.replace {file : ConfigJson} (h : NothingLoaded s) (written : Bool)
    (hfile : file = .missing → s.file = .missing) : NothingLoaded (s.replace written file) := by
  intro hm
  rw [replace_forms]
  rw [replace_file] at hm
  split_ifs at hm
  · exact h (hfile hm)
  · exact h hm

theorem NothingLoaded.replaceOk {result : Except String ConfigJson} (h : NothingLoaded s)
    (written : Bool) (hfile : result ≠ .ok .missing) :
    NothingLoaded (s.replaceOk written result) := by
  cases result with
  | error msg => exact h
  | ok file => exact h.replace written fun hm => absurd (congrArg Except.ok hm) hfile

theorem saveConfig_ne_missing (file : ConfigJson) (clientId clientSecret : Text) :
    saveConfig file clientId clientSecret ≠ .ok .missing := by
  unfold saveConfig
  split <;> exact nofun

theorem persistDriveRefreshToken_ne_missing (file : ConfigJson)
    (token clientId clientSecret : Text) :
    persistDriveRefreshToken file token clientId clientSecret ≠ .ok .missing := by
  unfold persistDriveRefreshToken
  split
  case h_4 => split_ifs <;> exact nofun
  all_goals exact nofun

theorem driveOauthComplete_ne_missing (file : ConfigJson) (token clientId clientSecret : Text) :
    driveOauthComplete file token clientId clientSecret ≠ .ok .missing := by
  unfold driveOauthComplete
  split <;> exact nofun

theorem step_nothingLoaded (h : NothingLoaded s) (hstep : s.step e = some t) :
    NothingLoaded t := by
  obtain ⟨writer, written⟩ := e
  cases writer with
  | load =>
      cases hstep
      intro hm f hf
      rcases List.mem_append.mp hf with hold | hnew
      · exact h hm f hold
      · have hfile : s.file = .missing := hm
        rw [List.mem_singleton, hfile] at hnew
        subst hnew
        rfl
  | save form clientId clientSecret =>
      obtain ⟨f, -, rfl⟩ := Option.map_eq_some_iff.mp hstep
      exact h.replace written nofun
  | saveConfig clientId clientSecret =>
      cases hstep
      exact h.replaceOk written (saveConfig_ne_missing _ _ _)
  | persist token clientId clientSecret =>
      cases hstep
      exact NothingLoaded.replaceOk (s := s.mint token clientId clientSecret) h written
        (persistDriveRefreshToken_ne_missing _ _ _ _)
  | complete token clientId clientSecret =>
      cases hstep
      exact NothingLoaded.replaceOk (s := s.mint token clientId clientSecret) h written
        (driveOauthComplete_ne_missing _ _ _ _)
  | clear =>
      cases hstep
      refine h.replace written fun hm => ?_
      unfold clearDriveRefreshToken at hm
      split at hm
      · cases hm
      · exact hm

/-- What a save does to the file. -/
theorem save_sameOrNone (h : NothingLoaded s) (hc : SnapshotCurrent s e)
    (hsave : isSave e.writer = true) (hstep : s.step e = some t) :
    SameOrNone s.file t.file ∧ t.minted = s.minted := by
  obtain ⟨writer, written⟩ := e
  cases writer with
  | save form clientId clientSecret =>
      obtain ⟨f, hf, rfl⟩ := Option.map_eq_some_iff.mp hstep
      refine ⟨?_, replace_minted _ _ _⟩
      rw [replace_file]
      split_ifs with hw
      · apply prepareForSave_sameOrNone
        · exact fun hm => h hm f (List.mem_of_getElem? hf)
        · exact hc hw f hf
      · exact .refl _
  | saveConfig clientId clientSecret =>
      cases hstep
      cases hr : Config.saveConfig s.file clientId clientSecret with
      | error msg => exact ⟨.refl _, rfl⟩
      | ok file =>
          refine ⟨?_, replace_minted _ _ _⟩
          rw [replaceOk, replace_file]
          split_ifs
          · exact saveConfig_sameOrNone hr
          · exact .refl _
  | load => cases hsave
  | persist _ _ _ => cases hsave
  | complete _ _ _ => cases hsave
  | clear => cases hsave

theorem Bound.sameOrNone (h : Bound s) (hfile : SameOrNone s.file t.file)
    (hminted : s.minted ⊆ t.minted) : Bound t := by
  intro hne
  obtain ⟨htoken, hid, hsecret⟩ := hfile.resolve_left hne
  obtain ⟨m, hm, hmt, hmi, hms⟩ := h (htoken ▸ hne)
  exact ⟨m, hminted hm, hmt.trans htoken.symm, hmi.trans hid.symm, hms.trans hsecret.symm⟩

/-- A sign-in leaves the file, or the new token beside the client it was minted for. -/
theorem Bound.signIn {token clientId clientSecret : Text} {result : Except String ConfigJson}
    (h : Bound s) (written : Bool)
    (hresult : ∀ file, result = .ok file → core file.token = core token ∧
      core file.drive.oauthClientId = core clientId ∧
      core file.drive.oauthClientSecret = core clientSecret) :
    Bound ((s.mint token clientId clientSecret).replaceOk written result) := by
  have hold : Bound (s.mint token clientId clientSecret) :=
    h.sameOrNone (.refl _) (List.subset_append_left _ _)
  cases result with
  | error msg => exact hold
  | ok file =>
      obtain ⟨htoken, hid, hsecret⟩ := hresult file rfl
      rw [replaceOk, replace]
      split_ifs
      · intro _
        exact ⟨⟨token, clientId, clientSecret⟩, List.mem_append_right _ (List.mem_singleton_self _),
          htoken.symm, hid.symm, hsecret.symm⟩
      · exact hold

theorem step_bound (hn : NothingLoaded s) (h : Bound s) (hc : SnapshotCurrent s e)
    (hstep : s.step e = some t) : Bound t := by
  by_cases hsave : isSave e.writer = true
  · obtain ⟨hfile, hminted⟩ := save_sameOrNone hn hc hsave hstep
    exact h.sameOrNone hfile (hminted ▸ List.Subset.refl _)
  obtain ⟨writer, written⟩ := e
  cases writer with
  | load =>
      cases hstep
      exact h
  | save _ _ _ => exact absurd rfl hsave
  | saveConfig _ _ => exact absurd rfl hsave
  | persist token clientId clientSecret =>
      cases hstep
      refine h.signIn written fun file hfile => ?_
      unfold persistDriveRefreshToken at hfile
      split at hfile <;> try cases hfile
      split_ifs at hfile with hclient
      rw [not_or, not_not, not_not] at hclient
      cases hfile
      exact ⟨rfl, core_eq_of_trimRust hclient.1, core_eq_of_trimRust hclient.2⟩
  | complete token clientId clientSecret =>
      cases hstep
      refine h.signIn written fun file hfile => ?_
      unfold driveOauthComplete at hfile
      split at hfile <;> cases hfile
      exact ⟨rfl, rfl, rfl⟩
  | clear =>
      cases hstep
      refine h.sameOrNone ?_ (replace_minted _ _ _ ▸ List.Subset.refl _)
      rw [replace_file]
      split_ifs
      · exact clearDriveRefreshToken_sameOrNone _
      · exact .refl _

/-- A form with a token that is saved with the stored credentials is written as it is. -/
theorem prepareForSave_eq_self {d : DriveObject} {next : Form}
    (htoken : trimKotlin d.oauthRefreshToken ≠ [])
    (hid : trimKotlin d.oauthClientId = trimKotlin next.driveOauthClientId)
    (hsecret : trimKotlin d.oauthClientSecret = trimKotlin next.driveOauthClientSecret)
    (hblank : ¬ isBlank next.driveOauthRefreshTokenSnapshot = true) :
    prepareForSave (.object (some d)) next = next := by
  unfold prepareForSave
  dsimp only
  rw [if_neg (mt List.isEmpty_iff.mp htoken),
    if_neg (not_or.mpr ⟨not_not.mpr hid, not_not.mpr hsecret⟩), if_neg hblank]

/-- A save that keeps the token has met the condition. -/
theorem KeepsToken.snapshotCurrent (h : KeepsToken s e) : SnapshotCurrent s e := by
  obtain ⟨writer, written⟩ := e
  cases writer with
  | save form clientId clientSecret =>
      intro hw f hf htoken hid hsecret
      have hkeeps := h rfl _ (Option.map_eq_some_iff.mpr ⟨f, hf, rfl⟩)
      rw [replace_file, if_pos hw] at hkeeps
      cases hfile : s.file with
      | missing => exact absurd (by rw [hfile]; rfl) htoken
      | unreadable => exact absurd (by rw [hfile]; rfl) htoken
      | object drive =>
          cases drive with
          | none => exact absurd (by rw [hfile]; rfl) htoken
          | some d =>
              rw [hfile] at htoken hid hsecret hkeeps
              by_cases hblank : isBlank f.driveOauthRefreshTokenSnapshot = true
              · exact .inl (core_of_isBlank hblank)
              · have hself : prepareForSave (.object (some d)) (edited f clientId clientSecret) =
                    edited f clientId clientSecret :=
                  prepareForSave_eq_self htoken hid hsecret hblank
                rw [hself] at hkeeps
                exact hkeeps
  | load => exact True.intro
  | saveConfig _ _ => exact True.intro
  | persist _ _ _ => exact True.intro
  | complete _ _ _ => exact True.intro
  | clear => exact True.intro

theorem SnapshotCurrent.keepsToken (hn : NothingLoaded s) (h : SnapshotCurrent s e) :
    KeepsToken s e := by
  intro hsave t hstep
  exact (save_sameOrNone hn h hsave hstep).1.imp_right fun hsame => hsame.1

/-- **The stored token belongs to the stored client.** In a run that begins with no form loaded
and a token, if any, that belongs to the stored client, saves keep the stored token or remove it
and the token belongs to the client in every state, exactly if no form is saved with the stored
credentials and another token than the stored one. -/
theorem token_bound_iff (s : Device) (hforms : s.forms = []) (hbound : Bound s)
    (es : List Event) :
    (StepRun.AllSteps step KeepsToken s es ∧ StepRun.AllStates step Bound s es) ↔
      StepRun.AllSteps step SnapshotCurrent s es := by
  have hnothing : NothingLoaded s := fun _ f hf => by
    rw [hforms] at hf
    cases hf
  constructor
  · rintro ⟨hkeeps, -⟩
    exact StepRun.allSteps_imp (P := fun _ => True) (fun _ _ _ _ _ => trivial)
      (fun _ _ _ h => KeepsToken.snapshotCurrent h) trivial hkeeps
  · intro h
    constructor
    · exact StepRun.allSteps_imp (P := NothingLoaded) (fun _ _ _ hn ht => step_nothingLoaded hn ht)
        (fun _ _ hn hc => hc.keepsToken hn) hnothing h
    · exact StepRun.allStates_of_allSteps (I := fun s => NothingLoaded s ∧ Bound s)
        (fun _ _ _ hi hc ht => ⟨step_nothingLoaded hi.1 ht, step_bound hi.1 hi.2 hc ht⟩)
        (fun _ hi => hi.2) ⟨hnothing, hbound⟩ h

/-! ### A form from before a change of the client -/

/-- A sign-in for the client `A`; a form is loaded; the client becomes `B`, with a sign-in for it.
-/
def rotation : List Event :=
  [ ⟨.load, true⟩,
    ⟨.save 0 "A".toList "a".toList, true⟩,
    ⟨.persist "1//old".toList "A".toList "a".toList, true⟩,
    ⟨.load, true⟩,
    ⟨.save 0 "B".toList "b".toList, true⟩,
    ⟨.persist "1//new".toList "B".toList "b".toList, true⟩ ]

/-- The form that was loaded under `A` is saved with the client `B` in it. -/
def staleSave : Event := ⟨.save 1 "B".toList "b".toList, true⟩

theorem token_bound_iff_rotation :
    (start .missing).forms = [] ∧ Bound (start .missing) ∧
      ((StepRun.AllSteps step KeepsToken (start .missing) rotation ∧
          StepRun.AllStates step Bound (start .missing) rotation) ↔
        StepRun.AllSteps step SnapshotCurrent (start .missing) rotation) :=
  ⟨rfl, fun h => absurd rfl h, token_bound_iff _ rfl (fun h => absurd rfl h) rotation⟩

/-- The token of `A` comes back over the token of `B`, beside `B`. -/
theorem stale_form_restores_token :
    ∃ s t, StepRun.run step (start .missing) rotation = some s ∧ s.step staleSave = some t ∧
      t.minted = [⟨"1//old".toList, "A".toList, "a".toList⟩,
        ⟨"1//new".toList, "B".toList, "b".toList⟩] ∧
      s.file.token = "1//new".toList ∧ t.file.token = "1//old".toList ∧
      ¬ KeepsToken s staleSave ∧ ¬ Bound t := by
  have hrun : StepRun.run step (start .missing) rotation = some
      ⟨.object (some ⟨"B".toList, "b".toList, "1//new".toList⟩),
        [⟨[], [], []⟩, ⟨"A".toList, "a".toList, "1//old".toList⟩],
        [⟨"1//old".toList, "A".toList, "a".toList⟩,
          ⟨"1//new".toList, "B".toList, "b".toList⟩]⟩ := by decide +kernel
  refine ⟨_, _, hrun, rfl, rfl, rfl, by decide +kernel, ?_, ?_⟩
  · intro hkeeps
    have hsame := hkeeps rfl _ rfl
    revert hsame
    decide +kernel
  · intro hbound
    obtain ⟨m, hm, hmt, hmi, -⟩ := hbound (by decide +kernel)
    revert hmt hmi
    fin_cases hm <;> decide +kernel

end Device

end Rahgozar.Config
