import Rahgozar.Drive.Peers
import Rahgozar.Lib.Refusal

set_option autoImplicit false

/-! # The file sweep of the reaper (`drive-relay/src/orphan_gc.rs`)

`run_one_sweep` lists the shared folder once for each kind of file, and deletes the protocol files
that were last modified longer ago than five times the idle timeout of the configuration. The
product is a `u32`, which wraps in a release build. Times are in nanoseconds; a clock may be behind
the time of a file.
-/

namespace Rahgozar.Drive.Reaper

open Refusal (rejectIf)

/-! ## The configuration (`drive-relay/src/config.rs`) -/

/-- The fields that `validate` and the file sweep look at. -/
structure RelayConfig where
  oauthClientId : List Char
  oauthClientSecret : List Char
  oauthRefreshToken : List Char
  folderId : List Char
  x25519SecretKeyPath : String
  pollIntervalMs : UInt32
  maxConcurrentDials : UInt8
  idleTimeoutSecs : UInt32
deriving DecidableEq

/-- `fileExists` is what the file system says of a path. -/
def RelayConfig.validate (c : RelayConfig) (fileExists : String → Bool) : Except String Unit := do
  rejectIf (trim c.oauthClientId).isEmpty
    ("oauth_client_id is empty — rahgozar is BYO OAuth: register your own " ++
      "installed-app client in Google Cloud Console (see docs/drive_oauth_setup.md), " ++
      "then re-run `rahgozar-drive-relay oauth device-code --client-id <id> " ++
      "--client-secret <secret>`")
  rejectIf (trim c.oauthClientSecret).isEmpty
    ("oauth_client_secret is empty — pair it with oauth_client_id via the " ++
      "`oauth device-code --client-id <id> --client-secret <secret>` subcommand. " ++
      "See docs/drive_oauth_setup.md.")
  rejectIf (trim c.oauthRefreshToken).isEmpty
    "oauth_refresh_token is empty — run `rahgozar-drive-relay oauth device-code` first"
  rejectIf (trim c.folderId).isEmpty
    ("folder_id is empty — create the shared Drive folder in the desktop client UI, " ++
      "then paste the bare folder ID here")
  rejectIf (!fileExists c.x25519SecretKeyPath)
    ("x25519_secret_key_path " ++ c.x25519SecretKeyPath ++
      " does not exist — run `rahgozar-drive-relay keygen` first")
  rejectIf (c.pollIntervalMs = 0)
    "poll_interval_ms must be > 0 (would otherwise busy-loop the poller)"
  rejectIf (c.maxConcurrentDials = 0)
    "max_concurrent_dials must be > 0 (would otherwise stall every Connect frame)"
  rejectIf (c.idleTimeoutSecs = 0)
    ("idle_timeout_secs must be > 0 (would otherwise reap every protocol file and " ++
      "evict every session on each orphan-reaper sweep)")

/-- A configuration that the relay starts with. -/
structure AcceptedConfig extends RelayConfig where
  fileExists : String → Bool
  accepted : toRelayConfig.validate fileExists = .ok ()

/-! ## The sweep -/

/-- What the sweep reads of an entry of a listing. -/
structure DriveFile where
  id : String
  name : List Char
  modifiedTime : Option Int
deriving DecidableEq

/-- What Drive returns for a prefix; a listing may fail. -/
abbrev Folder := List Char → Except String (List DriveFile)

/-- `STALE_FILE_MULTIPLIER` -/
def staleFileMultiplier : UInt32 := 5

/-- In nanoseconds. -/
def staleThreshold (c : RelayConfig) : Nat :=
  (staleFileMultiplier * c.idleTimeoutSecs).toNat * 10 ^ 9

def isProtocolFileForPrefix (name start : List Char) : Bool :=
  match parseFilename name with
  | none => false
  | some parsed =>
      match parsed.kind with
      | .hello => start = prefixHello
      | .frame .clientToRelay => start = prefixC2r
      | .frame .relayToClient => start = prefixR2c

def isStale (file : DriveFile) (now : Int) (threshold : Nat) : Bool :=
  match file.modifiedTime with
  | none => false
  -- a time in the future has no age
  | some mtime => if now - mtime < 0 then false else threshold < (now - mtime).toNat

/-- The files for which `delete_file` is called, each with the prefix it was listed under. -/
def sweepFiles (c : RelayConfig) (now : Int) (folder : Folder) : List (List Char × DriveFile) :=
  [prefixHello, prefixC2r, prefixR2c].flatMap fun start =>
    match folder start with
    | .error _ => []
    | .ok files =>
        (files.filter fun f =>
          isProtocolFileForPrefix f.name start && isStale f now (staleThreshold c)).map
            fun f => (start, f)

/-! ## What is to hold -/

/-- The file is of the protocol, and was last modified longer ago than five times the timeout. -/
structure Deletable (c : RelayConfig) (now : Int) (start : List Char) (f : DriveFile) : Prop where
  name : ∃ parsed, parseFilename f.name = some parsed ∧ parsed.kind.start = start
  age : ∃ mtime, f.modifiedTime = some mtime ∧
    ((5 * c.idleTimeoutSecs.toNat * 10 ^ 9 : Nat) : Int) < now - mtime

/-- Only such files are deleted; files from the future and files without a time are kept. -/
def SweepsStale (c : RelayConfig) (now : Int) (folder : Folder) : Prop :=
  (∀ d ∈ sweepFiles c now folder, Deletable c now d.1 d.2) ∧
    ∀ d ∈ sweepFiles c now folder, ∃ mtime, d.2.modifiedTime = some mtime ∧ mtime ≤ now

/-- A protocol file that is listed, whose age is over the product that has wrapped and not over the
product. -/
def LiesBetween (c : RelayConfig) (now : Int) (folder : Folder) : Prop :=
  ∃ start ∈ [prefixHello, prefixC2r, prefixR2c], ∃ files, folder start = .ok files ∧
    ∃ f ∈ files, isProtocolFileForPrefix f.name start = true ∧
      ∃ mtime, f.modifiedTime = some mtime ∧
        ((5 * c.idleTimeoutSecs.toNat % 2 ^ 32 * 10 ^ 9 : Nat) : Int) < now - mtime ∧
        now - mtime ≤ ((5 * c.idleTimeoutSecs.toNat * 10 ^ 9 : Nat) : Int)

/-! ## One file -/

theorem staleThreshold_eq (c : RelayConfig) :
    staleThreshold c = 5 * c.idleTimeoutSecs.toNat % 2 ^ 32 * 10 ^ 9 := by
  unfold staleThreshold
  rw [UInt32.toNat_mul]
  rfl

theorem isProtocolFileForPrefix_iff (name start : List Char) :
    isProtocolFileForPrefix name start = true ↔
      ∃ parsed, parseFilename name = some parsed ∧ parsed.kind.start = start := by
  unfold isProtocolFileForPrefix
  cases hparse : parseFilename name with
  | none => simp
  | some parsed =>
      simp only [Option.some.injEq, exists_eq_left']
      cases hkind : parsed.kind with
      | hello => exact decide_eq_true_iff.trans eq_comm
      | frame direction =>
          cases direction with
          | clientToRelay => exact decide_eq_true_iff.trans eq_comm
          | relayToClient => exact decide_eq_true_iff.trans eq_comm

theorem isStale_iff (file : DriveFile) (now : Int) (threshold : Nat) :
    isStale file now threshold = true ↔
      ∃ mtime, file.modifiedTime = some mtime ∧ (threshold : Int) < now - mtime := by
  unfold isStale
  cases htime : file.modifiedTime with
  | none => simp
  | some mtime =>
      simp only [Option.some.injEq, exists_eq_left']
      split
      · simp only [Bool.false_eq_true, false_iff]
        omega
      · rw [decide_eq_true_iff]
        omega

theorem mem_sweepFiles {c : RelayConfig} {now : Int} {folder : Folder} {start : List Char}
    {f : DriveFile} :
    (start, f) ∈ sweepFiles c now folder ↔
      start ∈ [prefixHello, prefixC2r, prefixR2c] ∧ ∃ files, folder start = .ok files ∧
        f ∈ files ∧ isProtocolFileForPrefix f.name start = true ∧
          isStale f now (staleThreshold c) = true := by
  unfold sweepFiles
  rw [List.mem_flatMap]
  constructor
  · rintro ⟨start', hstart, hmem⟩
    cases hlist : folder start' with
    | error e =>
        rw [hlist] at hmem
        cases hmem
    | ok files =>
        rw [hlist] at hmem
        obtain ⟨f', hf', heq⟩ := List.mem_map.mp hmem
        cases heq
        obtain ⟨hfile, hboth⟩ := List.mem_filter.mp hf'
        obtain ⟨hname, hstale⟩ := Bool.and_eq_true_iff.mp hboth
        exact ⟨hstart, files, hlist, hfile, hname, hstale⟩
  · rintro ⟨hstart, files, hlist, hfile, hname, hstale⟩
    refine ⟨start, hstart, ?_⟩
    rw [hlist]
    exact List.mem_map.mpr
      ⟨f, List.mem_filter.mpr ⟨hfile, Bool.and_eq_true_iff.mpr ⟨hname, hstale⟩⟩, rfl⟩

/-! ## The whole sweep -/

/-- A file that was deleted is not from the future. -/
theorem time_of_mem_sweepFiles {c : RelayConfig} {now : Int} {folder : Folder}
    {d : List Char × DriveFile} (h : d ∈ sweepFiles c now folder) :
    ∃ mtime, d.2.modifiedTime = some mtime ∧ mtime ≤ now := by
  obtain ⟨-, files, -, -, -, hstale⟩ := mem_sweepFiles.mp h
  obtain ⟨mtime, htime, hage⟩ := (isStale_iff _ _ _).mp hstale
  exact ⟨mtime, htime, by omega⟩

/-- **The reaper deletes only stale files** exactly if five times the idle timeout fits into 32
bits, or no protocol file of the folder has an age at which the wrapped product makes a
difference. -/
theorem sweepsStale_iff (c : AcceptedConfig) (now : Int) (folder : Folder) :
    SweepsStale c.toRelayConfig now folder ↔
      5 * c.idleTimeoutSecs.toNat < 2 ^ 32 ∨ ¬ LiesBetween c.toRelayConfig now folder := by
  constructor
  · rintro ⟨hright, -⟩
    refine Or.inr ?_
    rintro ⟨start, hstart, files, hlist, f, hf, hname, mtime, htime, hover, hunder⟩
    have hstale : isStale f now (staleThreshold c.toRelayConfig) = true := by
      rw [isStale_iff, staleThreshold_eq]
      exact ⟨mtime, htime, hover⟩
    obtain ⟨mtime', htime', hage⟩ :=
      (hright (start, f) (mem_sweepFiles.mpr ⟨hstart, files, hlist, hf, hname, hstale⟩)).age
    rw [htime] at htime'
    cases htime'
    omega
  · intro hcond
    refine ⟨?_, fun d hd => time_of_mem_sweepFiles hd⟩
    rintro ⟨start, f⟩ hd
    obtain ⟨hstart, files, hlist, hf, hname, hstale⟩ := mem_sweepFiles.mp hd
    rw [isStale_iff, staleThreshold_eq] at hstale
    obtain ⟨mtime, htime, hage⟩ := hstale
    refine ⟨(isProtocolFileForPrefix_iff _ _).mp hname, mtime, htime, ?_⟩
    rcases hcond with hsmall | hnone
    · rwa [Nat.mod_eq_of_lt hsmall] at hage
    · by_contra hle
      exact hnone ⟨start, hstart, files, hlist, f, hf, hname, mtime, htime, hage, not_lt.mp hle⟩

/-- A configuration that is accepted, with the least timeout whose product wraps, to four
seconds. -/
def wrappingConfig : AcceptedConfig where
  oauthClientId := ['i']
  oauthClientSecret := ['s']
  oauthRefreshToken := ['t']
  folderId := ['f']
  x25519SecretKeyPath := "/etc/rahgozar-drive-relay/relay.key"
  pollIntervalMs := 300
  maxConcurrentDials := 8
  idleTimeoutSecs := 858993460
  fileExists := fun _ => true
  accepted := by decide +kernel

/-- A frame that the client has uploaded five seconds ago is deleted. -/
theorem fresh_frame_deleted :
    let name := "c2r_aaaaaaaaaaaaaaaaaaaaaaaaaa_7".toList
    ¬ SweepsStale wrappingConfig.toRelayConfig (5 * 10 ^ 9)
      (fun start => .ok (if start = prefixC2r then [⟨"id", name, some 0⟩] else [])) := by
  intro name h
  have hmem : (prefixC2r, (⟨"id", name, some 0⟩ : DriveFile)) ∈
      sweepFiles wrappingConfig.toRelayConfig (5 * 10 ^ 9)
        (fun start => .ok (if start = prefixC2r then [⟨"id", name, some 0⟩] else [])) := by
    decide +kernel
  obtain ⟨mtime, htime, hage⟩ := (h.1 _ hmem).age
  cases htime
  revert hage
  decide

end Rahgozar.Drive.Reaper
