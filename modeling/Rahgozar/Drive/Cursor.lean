import Rahgozar.Drive.Stream

set_option autoImplicit false

/-! # The `modifiedTime` cursor

Relay and client list the folder again and again, from the second call on only what has been
modified since a cursor. The cursor follows the clock at a distance of 8 seconds, whether or not the
files it passes have been consumed. A run has the whole loop: uploads that end at any time, list
calls that fail, or take long, or show a file late, downloads that fail, sessions that come and go.
All parties read one clock, in nanoseconds.
-/

namespace Rahgozar.Drive

def modifiedCursorLookbackSecs : Int := 8

def seconds (n : Int) : Int := n * 1000000000

/-- A file in the folder. -/
structure Stored where
  file : DriveFile
  modifiedTime : Int
deriving DecidableEq

/-- A file of a listing, which may lack its time. -/
structure Row where
  file : DriveFile
  modifiedTime : Option Int
deriving DecidableEq

/-- A row for a file in the folder. Size and time may be missing, and the download may fail. -/
def Row.shows (row : Row) (f : Stored) : Bool :=
  decide (row.file.name = f.file.name) &&
    (decide (row.file.size = f.file.size) || row.file.size.isNone) &&
    (decide (row.file.body = f.file.body) || row.file.body.isNone) &&
    (decide (row.modifiedTime = some f.modifiedTime) || row.modifiedTime.isNone)

/-- The time the query of `build_list_query_since` asks for. -/
def satisfiesQuery (since : Option Int) (modifiedTime : Int) : Prop := ∀ c ∈ since, c ≤ modifiedTime

instance (since : Option Int) (modifiedTime : Int) :
    Decidable (satisfiesQuery since modifiedTime) :=
  match since with
  | none => isTrue nofun
  | some c => decidable_of_iff (c ≤ modifiedTime) (by simp [satisfiesQuery])

/-- The newest file of the listing, or the start of the call if that is later. -/
def cursorBasis (files : List Row) (now : Int) : Int :=
  match (files.filterMap Row.modifiedTime).max? with
  | some m => if now < m then m else now
  | none => now

/-- `advance_modified_cursor`; `now` was taken before the list call. -/
def advanceModifiedCursor (files : List Row) (cursor : Option Int) (now : Int) : Option Int :=
  let proposed := cursorBasis files now - seconds modifiedCursorLookbackSecs
  if cursor.any fun c => decide (proposed ≤ c) then cursor else some proposed

theorem cursorBasis_le_iff (files : List Row) (now x : Int) :
    cursorBasis files now ≤ x ↔ ∀ t ∈ now :: files.filterMap Row.modifiedTime, t ≤ x := by
  rw [List.forall_mem_cons]
  unfold cursorBasis
  cases hmax : (files.filterMap Row.modifiedTime).max? with
  | none =>
      rw [List.max?_eq_none_iff] at hmax
      simp [hmax]
  | some m =>
      rw [← List.max?_le_iff hmax]
      dsimp only
      split_ifs <;> omega

/-- The query after an advance asks for what it asked for, at most 8 seconds behind the clock and
behind every listed file. -/
theorem satisfiesQuery_advance (files : List Row) (cursor : Option Int) (now x : Int) :
    satisfiesQuery (advanceModifiedCursor files cursor now) x ↔ satisfiesQuery cursor x ∧
      ∀ t ∈ now :: files.filterMap Row.modifiedTime, t ≤ x + seconds modifiedCursorLookbackSecs := by
  rw [← cursorBasis_le_iff]
  unfold advanceModifiedCursor
  dsimp only
  cases cursor with
  | none =>
      simp [satisfiesQuery]
  | some c =>
      split_ifs with hbehind
      · simp only [Option.any_some, decide_eq_true_eq] at hbehind
        simp only [satisfiesQuery, Option.mem_some_iff, forall_eq']
        omega
      · simp only [Option.any_some, decide_eq_true_eq] at hbehind
        simp only [satisfiesQuery, Option.mem_some_iff, forall_eq']
        omega

/-! ## The poll loop -/

/-- A session in the table of the loop. -/
structure Handle (ι : Type) where
  sid : SessionId
  key : Key
  inbox : Inbox ι

/-- What the two loops do differently: the relay advances its cursor when a list call has failed,
and its sessions come out of the listing, while the client's are opened by the proxy. -/
structure PollLoop (ι : Type) where
  side : PollSide ι
  advancesOnListError : Bool
  registers : SessionId → Key → List DriveFile → Bool

def relayLoop (env : Env) : PollLoop RelayInbound :=
  ⟨relaySide, true, fun sid key listing =>
    (bootstrap env sid listing).any fun r => decide (r.keys.kC2r = key)⟩

def clientLoop : PollLoop ClientInbound := ⟨clientSide, false, fun _ _ _ => true⟩

/-- `call` is the start of the list call that is out, and `listing` what the last one has brought.
`looked` are the times that cycles which advanced the cursor have seen: their own starts and the
times of the files they listed. -/
structure PollState (ι : Type) where
  now : Int
  cursor : Option Int
  call : Option Int
  folder : List Stored
  listing : List DriveFile
  sessions : List (Handle ι)
  looked : List Int

namespace PollState

variable {ι : Type}

def new (now : Int) : PollState ι := ⟨now, none, none, [], [], [], []⟩

inductive Event where
  | wait (nanos : Nat)
  | upload (file : DriveFile)
  | remove (i : Nat)
  | register (sid : SessionId) (key : Key)
  | deregister (sid : SessionId)
  | call
  | listed (result : Option (List Row))
  | group (sid : SessionId) (joined : List PreparedBatch) (sends : Option Nat)

/-- The listing has only files that satisfy the query, and has those of the loop's direction that
have been there for the lookback. -/
def validListing (loop : PollLoop ι) (s : PollState ι) (rows : List Row) : Bool :=
  (rows.all fun row => s.folder.any fun f =>
    row.shows f && decide (satisfiesQuery s.cursor f.modifiedTime)) &&
  (s.folder.all fun f =>
    !(decide (satisfiesQuery s.cursor f.modifiedTime) &&
      decide (f.modifiedTime + seconds modifiedCursorLookbackSecs ≤ s.now) &&
      ((parseFilename f.file.name).any fun p => decide (p.kind = .frame loop.side.direction))) ||
    rows.any fun row => row.shows f)

/-- The cursor is advanced against a listing. -/
def advance (s : PollState ι) (callStart : Int) (rows : List Row) : PollState ι :=
  { s with
    cursor := advanceModifiedCursor rows s.cursor callStart
    looked := s.looked ++ callStart :: rows.filterMap Row.modifiedTime }

/-- The list call returns. After an error the relay goes on with no files, the client returns. -/
def onListed (loop : PollLoop ι) (s : PollState ι) (callStart : Int) (result : Option (List Row)) :
    PollState ι :=
  let s := { s with call := none, listing := [] }
  match result with
  | none =>
      -- the relay goes on with an empty listing, which still moves the cursor
      if loop.advancesOnListError then s.advance callStart [] else s
  | some rows => { s.advance callStart rows with listing := rows.map Row.file }

/-- An upload ends, or a file is deleted; a session enters or leaves the table; a list call starts
and returns; the files of one session in the listing are processed. -/
def step (P : Primitives) (loop : PollLoop ι) (s : PollState ι) : Event → Option (PollState ι)
  | .wait nanos => some { s with now := s.now + nanos }
  | .upload file => some { s with folder := s.folder ++ [⟨file, s.now⟩] }
  | .remove i => some { s with folder := s.folder.eraseIdx i }
  | .register sid key =>
      if (s.sessions.any fun h => decide (h.sid = sid)) || !loop.registers sid key s.listing then
        none
      else some { s with sessions := s.sessions ++ [⟨sid, key, ⟨.new, [], none⟩⟩] }
  | .deregister sid => some { s with sessions := s.sessions.filter fun h => decide (h.sid ≠ sid) }
  | .call => if s.call.isSome then none else some { s with call := some s.now }
  | .listed result =>
      match s.call with
      | none => none
      | some callStart =>
          if result.all fun rows => validListing loop s rows then
            some (onListed loop s callStart result)
          else none
  | .group sid joined sends =>
      match s.sessions.findIdx? fun h => decide (h.sid = sid) with
      | none => none
      | some i =>
          match s.sessions[i]? with
          | none => none
          | some h =>
              (processGroup P loop.side h.key sid s.listing joined { h.inbox with sends := sends }).map
                fun inbox => { s with sessions := s.sessions.set i { h with inbox := inbox } }

/-! ## Files that wait -/

/-- A file of a session in the table that has not been consumed. -/
def waits (loop : PollLoop ι) (s : PollState ι) (f : Stored) : Bool :=
  (parseFilename f.file.name).any fun p =>
    decide (p.kind = .frame loop.side.direction) && s.sessions.any fun h =>
      decide (h.sid = p.sid) && h.inbox.window.nextExpected.any fun n => decide (n ≤ p.seq)

def waiting (loop : PollLoop ι) (s : PollState ι) : List Stored := s.folder.filter (waits loop s)

/-- A list call that starts asks for every file that waits. -/
def NoneStranded (loop : PollLoop ι) (s : PollState ι) : Event → Prop
  | .call => ∀ f ∈ s.waiting loop, satisfiesQuery s.cursor f.modifiedTime
  | _ => True

/-- A file that waits when a list call starts is at most 8 seconds older than any time that an
earlier cycle has seen: the start of its list call, and the times of the files it listed. -/
def NotOverdue (loop : PollLoop ι) (s : PollState ι) : Event → Prop
  | .call => ∀ f ∈ s.waiting loop, ∀ t ∈ s.looked,
      t ≤ f.modifiedTime + seconds modifiedCursorLookbackSecs
  | _ => True

instance (loop : PollLoop ι) (s : PollState ι) (e : Event) : Decidable (NoneStranded loop s e) := by
  unfold NoneStranded
  split <;> infer_instance

instance (loop : PollLoop ι) (s : PollState ι) (e : Event) : Decidable (NotOverdue loop s e) := by
  unfold NotOverdue
  split <;> infer_instance

/-- The cursor is 8 seconds behind the latest time that a cycle has seen. -/
def CursorInv (s : PollState ι) : Prop :=
  ∀ x, satisfiesQuery s.cursor x ↔ ∀ t ∈ s.looked, t ≤ x + seconds modifiedCursorLookbackSecs

variable {P : Primitives} {loop : PollLoop ι} {s t : PollState ι}

theorem advance_inv (h : CursorInv s) (callStart : Int) (rows : List Row) :
    CursorInv (s.advance callStart rows) := by
  intro x
  show satisfiesQuery (advanceModifiedCursor rows s.cursor callStart) x ↔ ∀ t ∈ s.looked ++ _, _
  rw [satisfiesQuery_advance, h x, List.forall_mem_append]

/-- **One step of the loop.** -/
theorem step_inv {e : Event} (h : CursorInv s) (hs : s.step P loop e = some t) : CursorInv t := by
  -- only the return of a list call touches the cursor
  cases e with
  | wait nanos => cases hs; exact h
  | upload file => cases hs; exact h
  | remove i => cases hs; exact h
  | register sid key =>
      simp only [step] at hs
      split_ifs at hs
      cases hs
      exact h
  | deregister sid => cases hs; exact h
  | call =>
      simp only [step] at hs
      split_ifs at hs
      cases hs
      exact h
  | listed result =>
      simp only [step] at hs
      split at hs
      · cases hs
      · rename_i callStart _
        split_ifs at hs
        cases hs
        have hsame : CursorInv { s with call := none, listing := [] } := h
        unfold onListed
        dsimp only
        cases result with
        | none =>
            -- the relay advances as if the listing were empty, the client does not
            dsimp only
            split_ifs
            · exact advance_inv hsame callStart []
            · exact h
        | some rows => exact advance_inv hsame callStart rows
  | group sid joined sends =>
      simp only [step] at hs
      split at hs
      · cases hs
      · split at hs
        · cases hs
        · obtain ⟨inbox, -, rfl⟩ := Option.map_eq_some_iff.mp hs
          exact h

/-- Where the cursor is what `CursorInv` says, both conditions are the same. -/
theorem noneStranded_iff_notOverdue (h : CursorInv s) (e : Event) :
    NoneStranded loop s e ↔ NotOverdue loop s e := by
  cases e with
  | call => exact forall₂_congr fun f _ => h f.modifiedTime
  | _ => exact Iff.rfl

theorem new_inv (now : Int) : CursorInv (new now : PollState ι) :=
  fun _ => ⟨fun _ => nofun, fun _ => nofun⟩

/-- **When no file is stranded.** Along any run of either loop, every list call asks for every file
that waits if and only if no file that waits is overdue. -/
theorem none_stranded_iff (env : Env) (now : Int) (es : List Event) :
    (StepRun.AllSteps (step env.prims (relayLoop env)) (NoneStranded (relayLoop env)) (new now) es ↔
      StepRun.AllSteps (step env.prims (relayLoop env)) (NotOverdue (relayLoop env)) (new now) es) ∧
    (StepRun.AllSteps (step env.prims clientLoop) (NoneStranded clientLoop) (new now) es ↔
      StepRun.AllSteps (step env.prims clientLoop) (NotOverdue clientLoop) (new now) es) :=
  ⟨StepRun.allSteps_congr (fun _ _ _ hinv hs => step_inv hinv hs)
      (fun _ e hinv => noneStranded_iff_notOverdue hinv e) (new_inv now) es,
    StepRun.allSteps_congr (fun _ _ _ hinv hs => step_inv hinv hs)
      (fun _ e hinv => noneStranded_iff_notOverdue hinv e) (new_inv now) es⟩

/-! ## Prompt consumption

No cycle sees a time that is still to come, so a loop that consumes every file within 8 seconds of
its modification strands none. -/

/-- A file that waits when a list call starts has been modified at most 8 seconds ago. -/
def Prompt (loop : PollLoop ι) (s : PollState ι) : Event → Prop
  | .call => ∀ f ∈ s.waiting loop, s.now ≤ f.modifiedTime + seconds modifiedCursorLookbackSecs
  | _ => True

structure ClockInv (s : PollState ι) : Prop where
  looked : ∀ t ∈ s.looked, t ≤ s.now
  folder : ∀ f ∈ s.folder, f.modifiedTime ≤ s.now
  call : ∀ t ∈ s.call, t ≤ s.now

theorem ClockInv.advance (h : ClockInv s) {callStart : Int} (hcall : callStart ≤ s.now)
    {rows : List Row} (hrows : ∀ t ∈ rows.filterMap Row.modifiedTime, t ≤ s.now) :
    ClockInv (s.advance callStart rows) := by
  refine ⟨fun t ht => ?_, h.folder, h.call⟩
  rcases List.mem_append.mp ht with ht | ht
  · exact h.looked t ht
  · rcases List.mem_cons.mp ht with rfl | ht
    · exact hcall
    · exact hrows t ht

/-- A listing shows times of files in the folder. -/
theorem ClockInv.rows (h : ClockInv s) {rows : List Row}
    (hvalid : validListing loop s rows = true) :
    ∀ t ∈ rows.filterMap Row.modifiedTime, t ≤ s.now := by
  intro t ht
  obtain ⟨row, hrow, htime⟩ := List.mem_filterMap.mp ht
  -- the first half of `validListing`: a row shows a file of the folder
  simp only [validListing, Bool.and_eq_true, List.all_eq_true, List.any_eq_true] at hvalid
  obtain ⟨f, hf, hshows, -⟩ := hvalid.1 row hrow
  simp only [Row.shows, htime, Bool.and_eq_true, Bool.or_eq_true, decide_eq_true_eq,
    Option.isNone_some, Bool.false_eq_true, or_false, Option.some.injEq] at hshows
  rw [hshows.2]
  exact h.folder f hf

theorem step_clockInv {e : Event} (h : ClockInv s) (hs : s.step P loop e = some t) :
    ClockInv t := by
  cases e with
  | wait nanos =>
      -- times that have passed stay behind the clock
      cases hs
      have hle : s.now ≤ s.now + nanos := by omega
      exact ⟨fun t ht => (h.looked t ht).trans hle, fun f hf => (h.folder f hf).trans hle,
        fun t ht => (h.call t ht).trans hle⟩
  | upload file =>
      cases hs
      refine ⟨h.looked, fun f hf => ?_, h.call⟩
      rcases List.mem_append.mp hf with hf | hf
      · exact h.folder f hf
      · rw [List.mem_singleton.mp hf]
  | remove i =>
      cases hs
      exact ⟨h.looked, fun f hf => h.folder f (List.mem_of_mem_eraseIdx hf), h.call⟩
  | register sid key =>
      simp only [step] at hs
      split_ifs at hs
      cases hs
      exact ⟨h.looked, h.folder, h.call⟩
  | deregister sid => cases hs; exact ⟨h.looked, h.folder, h.call⟩
  | call =>
      simp only [step] at hs
      split_ifs at hs
      cases hs
      refine ⟨h.looked, h.folder, fun t ht => ?_⟩
      rw [← Option.some.inj ht]
  | listed result =>
      simp only [step] at hs
      split at hs
      · cases hs
      · rename_i callStart hcall
        split_ifs at hs with hvalid
        cases hs
        have hbase : ClockInv { s with call := none, listing := [] } := ⟨h.looked, h.folder, nofun⟩
        have hstart : callStart ≤ s.now := h.call callStart hcall
        unfold onListed
        dsimp only
        cases result with
        | none =>
            dsimp only
            split_ifs
            · exact hbase.advance hstart nofun
            · exact hbase
        | some rows =>
            have hadvance := hbase.advance hstart (h.rows hvalid)
            exact ⟨hadvance.looked, hadvance.folder, hadvance.call⟩
  | group sid joined sends =>
      simp only [step] at hs
      split at hs
      · cases hs
      · split at hs
        · cases hs
        · obtain ⟨inbox, -, rfl⟩ := Option.map_eq_some_iff.mp hs
          exact ⟨h.looked, h.folder, h.call⟩

/-- **Prompt consumption strands no file**, in either loop. -/
theorem noneStranded_of_prompt {now : Int} {es : List Event}
    (h : StepRun.AllSteps (step P loop) (Prompt loop) (new now) es) :
    StepRun.AllSteps (step P loop) (NoneStranded loop) (new now) es := by
  refine StepRun.allSteps_imp (P := fun s => CursorInv s ∧ ClockInv s)
    (fun _ _ _ hinv hs => ⟨step_inv hinv.1 hs, step_clockInv hinv.2 hs⟩) ?_
    ⟨new_inv now, nofun, nofun, nofun⟩ h
  intro s e hinv hprompt
  rw [noneStranded_iff_notOverdue hinv.1]
  cases e with
  | call => exact fun f hf t ht => (hinv.2.looked t ht).trans (hprompt f hf)
  | _ => trivial

/-! ## A late upload -/

def secondFile : DriveFile := Sample.file prefixC2r '2' [] Sample.keys.1 (Sample.frame .data 2 [3])

/-- The session is opened. Frame 2 has been uploaded when the clock shows 1 s, and frame 1 is late:
at 10 s the relay lists frame 2, cannot deliver it, and sets its cursor to 2 s. Then frame 1
arrives. -/
def lateUpload : List Event :=
  [.upload Sample.connectFile, .call, .listed (some [⟨Sample.connectFile, some 0⟩]),
    .register Sample.sid Sample.keys.1,
    .group Sample.sid [Sample.prepared .clientToRelay Sample.connect] none, .remove 0,
    .wait 1000000000, .upload secondFile, .wait 9000000000,
    .call, .listed (some [⟨secondFile, some 1000000000⟩]), .group Sample.sid [] none,
    .wait 1000000000, .upload Sample.requestFile, .call]

theorem late_upload_strands : ¬ ∀ es : List Event,
    StepRun.AllSteps (step Sample.env.prims (relayLoop Sample.env)) (NoneStranded (relayLoop Sample.env))
      (new 0) es := by
  intro h
  have hlate : ¬ StepRun.AllSteps (step Sample.env.prims (relayLoop Sample.env))
      (NoneStranded (relayLoop Sample.env)) (new 0) lateUpload := by
    decide +kernel
  exact hlate (h lateUpload)

end PollState

end Rahgozar.Drive
