import Rahgozar.Drive.Peers

set_option autoImplicit false

/-! # One poll cycle, for one session

The relay polls for `c2r_*` files (`drive-relay/src/poll.rs`) and the client for `r2c_*` files
(`src/drive_client.rs`) in the same way: the files of a session are sorted by number, downloaded
and opened side by side, and their frames go to the session's mailbox in order, each number once.
The two differ in the key, in the unsealed `Hello` in front of `c2r_<sid>_0`, and in the frames
they take; `PollSide` has these.
-/

namespace Rahgozar.Drive

/-- The longest sealed body: header, payload and tag. -/
def maxSealedFrameBodyBytes : Nat := headerLen + maxPayload + 16

/-- A file of a listing, with what its download returns. -/
structure DriveFile where
  name : List Char
  size : Option Nat
  body : Option (List UInt8)
deriving DecidableEq

structure PollSide (ι : Type) where
  direction : Direction
  unsealedPrefixLen : (seq : Nat) → Nat
  toInbound : WireFrame → Option ι

def relaySide : PollSide RelayInbound :=
  ⟨.clientToRelay, fun seq => if seq = 0 then helloBodyLen else 0, frameToInbound⟩

def clientSide : PollSide ClientInbound := ⟨.relayToClient, fun _ => 0, wireToInbound⟩

/-! ## Listing and download -/

/-- The files of one session and direction in the order of their numbers. -/
def sessionGroup (direction : Direction) (sid : SessionId) (listing : List DriveFile) :
    List (DriveFile × DriveFilename) :=
  ((listing.filterMap fun f => (parseFilename f.name).map fun p => (f, p)).filter fun e =>
    e.2.kind = .frame direction ∧ e.2.sid = sid).insertionSort fun a b => a.2.seq ≤ b.2.seq

/-- The files to download: from the expected number on, if that one is there. -/
def selectDownloads (direction : Direction) (nextExpected : Nat) (sawExpectedSeq : Bool) :
    List (DriveFile × DriveFilename) → List (DriveFile × DriveFilename)
  | [] => []
  | (file, parsed) :: group =>
      if parsed.kind ≠ .frame direction then
        selectDownloads direction nextExpected sawExpectedSeq group
      else if parsed.seq < nextExpected then
        -- a replay, which is deleted
        selectDownloads direction nextExpected sawExpectedSeq group
      else if parsed.seq = nextExpected then
        (file, parsed) :: selectDownloads direction nextExpected true group
      else if sawExpectedSeq then
        (file, parsed) :: selectDownloads direction nextExpected true group
      else
        -- the expected file is not there: the rest waits for a later poll
        []

structure PreparedBatch where
  parsed : DriveFilename
  batch : Batch
deriving DecidableEq

/-- `prepare_frame_batch` and `prepare_r2c_batch`: download, open, decode, and check the first
number. -/
def prepareBatch {ι : Type} (P : Primitives) (side : PollSide ι) (key : Key) (file : DriveFile)
    (parsed : DriveFilename) : Option PreparedBatch :=
  let prefixLen := side.unsealedPrefixLen parsed.seq
  let maxTotal := maxSealedFrameBodyBytes + prefixLen
  if file.size.any (fun size => decide (maxTotal < size)) then none
  else
    match file.body with
    | none => none
    | some body =>
        if maxTotal < body.length ∨ body.length < prefixLen then none
        else
          match P.openSealed key parsed.sid parsed.seq (body.drop prefixLen) with
          | none => none
          | some plaintext =>
              match Batch.decode plaintext with
              | .error _ => none
              | .ok batch =>
                  match batch.frames with
                  | [] => none
                  | first :: _ => if first.seq ≠ parsed.seq then none else some ⟨parsed, batch⟩

/-! ## Delivery -/

/-- The session as its poll worker sees it. `mailbox` is everything that has gone into the channel;
after `sends` more messages the driver has dropped its end (`none`: it does not in this cycle). -/
structure Inbox (ι : Type) where
  window : ReplayWindow
  mailbox : List ι
  sends : Option Nat

inductive DeliveryOutcome where
  | consumed
  | duplicate
  | blocked
deriving DecidableEq

/-- The loop of `deliver_prepared_frame_batch` and `deliver_prepared_r2c_batch` over the frames of a
batch; `committed` says that one of them has been delivered. -/
def deliverFrames {ι : Type} (toInbound : WireFrame → Option ι) (sid : SessionId) :
    Inbox ι → Bool → List WireFrame → Inbox ι × DeliveryOutcome
  | inbox, committed, [] => (inbox, if committed then .consumed else .blocked)
  | inbox, committed, wire :: frames =>
      if wire.sid ≠ sid then (inbox, if committed then .consumed else .blocked)
      else
        match inbox.window.checkNext wire.seq with
        | .error (.replay _ _) => (inbox, if committed then .consumed else .duplicate)
        | .error (.future _ _) => (inbox, if committed then .consumed else .blocked)
        | .ok () =>
            match toInbound wire with
            | none => (inbox, if committed then .consumed else .blocked)
            | some inbound =>
                if inbox.sends = some 0 then (inbox, if committed then .consumed else .blocked)
                else
                  deliverFrames toInbound sid
                    ⟨inbox.window.commit wire.seq, inbox.mailbox ++ [inbound],
                      inbox.sends.map (· - 1)⟩ true frames

def deliverBatches {ι : Type} (toInbound : WireFrame → Option ι) :
    Inbox ι → List PreparedBatch → Inbox ι
  | inbox, [] => inbox
  | inbox, p :: prepared =>
      match deliverFrames toInbound p.parsed.sid inbox false p.batch.frames with
      | (inbox, .blocked) => inbox
      | (inbox, _) => deliverBatches toInbound inbox prepared

/-- `process_frame_group` and `process_r2c_group`. The downloads end in any order: `joined` is what
they have prepared, in the order in which they ended. -/
def processGroup {ι : Type} (P : Primitives) (side : PollSide ι) (key : Key) (sid : SessionId)
    (listing : List DriveFile) (joined : List PreparedBatch) (inbox : Inbox ι) : Option (Inbox ι) :=
  match inbox.window.nextExpected with
  | none => some inbox
  | some nextExpected =>
      let downloads := selectDownloads side.direction nextExpected false
        (sessionGroup side.direction sid listing)
      let prepared := downloads.filterMap fun e => prepareBatch P side key e.1 e.2
      if joined.isPerm prepared then
        some (deliverBatches side.toInbound inbox
          (joined.insertionSort fun a b => a.parsed.seq ≤ b.parsed.seq))
      else none

/-! ## What a cycle delivers -/

section Delivery

variable {ι : Type} {toInbound : WireFrame → Option ι} {log : List WireFrame} {inbox : Inbox ι}

/-- The mailbox has got the first frames of the sender's log, and the window counts them. -/
def Takes (toInbound : WireFrame → Option ι) (log : List WireFrame) (inbox : Inbox ι) : Prop :=
  ∃ n, inbox.window.Counts n ∧ n ≤ log.length ∧
    inbox.mailbox.map some = (log.take n).map toInbound

/-- The next frame of the log is delivered. -/
theorem Takes.next {n : Nat} (hn : inbox.window.Counts n)
    (hmail : inbox.mailbox.map some = (log.take n).map toInbound) {wire : WireFrame}
    (hwire : log[n]? = some wire) {inbound : ι} (hin : toInbound wire = some inbound)
    (sends : Option Nat) :
    Takes toInbound log ⟨inbox.window.commit n, inbox.mailbox ++ [inbound], sends⟩ := by
  obtain ⟨hlt, hget⟩ := List.getElem?_eq_some_iff.mp hwire
  refine ⟨n + 1, hn.commit, hlt, ?_⟩
  rw [List.map_append, hmail, List.take_succ_eq_append_getElem hlt, List.map_append, hget]
  simp [hin]

theorem deliverFrames_takes (sid : SessionId) (committed : Bool) {frames : List WireFrame}
    (h : Takes toInbound log inbox) (hframes : ∀ w ∈ frames, log[w.seq]? = some w) :
    Takes toInbound log (deliverFrames toInbound sid inbox committed frames).1 := by
  -- every way out of the loop leaves the inbox as it is; only the last branch goes on
  induction frames generalizing inbox committed with
  | nil => exact h
  | cons wire frames ih =>
      have hwire := hframes wire List.mem_cons_self
      obtain ⟨n, hn, hle, hmail⟩ := h
      rw [deliverFrames]
      by_cases hsid : wire.sid ≠ sid
      · rw [if_pos hsid]
        exact ⟨n, hn, hle, hmail⟩
      rw [if_neg hsid]
      split
      · exact ⟨n, hn, hle, hmail⟩
      · exact ⟨n, hn, hle, hmail⟩
      · rename_i hok
        split
        · exact ⟨n, hn, hle, hmail⟩
        · rename_i inbound hin
          by_cases hgone : inbox.sends = some 0
          · rw [if_pos hgone]
            exact ⟨n, hn, hle, hmail⟩
          · -- the window lets the next number through only
            have hseq := hn.eq_of_checkNext hok
            rw [if_neg hgone]
            rw [hseq] at hwire ⊢
            exact ih _ (Takes.next hn hmail hwire hin _)
              fun w hw => hframes w (List.mem_cons_of_mem _ hw)

theorem deliverBatches_takes {prepared : List PreparedBatch} (h : Takes toInbound log inbox)
    (hprepared : ∀ p ∈ prepared, ∀ w ∈ p.batch.frames, log[w.seq]? = some w) :
    Takes toInbound log (deliverBatches toInbound inbox prepared) := by
  induction prepared generalizing inbox with
  | nil => exact h
  | cons p prepared ih =>
      have hp := deliverFrames_takes p.parsed.sid false h (hprepared p List.mem_cons_self)
      rw [deliverBatches]
      split
      · rename_i hblocked
        rw [hblocked] at hp
        exact hp
      · rename_i hother
        rw [hother] at hp
        exact ih hp fun q hq => hprepared q (List.mem_cons_of_mem _ hq)

theorem deliverFrames_grows (toInbound : WireFrame → Option ι) (inbox : Inbox ι) (sid : SessionId)
    (frames : List WireFrame) (committed : Bool) :
    inbox.mailbox <+: (deliverFrames toInbound sid inbox committed frames).1.mailbox := by
  induction frames generalizing inbox committed with
  | nil => exact List.prefix_rfl
  | cons wire frames ih =>
      rw [deliverFrames]
      by_cases hsid : wire.sid ≠ sid
      · rw [if_pos hsid]
      rw [if_neg hsid]
      split
      · exact List.prefix_rfl
      · exact List.prefix_rfl
      · split
        · exact List.prefix_rfl
        · by_cases hgone : inbox.sends = some 0
          · rw [if_pos hgone]
          · rw [if_neg hgone]
            exact (List.prefix_append inbox.mailbox [_]).trans
              (ih ⟨_, inbox.mailbox ++ [_], _⟩ true)

theorem deliverBatches_grows (prepared : List PreparedBatch) :
    inbox.mailbox <+: (deliverBatches toInbound inbox prepared).mailbox := by
  induction prepared generalizing inbox with
  | nil => exact List.prefix_rfl
  | cons p prepared ih =>
      have hp := deliverFrames_grows toInbound inbox p.parsed.sid p.batch.frames false
      rw [deliverBatches]
      split
      · rename_i hblocked
        rw [hblocked] at hp
        exact hp
      · rename_i hother
        rw [hother] at hp
        exact hp.trans ih

end Delivery

/-- Nothing is taken back from a mailbox. -/
theorem processGroup_grows {ι : Type} {P : Primitives} {side : PollSide ι} {key : Key}
    {sid : SessionId} {listing : List DriveFile} {joined : List PreparedBatch}
    {inbox inbox' : Inbox ι}
    (hg : processGroup P side key sid listing joined inbox = some inbox') :
    inbox.mailbox <+: inbox'.mailbox := by
  unfold processGroup at hg
  split at hg
  · cases hg
    exact List.prefix_rfl
  · dsimp only at hg
    split_ifs at hg
    cases hg
    exact deliverBatches_grows _

theorem mem_of_mem_selectDownloads {direction : Direction} {nextExpected : Nat} {saw : Bool}
    {group : List (DriveFile × DriveFilename)} {e : DriveFile × DriveFilename}
    (h : e ∈ selectDownloads direction nextExpected saw group) : e ∈ group := by
  induction group generalizing saw with
  | nil => cases h
  | cons a group ih =>
      obtain ⟨file, parsed⟩ := a
      simp only [selectDownloads] at h
      split_ifs at h
      · exact List.mem_cons_of_mem _ (ih h)
      · exact List.mem_cons_of_mem _ (ih h)
      · rcases List.mem_cons.mp h with rfl | h
        · exact List.mem_cons_self
        · exact List.mem_cons_of_mem _ (ih h)
      · rcases List.mem_cons.mp h with rfl | h
        · exact List.mem_cons_self
        · exact List.mem_cons_of_mem _ (ih h)
      · cases h

/-- The bodies a cycle can open: the files of the session in the listing, below the unsealed
part. -/
def Opens {ι : Type} (P : Primitives) (side : PollSide ι) (key : Key) (sid : SessionId)
    (listing : List DriveFile) (seq : Nat) (plaintext : List UInt8) : Prop :=
  ∃ e ∈ sessionGroup side.direction sid listing, e.2.seq = seq ∧ ∃ body, e.1.body = some body ∧
    P.openSealed key sid seq (body.drop (side.unsealedPrefixLen seq)) = some plaintext

theorem sid_of_mem_sessionGroup {direction : Direction} {sid : SessionId} {listing : List DriveFile}
    {e : DriveFile × DriveFilename} (h : e ∈ sessionGroup direction sid listing) :
    e.2.sid = sid := by
  unfold sessionGroup at h
  rw [List.mem_insertionSort, List.mem_filter, decide_eq_true_eq] at h
  exact h.2.2

theorem prepareBatch_opens {ι : Type} {P : Primitives} {side : PollSide ι} {key : Key}
    {sid : SessionId} {listing : List DriveFile} {e : DriveFile × DriveFilename}
    (he : e ∈ sessionGroup side.direction sid listing) {p : PreparedBatch}
    (hp : prepareBatch P side key e.1 e.2 = some p) :
    ∃ plaintext, Opens P side key sid listing e.2.seq plaintext ∧
      Batch.decode plaintext = .ok p.batch := by
  have hsid := sid_of_mem_sessionGroup he
  -- a batch is prepared on one path only: size, download, open, decode, first number
  unfold prepareBatch at hp
  dsimp only at hp
  split_ifs at hp
  split at hp
  · cases hp
  · rename_i body hbody
    split_ifs at hp
    split at hp
    · cases hp
    · rename_i plaintext hopen
      split at hp
      · cases hp
      · rename_i batch hdec
        split at hp
        · cases hp
        · split_ifs at hp
          cases hp
          rw [hsid] at hopen
          exact ⟨plaintext, ⟨e, he, rfl, body, hbody, hopen⟩, hdec⟩

/-- **One cycle.** If what the cycle can open decodes to frames of the sender's log, the mailbox
goes on with the log. -/
theorem processGroup_takes {ι : Type} {P : Primitives} {side : PollSide ι} {key : Key}
    {sid : SessionId} {listing : List DriveFile} {joined : List PreparedBatch}
    {log : List WireFrame}
    {inbox inbox' : Inbox ι} (h : Takes side.toInbound log inbox)
    (hlog : ∀ seq plaintext batch, Opens P side key sid listing seq plaintext →
      Batch.decode plaintext = .ok batch → ∀ w ∈ batch.frames, log[w.seq]? = some w)
    (hg : processGroup P side key sid listing joined inbox = some inbox') :
    Takes side.toInbound log inbox' := by
  unfold processGroup at hg
  split at hg
  · cases hg
    exact h
  · dsimp only at hg
    split_ifs at hg with hperm
    cases hg
    refine deliverBatches_takes h fun p hp => ?_
    have hmem := (List.isPerm_iff.mp hperm).subset ((List.mem_insertionSort _).mp hp)
    obtain ⟨e, he, hpe⟩ := List.mem_filterMap.mp hmem
    obtain ⟨plaintext, hopens, hdec⟩ := prepareBatch_opens (mem_of_mem_selectDownloads he) hpe
    exact hlog e.2.seq plaintext p.batch hopens hdec

end Rahgozar.Drive
