import Rahgozar.Lib.Run
import Rahgozar.Tunnel.Uplink

set_option autoImplicit false

/-! # The client's session loop (`tunnel_loop` in `src/tunnel_client.rs`)

One TCP session on the client side. The loop keeps several `data` operations in flight, writes
the replies to the local socket in the order of their `seq`, and reads the local socket while
there is room for more operations. One turn of the loop decides what to wait for (`turn`), and
one event ends the wait: a reply, the refill timer, a read from the local socket, or the end of
the grace period after an end of stream.

What the loop reads from outside is part of the events: whether all servers are known to be
legacy (`all_servers_legacy`), and whether a slot for an elevated session is free.
-/

namespace Rahgozar.Tunnel

def inflightIdle : Nat := 1
def inflightOptimist : Nat := 3
def inflightActive : Nat := 6
def idleRefillDelayStartEmpty : Nat := 4
def fastPathSlack : Nat := 4

/-- Size of the buffer the local socket is read into. -/
def clientReadMax : Nat := 65536

def isIdleDepth (maxInflight : Nat) : Bool := maxInflight = inflightIdle

def shouldSuppressEmptyRefill (hasBufferedUpload clientClosed : Bool)
    (maxInflight consecutiveEmpty : Nat) (allServersLegacy : Bool) : Bool :=
  !hasBufferedUpload && !clientClosed && isIdleDepth maxInflight
    && decide (idleRefillDelayStartEmpty ≤ consecutiveEmpty) && allServersLegacy

/-- Metadata of an operation in flight. -/
structure InflightMeta where
  seq : Nat
  wasEmptyPoll : Bool
deriving DecidableEq

inductive ReplyOutcome where
  | ok (resp : TunnelResponse)
  | batchErr (msg : String)
  | timeout
  | dropped
deriving DecidableEq

inductive TunnelEnd where
  | remoteEof (bytesToBrowser : Nat)
  | needsClose
deriving DecidableEq

/-- Where the loop stands: at the head of a turn, in one of its three waits, or at its end
(`none` when a write to the local socket failed). -/
inductive LoopPhase where
  | top
  | grace
  | legacyRead
  | select
  | ended (result : Option TunnelEnd)
deriving DecidableEq

/-- The loop's variables. `writer` is the local socket, `consumed` what has been read from it and
`sent` the operations handed to the mux; the position of an operation in `sent` is its `seq`. -/
structure LoopState where
  sid : String
  maxInflight : Nat
  consecutiveEmpty : Nat
  consecutiveData : Nat
  isElevated : Bool
  totalDownloadBytes : Nat
  nextSendSeq : Nat
  nextWriteSeq : Nat
  nextDataWriteSeq : Nat
  eofSeen : Bool
  clientClosed : Bool
  pendingWrites : BTreeMap TunnelResponse
  supportsSeq : Bool
  bufferedUpload : Option (List UInt8)
  inflight : List InflightMeta
  inflightUploads : Nat
  refillArmed : Bool
  phase : LoopPhase
  writer : Writer
  consumed : List UInt8
  sent : List BatchOp

namespace LoopState

/-! ## Sending -/

/-- `send_empty_poll`, with its reply put in flight. -/
def pushPoll (s : LoopState) : LoopState :=
  { s with
    nextSendSeq := s.nextSendSeq + 1
    sent := s.sent ++ [sendEmptyPoll s.sid s.nextSendSeq]
    inflight := s.inflight ++ [⟨s.nextSendSeq, true⟩] }

/-- `send_data_op`, with its reply put in flight. -/
def pushUpload (s : LoopState) (data : List UInt8) : LoopState :=
  { s with
    nextSendSeq := s.nextSendSeq + 1
    nextDataWriteSeq := s.nextDataWriteSeq + 1
    sent := s.sent ++ [sendDataOp s.sid data s.nextSendSeq s.nextDataWriteSeq]
    inflight := s.inflight ++ [⟨s.nextSendSeq, false⟩]
    inflightUploads := s.inflightUploads + 1 }

/-- The state in which the loop is entered: the pending client data and one poll are on their
way, the refill timer owes the rest of the optimist depth. -/
def start (sid : String) (writer : Writer) (pendingClientData : Option (List UInt8)) :
    LoopState :=
  let s : LoopState :=
    ⟨sid, min inflightOptimist inflightActive, 0, 0, false, 0, 0, 0, 0, false, false, .empty,
      false, none, [], 0, false, .top, writer, [], []⟩
  let s :=
    match pendingClientData with
    | some (b :: data) => s.pushUpload (b :: data)
    | _ => s
  let s := if s.inflight.length < s.maxInflight then s.pushPoll else s
  { s with refillArmed := decide (s.inflight.length < s.maxInflight) }

/-- Leaving the loop. -/
def finish (s : LoopState) : LoopState :=
  { s with
    phase := .ended (some (if s.eofSeen then .remoteEof s.totalDownloadBytes else .needsClose)) }

/-! ## One turn -/

/-- The head of a turn: end the loop, or choose what to wait for. -/
def turn (s : LoopState) (allLegacy : Bool) : LoopState :=
  if s.inflight.isEmpty && s.eofSeen then s.finish
  else if s.inflight.isEmpty && s.clientClosed then s.finish
  else if s.eofSeen then { s with phase := .grace }
  else if s.inflight.isEmpty && !s.refillArmed then
    -- all servers answer polls at once: wait for client data instead of polling
    if allLegacy && decide (idleRefillDelayStartEmpty ≤ s.consecutiveEmpty) && !s.clientClosed then
      { s with phase := .legacyRead }
    else
      -- keepalive poll
      { s.pushPoll with phase := .select }
  else { s with phase := .select }

/-- May the local socket be read in this turn? -/
def canRead (s : LoopState) : Bool :=
  !s.clientClosed && !s.eofSeen &&
    decide (s.inflight.length < s.maxInflight + if s.supportsSeq then fastPathSlack else 0)

/-! ## Replies -/

inductive WriteOutcome where
  | wrote
  | noData
  | badBase64
deriving DecidableEq

/-- `write_tunnel_response`; no outcome when the write fails. -/
def writeTunnelResponse (writer : Writer) (resp : TunnelResponse) :
    Writer × Option WriteOutcome :=
  match resp.d with
  | none => (writer, some .noData)
  | some [] => (writer, some .noData)
  | some (c :: text) =>
      match Base64.decode (c :: text) with
      | none => (writer, some .badBase64)
      | some [] => (writer, some .noData)
      | some (b :: bytes) =>
          let (writer, ok) := writer.writeAll (b :: bytes)
          (writer, if ok then some .wrote else none)

/-- `d.len() * 3 / 4`, the estimate of the downloaded bytes. -/
def downloadBytes (resp : TunnelResponse) : Nat :=
  ((resp.d.getD []).map Char.utf8Size).sum * 3 / 4

/-- A response whose turn it is goes to the local socket. The loop is left when the write fails
or the text is not base64. -/
def deliver (s : LoopState) (resp : TunnelResponse) : LoopState × Bool :=
  let (writer, outcome) := writeTunnelResponse s.writer resp
  let s := { s with writer := writer }
  let eofSeen := s.eofSeen || resp.eof.getD false
  match outcome with
  | none => ({ s with phase := .ended none }, false)
  | some .badBase64 => (s.finish, false)
  | some .wrote =>
      ({ s with
          consecutiveEmpty := 0
          consecutiveData := s.consecutiveData + 1
          totalDownloadBytes := s.totalDownloadBytes + downloadBytes resp
          eofSeen := eofSeen }, true)
  | some .noData => ({ s with consecutiveEmpty := s.consecutiveEmpty + 1, eofSeen := eofSeen }, true)

/-- In the grace period a response is written without a look at the outcome. -/
def deliverGrace (s : LoopState) (resp : TunnelResponse) : LoopState × Bool :=
  ({ s with writer := (writeTunnelResponse s.writer resp).1 }, true)

/-- The buffered responses in sequence behind the one just written. -/
def flushPending (consume : LoopState → TunnelResponse → LoopState × Bool) (s : LoopState) :
    LoopState × Bool :=
  let r := InOrder.flush consume s (s.nextWriteSeq + 1) s.pendingWrites
  ({ r.state with nextWriteSeq := r.next, pendingWrites := r.pending }, r.ok)

/-- A response is written if its turn has come, followed by the buffered ones behind it, and is
buffered otherwise. The Boolean is false when the loop has been left. -/
def accept (consume : LoopState → TunnelResponse → LoopState × Bool) (s : LoopState) (seq : Nat)
    (resp : TunnelResponse) : LoopState × Bool :=
  if seq = s.nextWriteSeq then
    match consume s resp with
    | (s, false) => (s, false)
    | (s, true) => s.flushPending consume
  else ({ s with pendingWrites := s.pendingWrites.insert seq resp }, true)

/-- The reply to `m` leaves the set of operations in flight. -/
def takeReply (s : LoopState) (m : InflightMeta) : LoopState :=
  { s with
    inflight := s.inflight.erase m
    -- the subtraction saturates at zero, as in the source
    inflightUploads := if m.wasEmptyPoll then s.inflightUploads else s.inflightUploads - 1 }

/-- Buffered upload data goes out if a slot is free. -/
def sendBuffered (s : LoopState) : LoopState :=
  match s.bufferedUpload with
  | some data =>
      if s.inflight.length < s.maxInflight then
        { { s with bufferedUpload := none }.pushUpload data with
          consecutiveEmpty := 0, refillArmed := false }
      else s
  | none => s

/-- Adaptive pipeline depth after a reply that echoed its `seq`. -/
def adaptDepth (s : LoopState) (permit : Bool) : LoopState :=
  if 2 ≤ s.consecutiveEmpty && !isIdleDepth s.maxInflight then
    { s with maxInflight := min inflightIdle inflightActive, isElevated := false }
  else if 1 ≤ s.consecutiveData && s.maxInflight < inflightOptimist then
    { s with maxInflight := min inflightOptimist inflightActive }
  else if 2 ≤ s.consecutiveData && inflightOptimist ≤ s.maxInflight
      && s.maxInflight < inflightActive && 32 * 1024 ≤ s.totalDownloadBytes then
    if s.isElevated then { s with maxInflight := min (s.maxInflight + 1) inflightActive }
    else if permit then
      { s with isElevated := true, maxInflight := min (s.maxInflight + 1) inflightActive }
    else s
  else s

/-- The refill timer is armed if the pipeline needs more polls. -/
def scheduleRefill (s : LoopState) (allLegacy : Bool) : LoopState :=
  if !s.eofSeen && decide (s.inflight.length < s.maxInflight) && decide (s.inflightUploads = 0)
      && !s.refillArmed
      && !shouldSuppressEmptyRefill s.bufferedUpload.isSome s.clientClosed s.maxInflight
        s.consecutiveEmpty allLegacy then
    { s with refillArmed := true }
  else s

/-- The end of a turn with a reply: a freed slot is used, the depth adapts, the timer is set. -/
def afterReply (s : LoopState) (hasSeq allLegacy permit : Bool) : LoopState :=
  let s := s.sendBuffered
  let s := if hasSeq then s.adaptDepth permit else s
  { s.scheduleRefill allLegacy with phase := .top }

/-- A successful reply in the main wait. -/
def onReply (s : LoopState) (m : InflightMeta) (resp : TunnelResponse) (allLegacy permit : Bool) :
    LoopState :=
  let s := { s with
    -- a reply without `seq` comes from a legacy node and holds the loop at depth one
    supportsSeq := s.supportsSeq || resp.seq.isSome
    maxInflight := if resp.seq.isNone then 1 else s.maxInflight }
  if resp.e.isSome then s.finish
  else
    match accept deliver s m.seq resp with
    | (s, false) => s
    | (s, true) => s.afterReply resp.seq.isSome allLegacy permit

/-! ## The other events -/

/-- What the refill timer sends: buffered data, or a poll unless an upload is in flight, whose
reply can carry the download as well. -/
def refillSend (s : LoopState) : LoopState :=
  match s.bufferedUpload with
  | some data => { s with bufferedUpload := none }.pushUpload data
  | none => if 0 < s.inflightUploads then s else s.pushPoll

/-- The timer is set again while there are slots to fill. -/
def rearm (s : LoopState) : LoopState :=
  if decide (s.inflight.length < s.maxInflight) && !isIdleDepth s.maxInflight then
    { s with refillArmed := true }
  else s

/-- The refill timer fires. -/
def onRefill (s : LoopState) (allLegacy : Bool) : LoopState :=
  let s := { s with refillArmed := false, phase := .top }
  if !s.eofSeen && decide (s.inflight.length < s.maxInflight) then
    -- the suppressed timer is not set again: the next reply or read does it
    if shouldSuppressEmptyRefill s.bufferedUpload.isSome s.clientClosed s.maxInflight
        s.consecutiveEmpty allLegacy then s
    else s.refillSend.rearm
  else s

inductive ReadResult where
  | eof
  | data (bytes : List UInt8)
  | err
deriving DecidableEq

/-- A read from the local socket in the main wait. -/
def onRead (s : LoopState) : ReadResult → LoopState
  | .eof => { s with clientClosed := true, phase := .top }
  | .err => { s with clientClosed := true, phase := .top }
  | .data bytes =>
      let s : LoopState := { s with consumed := s.consumed ++ bytes, phase := .top }
      if s.inflight.length < s.maxInflight then
        { s.pushUpload bytes with consecutiveEmpty := 0, refillArmed := false }
      else if s.inflight.length < s.maxInflight + fastPathSlack then
        { s.pushUpload bytes with consecutiveEmpty := 0, refillArmed := false }
      -- not reached from `step`: `canRead` asks for a free slot
      else { s with bufferedUpload := some (s.bufferedUpload.getD [] ++ bytes) }

/-- A read while nothing is in flight and all servers are legacy. -/
def onLegacyRead (s : LoopState) : ReadResult → LoopState
  | .eof => s.finish
  | .err => s.finish
  | .data bytes =>
      { { s with consecutiveEmpty := 0, consumed := s.consumed ++ bytes }.pushUpload bytes with
        phase := .top }

/-- A reply in the grace period; anything but a response ends the loop. -/
def onGraceReply (s : LoopState) (m : InflightMeta) : ReplyOutcome → LoopState
  | .ok resp => { (accept deliverGrace (s.takeReply m) m.seq resp).1 with phase := .top }
  | _ => s.finish

inductive Event where
  | turn (allLegacy : Bool)
  | reply (m : InflightMeta) (outcome : ReplyOutcome) (allLegacy permit : Bool)
  | graceTimeout
  | refill (allLegacy : Bool)
  | read (r : ReadResult)
deriving DecidableEq

/-- A read returns between one byte and the size of the buffer. -/
def ReadResult.Fits : ReadResult → Prop
  | .data bytes => 0 < bytes.length ∧ bytes.length ≤ clientReadMax
  | _ => True

instance : (r : ReadResult) → Decidable r.Fits
  | .eof => isTrue trivial
  | .err => isTrue trivial
  | .data _ => inferInstanceAs (Decidable (_ ∧ _))

def step (s : LoopState) : Event → Option LoopState
  | .turn allLegacy => if s.phase = .top then some (s.turn allLegacy) else none
  | .reply m outcome allLegacy permit =>
      if m ∈ s.inflight then
        -- an answered operation is taken in either wait, in any order of arrival
        match s.phase with
        | .grace => some (s.onGraceReply m outcome)
        | .select =>
            match outcome with
            | .ok resp => some ((s.takeReply m).onReply m resp allLegacy permit)
            | _ => some (s.takeReply m).finish
        | _ => none
      else none
  | .graceTimeout => if s.phase = .grace then some s.finish else none
  | .refill allLegacy =>
      if s.phase = .select ∧ s.refillArmed = true then some (s.onRefill allLegacy) else none
  | .read r =>
      if r.Fits then
        match s.phase with
        | .select => if s.canRead then some (s.onRead r) else none
        | .legacyRead => some (s.onLegacyRead r)
        | _ => none
      else none

/-! ## What a response puts on the local socket -/

/-- The bytes a response carries. -/
def payload (resp : TunnelResponse) : List UInt8 := (resp.d.bind Base64.decode).getD []

theorem writeTunnelResponse_writer (w : Writer) (resp : TunnelResponse) :
    (writeTunnelResponse w resp).1 = (w.writeAll (payload resp)).1 := by
  unfold writeTunnelResponse payload
  rcases resp.d with _ | _ | ⟨c, text⟩
  · simp
  · simp [Base64.decode]
  · rcases hdec : Base64.decode (c :: text) with _ | _ | ⟨b, bytes⟩ <;> simp [hdec]

theorem length_le_sum_utf8Size (text : List Char) :
    text.length ≤ (text.map Char.utf8Size).sum := by
  induction text with
  | nil => simp
  | cons c text ih =>
      have := Char.utf8Size_pos c
      simp only [List.map_cons, List.sum_cons, List.length_cons]
      omega

/-- A response that carries bytes counts as a download. -/
theorem downloadBytes_pos {resp : TunnelResponse} (h : payload resp ≠ []) :
    0 < downloadBytes resp := by
  unfold payload at h
  unfold downloadBytes
  cases hd : resp.d with
  | none => simp [hd] at h
  | some text =>
      rw [hd, Option.bind_some] at h
      rcases hdec : Base64.decode text with _ | _ | ⟨b, bytes⟩
      · simp [hdec] at h
      · simp [hdec] at h
      · -- a text that decodes to bytes has at least four characters, so the estimate is at least
        -- three
        have hlen := Base64.four_le_of_decode hdec
        have hsum := length_le_sum_utf8Size text
        simp only [Option.getD_some]
        omega

/-- The outcome of a write: without bytes to write it does not depend on the socket. -/
theorem writeTunnelResponse_cases (w : Writer) (resp : TunnelResponse) :
    (payload resp = [] ∧ ((writeTunnelResponse w resp).2 = some .noData ∨
      (writeTunnelResponse w resp).2 = some .badBase64)) ∨
    (payload resp ≠ [] ∧ (writeTunnelResponse w resp).2
      = if (w.writeAll (payload resp)).2 then some .wrote else none) := by
  unfold writeTunnelResponse payload
  rcases resp.d with _ | _ | ⟨c, text⟩
  · simp
  · simp [Base64.decode]
  · rcases hdec : Base64.decode (c :: text) with _ | _ | ⟨b, bytes⟩ <;> simp [hdec]

/-- The bytes of the buffered responses that are in sequence from `next` on. -/
def flushedBytes (next : Nat) (pending : BTreeMap TunnelResponse) : List UInt8 :=
  (InOrder.flush (fun bytes resp => (bytes ++ payload resp, true)) [] next pending).state

/-- What a response accepted as number `seq` hands to the local socket. -/
def acceptedBytes (s : LoopState) (seq : Nat) (resp : TunnelResponse) : List UInt8 :=
  if seq = s.nextWriteSeq then
    payload resp ++ flushedBytes (s.nextWriteSeq + 1) s.pendingWrites
  else []

/-- In the grace period all of it is written. -/
theorem accept_deliverGrace_writer (s : LoopState) (seq : Nat) (resp : TunnelResponse) :
    (accept deliverGrace s seq resp).1.writer
      = (s.writer.writeAll (s.acceptedBytes seq resp)).1 := by
  unfold accept acceptedBytes
  split_ifs with hseq
  · -- both loops go through the same entries: the writer has taken what the other one collects
    have hrel := InOrder.flush_rel
      (R := fun (t : LoopState) (bytes : List UInt8) =>
        t.writer = (s.writer.writeAll (payload resp ++ bytes)).1)
      (f := deliverGrace) (g := fun bytes r => (bytes ++ payload r, true))
      (fun _ _ => rfl) (fun _ _ => rfl) ?_ (s := (deliverGrace s resp).1) (t := []) ?_
      (s.nextWriteSeq + 1) s.pendingWrites
    · exact hrel
    · intro t bytes r ht
      show (writeTunnelResponse t.writer r).1 = _
      rw [writeTunnelResponse_writer, ht, Writer.writeAll_append, List.append_assoc]
    · show (writeTunnelResponse s.writer resp).1 = _
      rw [writeTunnelResponse_writer, List.append_nil]
  · simp

/-! ## Frame of the bookkeeping

Sending, the choice of a wait, the pipeline depth and the refill timer leave alone what has
been read from and written to the local socket and what is still to be written. -/

/-- The part of the state that reads and replies change. -/
structure Downlink where
  writer : Writer
  consumed : List UInt8
  totalDownloadBytes : Nat
  nextWriteSeq : Nat
  pendingWrites : BTreeMap TunnelResponse
  eofSeen : Bool

def down (s : LoopState) : Downlink :=
  ⟨s.writer, s.consumed, s.totalDownloadBytes, s.nextWriteSeq, s.pendingWrites, s.eofSeen⟩

theorem start_down (sid : String) (w : Writer) (pending : Option (List UInt8)) :
    (start sid w pending).down = ⟨w, [], 0, 0, .empty, false⟩ := by
  unfold start
  rcases pending with _ | _ | ⟨b, data⟩ <;> rfl

theorem start_phase (sid : String) (w : Writer) (pending : Option (List UInt8)) :
    (start sid w pending).phase = .top := by
  unfold start
  rcases pending with _ | _ | ⟨b, data⟩ <;> rfl

theorem turn_down (s : LoopState) (allLegacy : Bool) : (s.turn allLegacy).down = s.down := by
  unfold turn
  split_ifs <;> rfl

theorem sendBuffered_down (s : LoopState) : s.sendBuffered.down = s.down := by
  unfold sendBuffered
  split
  · split_ifs <;> rfl
  · rfl

theorem adaptDepth_down (s : LoopState) (permit : Bool) : (s.adaptDepth permit).down = s.down := by
  unfold adaptDepth
  split_ifs <;> rfl

theorem scheduleRefill_down (s : LoopState) (allLegacy : Bool) :
    (s.scheduleRefill allLegacy).down = s.down := by
  unfold scheduleRefill
  split_ifs <;> rfl

theorem refillSend_down (s : LoopState) : s.refillSend.down = s.down := by
  unfold refillSend
  split
  · rfl
  · split_ifs <;> rfl

theorem rearm_down (s : LoopState) : s.rearm.down = s.down := by
  unfold rearm
  split_ifs <;> rfl

theorem onRefill_down (s : LoopState) (allLegacy : Bool) :
    (s.onRefill allLegacy).down = s.down := by
  unfold onRefill
  dsimp only
  split_ifs
  · rfl
  · rw [rearm_down, refillSend_down]
    rfl
  · rfl

/-- The data a read brings. -/
def ReadResult.bytes : ReadResult → List UInt8
  | .data bytes => bytes
  | _ => []

theorem onRead_down (s : LoopState) (r : ReadResult) :
    (s.onRead r).down = { s.down with consumed := s.consumed ++ r.bytes } := by
  cases r with
  | eof => simp [onRead, down, ReadResult.bytes]
  | err => simp [onRead, down, ReadResult.bytes]
  | data bytes =>
      unfold onRead
      dsimp only
      split_ifs <;> rfl

theorem onLegacyRead_down (s : LoopState) (r : ReadResult) :
    (s.onLegacyRead r).down = { s.down with consumed := s.consumed ++ r.bytes } := by
  cases r with
  | eof => simp [onLegacyRead, down, finish, ReadResult.bytes]
  | err => simp [onLegacyRead, down, finish, ReadResult.bytes]
  | data bytes => rfl

theorem afterReply_down (s : LoopState) (hasSeq allLegacy permit : Bool) :
    (s.afterReply hasSeq allLegacy permit).down = s.down := by
  unfold afterReply
  cases hasSeq with
  | false => exact (scheduleRefill_down _ _).trans (sendBuffered_down s)
  | true =>
      exact (scheduleRefill_down _ _).trans ((adaptDepth_down _ _).trans (sendBuffered_down s))

/-- The state in which `accept` finds the response in the main wait. -/
def beforeAccept (s : LoopState) (m : InflightMeta) (resp : TunnelResponse) : LoopState :=
  { s.takeReply m with
    supportsSeq := s.supportsSeq || resp.seq.isSome
    maxInflight := if resp.seq.isNone then 1 else s.maxInflight }

/-- A successful reply in the main wait either reports an error, which ends the loop, or is
accepted; what follows is bookkeeping. -/
theorem onReply_outcome (s : LoopState) (m : InflightMeta) (resp : TunnelResponse)
    (allLegacy permit : Bool) :
    let t := (s.takeReply m).onReply m resp allLegacy permit
    let a := accept deliver (s.beforeAccept m resp) m.seq resp
    (resp.e.isSome = true ∧ t = (s.beforeAccept m resp).finish) ∨
    (resp.e.isSome = false ∧ a.2 = false ∧ t = a.1) ∨
    (resp.e.isSome = false ∧ a.2 = true ∧
      t = a.1.afterReply resp.seq.isSome allLegacy permit) := by
  intro t a
  -- `beforeAccept` is the state behind the two updates at the head of `onReply`
  have ht : t = if resp.e.isSome then (s.beforeAccept m resp).finish
      else match a with
        | (s, false) => s
        | (s, true) => s.afterReply resp.seq.isSome allLegacy permit := rfl
  by_cases he : resp.e.isSome = true
  · rw [ht, if_pos he]
    exact .inl ⟨he, rfl⟩
  · rw [ht, if_neg he]
    rcases a with ⟨u, _ | _⟩
    · exact .inr (.inl ⟨by simpa using he, rfl, rfl⟩)
    · exact .inr (.inr ⟨by simpa using he, rfl, rfl⟩)

theorem onReply_cases (s : LoopState) (m : InflightMeta) (resp : TunnelResponse)
    (allLegacy permit : Bool) :
    let t := (s.takeReply m).onReply m resp allLegacy permit
    let a := accept deliver (s.beforeAccept m resp) m.seq resp
    (resp.e.isSome = true ∧ t = (s.beforeAccept m resp).finish) ∨
    (resp.e.isSome = false ∧ a.2 = false ∧ t = a.1) ∨
    (resp.e.isSome = false ∧ a.2 = true ∧ t.down = a.1.down ∧ t.phase = .top) := by
  intro t a
  refine (onReply_outcome s m resp allLegacy permit).imp_right (Or.imp_right ?_)
  rintro ⟨he, hok, ht⟩
  refine ⟨he, hok, ?_, ?_⟩
  · exact (congrArg down ht).trans (afterReply_down a.1 _ allLegacy permit)
  · exact congrArg LoopState.phase ht

/-- A response whose turn it is: it is written and counted, or it is not base64, or the local
socket fails. -/
theorem deliver_cases (s : LoopState) (resp : TunnelResponse) :
    ((deliver s resp).2 = true ∧ (s.writer.writeAll (payload resp)).2 = true ∧
      (deliver s resp).1.down = { s.down with
        writer := (s.writer.writeAll (payload resp)).1
        totalDownloadBytes := s.totalDownloadBytes +
          if payload resp = [] then 0 else downloadBytes resp
        eofSeen := s.eofSeen || resp.eof.getD false }) ∨
    ((deliver s resp).2 = false ∧ payload resp = [] ∧ (deliver s resp).1 = s.finish) ∨
    ((deliver s resp).2 = false ∧ (deliver s resp).1.phase = .ended none ∧
      (deliver s resp).1.down = { s.down with
        writer := (s.writer.writeAll (payload resp)).1 }) := by
  have hw := writeTunnelResponse_writer s.writer resp
  unfold deliver
  rcases writeTunnelResponse_cases s.writer resp with ⟨hp, ho | ho⟩ | ⟨hp, ho⟩
  · left
    simp [ho, hp, down, hw]
  · right; left
    have hs : (writeTunnelResponse s.writer resp).1 = s.writer := by rw [hw, hp]; simp
    simp [ho, hs, hp]
  · -- there are bytes to write: the outcome is the socket's
    split_ifs at ho with hok
    · left
      simp [ho, hok, hw, hp, down]
    · right; right
      simp [ho, hw, down]

theorem flushPending_rule {consume : LoopState → TunnelResponse → LoopState × Bool}
    {P : LoopState → Nat → BTreeMap TunnelResponse → Prop} {s : LoopState}
    (h0 : P s (s.nextWriteSeq + 1) s.pendingWrites)
    (hstep : ∀ u n m v, P u n m → m.firstEntry = some (n, v) → (consume u v).2 = true →
      P (consume u v).1 (n + 1) m.popFirst) :
    (∃ u n m, P u n m ∧ (∀ v, m.firstEntry ≠ some (n, v)) ∧
      s.flushPending consume = ({ u with nextWriteSeq := n, pendingWrites := m }, true)) ∨
    ∃ u n m v, P u n m ∧ m.firstEntry = some (n, v) ∧ (consume u v).2 = false ∧
      s.flushPending consume
        = ({ (consume u v).1 with nextWriteSeq := n, pendingWrites := m.popFirst }, false) := by
  unfold flushPending
  dsimp only
  rcases InOrder.flush_rule hstep h0 with ⟨hok, hPr, hstop⟩ | ⟨v, n, m, r, hPv, hf, hno, hr⟩
  · exact .inl ⟨_, _, _, hPr, hstop, by rw [hok]⟩
  · exact .inr ⟨v, n, m, r, hPv, hf, hno, by rw [hr]⟩

/-- **Rule for `accept`.** The response waits; or it is consumed and the buffered ones behind it
are, up to a gap; or one of them makes the loop end. -/
theorem accept_rule {consume : LoopState → TunnelResponse → LoopState × Bool}
    {P : LoopState → Nat → BTreeMap TunnelResponse → Prop} (s : LoopState) (seq : Nat)
    (resp : TunnelResponse)
    (h0 : seq = s.nextWriteSeq → (consume s resp).2 = true →
      P (consume s resp).1 ((consume s resp).1.nextWriteSeq + 1) (consume s resp).1.pendingWrites)
    (hstep : ∀ u n m v, P u n m → m.firstEntry = some (n, v) → (consume u v).2 = true →
      P (consume u v).1 (n + 1) m.popFirst) :
    let a := accept consume s seq resp
    (seq ≠ s.nextWriteSeq ∧ a = ({ s with pendingWrites := s.pendingWrites.insert seq resp }, true)) ∨
    (seq = s.nextWriteSeq ∧ (consume s resp).2 = false ∧ a = ((consume s resp).1, false)) ∨
    (seq = s.nextWriteSeq ∧ ∃ u n m, P u n m ∧ (∀ v, m.firstEntry ≠ some (n, v)) ∧
      a = ({ u with nextWriteSeq := n, pendingWrites := m }, true)) ∨
    (seq = s.nextWriteSeq ∧ ∃ u n m v, P u n m ∧ m.firstEntry = some (n, v) ∧
      (consume u v).2 = false ∧
      a = ({ (consume u v).1 with nextWriteSeq := n, pendingWrites := m.popFirst }, false)) := by
  unfold accept
  dsimp only
  split_ifs with hseq
  · right
    rcases hc : consume s resp with ⟨u, _ | _⟩
    · exact .inl ⟨hseq, rfl, rfl⟩
    · right
      -- `h0` speaks of `consume s resp`, the flush starts from its first component
      have hP : P u (u.nextWriteSeq + 1) u.pendingWrites := by
        have h := h0 hseq (by rw [hc])
        rwa [hc] at h
      exact (flushPending_rule hP hstep).imp (fun h => ⟨hseq, h⟩) fun h => ⟨hseq, h⟩
  · exact .inl ⟨hseq, rfl⟩

/-- What neither `consume` nor the counters of the reorder buffer touch, `accept` leaves alone. -/
theorem accept_frame {α : Type} (part : LoopState → α)
    {consume : LoopState → TunnelResponse → LoopState × Bool}
    (hcounters : ∀ u n m, part { u with nextWriteSeq := n, pendingWrites := m } = part u)
    (hconsume : ∀ u v, part (consume u v).1 = part u) (s : LoopState) (seq : Nat)
    (resp : TunnelResponse) : part (accept consume s seq resp).1 = part s := by
  rcases @accept_rule consume (fun u _ _ => part u = part s) s seq resp
      (fun _ _ => hconsume s resp) (fun u _ _ v hu _ _ => (hconsume u v).trans hu) with
    ⟨-, ha⟩ | ⟨-, -, ha⟩ | ⟨-, u, n, m, hu, -, ha⟩ | ⟨-, u, n, m, v, hu, -, -, ha⟩
  · rw [ha]
    exact hcounters s _ _
  · rw [ha]
    exact hconsume s resp
  · rw [ha]
    exact (hcounters u n m).trans hu
  · rw [ha]
    exact (hcounters _ n _).trans ((hconsume u v).trans hu)

/-! ## What a step can do to the local socket -/

/-- If the loop has ended, it ended by `finish`. -/
def EndsRight (t : LoopState) : Prop :=
  ∀ r, t.phase = .ended r →
    r = some (if t.eofSeen then .remoteEof t.totalDownloadBytes else .needsClose)

theorem finish_endsRight (s : LoopState) : s.finish.EndsRight := by
  intro r hr
  cases hr
  rfl

theorem endsRight_of_running {t : LoopState} (h : ∀ r, t.phase ≠ .ended r) : t.EndsRight :=
  fun r hr => absurd hr (h r)

/-- Events that bring neither data from the client nor a response. -/
def Event.passive : Event → Bool
  | .read _ => false
  | .reply _ (.ok _) _ _ => false
  | _ => true

/-- The state in which `accept` finds the response, in either wait. -/
def accepted (s : LoopState) (m : InflightMeta) (resp : TunnelResponse) : LoopState × Bool :=
  accept deliver (s.beforeAccept m resp) m.seq resp

def acceptedGrace (s : LoopState) (m : InflightMeta) (resp : TunnelResponse) : LoopState :=
  (accept deliverGrace (s.takeReply m) m.seq resp).1

/-- The cases of a step. -/
inductive StepCase (s : LoopState) : Event → LoopState → Prop where
  | turn {l} (hphase : s.phase = .top) : StepCase s (.turn l) (s.turn l)
  | graceTimeout (hphase : s.phase = .grace) : StepCase s .graceTimeout s.finish
  | refill {l} (hphase : s.phase = .select) : StepCase s (.refill l) (s.onRefill l)
  | read {r} (hphase : s.phase = .select) (hfits : r.Fits) (hcan : s.canRead = true) :
      StepCase s (.read r) (s.onRead r)
  | legacyRead {r} (hphase : s.phase = .legacyRead) (hfits : r.Fits) :
      StepCase s (.read r) (s.onLegacyRead r)
  | grace {m resp l p} (hphase : s.phase = .grace) (hm : m ∈ s.inflight) :
      StepCase s (.reply m (.ok resp) l p) { s.acceptedGrace m resp with phase := .top }
  | reply {m resp l p} (hphase : s.phase = .select) (hm : m ∈ s.inflight) :
      StepCase s (.reply m (.ok resp) l p) ((s.takeReply m).onReply m resp l p)
  | lost {m outcome l p u} (hlost : (Event.reply m outcome l p).passive = true)
      (hm : m ∈ s.inflight) (hu : u = s ∨ u = s.takeReply m) :
      StepCase s (.reply m outcome l p) u.finish

/-- **Inversion of a step.** -/
theorem step_cases {s t : LoopState} {e : Event} (h : step s e = some t) : StepCase s e t := by
  cases e with
  | turn allLegacy =>
      simp only [step] at h
      split_ifs at h with hp
      cases h
      exact .turn hp
  | graceTimeout =>
      simp only [step] at h
      split_ifs at h with hp
      cases h
      exact .graceTimeout hp
  | refill allLegacy =>
      simp only [step] at h
      split_ifs at h with hp
      cases h
      exact .refill hp.1
  | read r =>
      -- the size of the read is checked before the phase
      cases hp : s.phase <;> simp [step, hp] at h
      · obtain ⟨hfits, rfl⟩ := h
        exact .legacyRead hp hfits
      · obtain ⟨hfits, hcan, rfl⟩ := h
        exact .read hp hfits hcan
  | reply m outcome allLegacy permit =>
      simp only [step] at h
      split_ifs at h with hm
      cases hp : s.phase with
      | grace =>
          simp only [hp] at h
          cases h
          cases outcome with
          | ok resp => exact .grace hp hm
          | _ => exact .lost rfl hm (.inl rfl)
      | select =>
          simp only [hp] at h
          cases outcome with
          | ok resp =>
              cases h
              exact .reply hp hm
          | _ =>
              cases h
              exact .lost rfl hm (.inr rfl)
      | _ => simp [hp] at h

/-- The ways in which a step from `s` to `t` treats the local socket. -/
inductive Effect (s t : LoopState) : Event → Prop where
  | passive {e} (he : e.passive = true) (hdown : t.down = s.down) (hend : t.EndsRight) : Effect s t e
  | read {r} (hfits : r.Fits) (hdown : t.down = { s.down with consumed := s.consumed ++ r.bytes })
      (hend : t.EndsRight) : Effect s t (.read r)
  | refused {m resp l p} (hphase : s.phase = .select) (herr : resp.e.isSome = true)
      (hdown : t.down = s.down) (hend : t.EndsRight) (hended : ∃ r, t.phase = .ended r) :
      Effect s t (.reply m (.ok resp) l p)
  | accepted {m resp l p} (hphase : s.phase = .select) (herr : resp.e.isSome = false)
      (hok : (s.accepted m resp).2 = true) (hdown : t.down = (s.accepted m resp).1.down)
      (htop : t.phase = .top) : Effect s t (.reply m (.ok resp) l p)
  | left {m resp l p} (hphase : s.phase = .select) (herr : resp.e.isSome = false)
      (hok : (s.accepted m resp).2 = false) (ht : t = (s.accepted m resp).1) :
      Effect s t (.reply m (.ok resp) l p)
  | grace {m resp l p} (hphase : s.phase = .grace)
      (hdown : t.down = (s.acceptedGrace m resp).down) (htop : t.phase = .top) :
      Effect s t (.reply m (.ok resp) l p)

theorem turn_endsRight (s : LoopState) (allLegacy : Bool) : (s.turn allLegacy).EndsRight := by
  unfold turn
  split_ifs
  · exact finish_endsRight s
  · exact finish_endsRight s
  all_goals exact endsRight_of_running nofun

theorem onRefill_phase (s : LoopState) (allLegacy : Bool) :
    (s.onRefill allLegacy).phase = .top := by
  unfold onRefill rearm refillSend
  dsimp only
  split_ifs <;> first | rfl | (split <;> rfl)

theorem onRead_phase (s : LoopState) (r : ReadResult) : (s.onRead r).phase = .top := by
  unfold onRead
  cases r with
  | eof => rfl
  | err => rfl
  | data bytes =>
      dsimp only
      split_ifs <;> rfl

theorem onLegacyRead_endsRight (s : LoopState) (r : ReadResult) :
    (s.onLegacyRead r).EndsRight := by
  cases r with
  | eof => exact finish_endsRight s
  | err => exact finish_endsRight s
  | data bytes => exact endsRight_of_running nofun

/-- A loop that has ended makes no step. -/
theorem step_running {s t : LoopState} {e : Event} (h : step s e = some t) (r : Option TunnelEnd) :
    s.phase ≠ .ended r := by
  intro hp
  cases e <;> simp [step, hp] at h

/-- **A step and the local socket.** -/
theorem step_effect {s t : LoopState} {e : Event} (h : step s e = some t) : Effect s t e := by
  cases step_cases h with
  | turn => exact .passive rfl (turn_down s _) (turn_endsRight s _)
  | graceTimeout => exact .passive rfl rfl (finish_endsRight s)
  | refill =>
      refine .passive rfl (onRefill_down s _) (endsRight_of_running fun r hr => ?_)
      rw [onRefill_phase] at hr
      cases hr
  | read _ hfits =>
      refine .read hfits (onRead_down s _) (endsRight_of_running fun q hq => ?_)
      rw [onRead_phase] at hq
      cases hq
  | legacyRead _ hfits =>
      exact .read hfits (onLegacyRead_down s _) (onLegacyRead_endsRight s _)
  | grace hphase => exact .grace hphase rfl rfl
  | @reply m resp l p hphase =>
      rcases onReply_cases s m resp l p with ⟨he, ht⟩ | ⟨he, hok, ht⟩ | ⟨he, hok, hd, ht⟩
      · refine .refused hphase he (by rw [ht]; rfl) ?_ ⟨_, by rw [ht]; rfl⟩
        rw [ht]
        exact finish_endsRight _
      · exact .left hphase he hok ht
      · exact .accepted hphase he hok hd ht
  | lost hlost _ hu =>
      refine .passive hlost ?_ (finish_endsRight _)
      rcases hu with rfl | rfl <;> rfl

/-- A response that makes the loop end has ended it. -/
theorem deliver_left_phase {s : LoopState} {resp : TunnelResponse}
    (hno : (deliver s resp).2 = false) : ∃ r, (deliver s resp).1.phase = .ended r := by
  rcases deliver_cases s resp with ⟨hok, -⟩ | ⟨-, -, hf⟩ | ⟨-, hph, -⟩
  · rw [hno] at hok
    cases hok
  · exact ⟨_, by rw [hf]; rfl⟩
  · exact ⟨none, hph⟩

theorem accepted_left_phase {s : LoopState} {m : InflightMeta} {resp : TunnelResponse}
    (hno : (s.accepted m resp).2 = false) : ∃ r, (s.accepted m resp).1.phase = .ended r := by
  unfold accepted at hno ⊢
  rcases accept_rule (P := fun _ _ _ => True) (s.beforeAccept m resp) m.seq resp
      (fun _ _ => trivial) (fun _ _ _ _ _ _ (_ : (deliver _ _).2 = true) => trivial) with
    ⟨-, ha⟩ | ⟨-, hd, ha⟩ | ⟨-, v, n, p, -, -, ha⟩ | ⟨-, v, n, p, r, -, -, hd, ha⟩
  · rw [ha] at hno
    cases hno
  · rw [ha]
    exact deliver_left_phase hd
  · rw [ha] at hno
    cases hno
  · rw [ha]
    exact deliver_left_phase hd

/-- The grace period is entered only after an end of stream. -/
theorem step_grace {s t : LoopState} {e : Event} (h : step s e = some t) (ht : t.phase = .grace) :
    t.eofSeen = true := by
  cases step_cases h with
  | turn =>
      -- only the head of a turn enters the grace period, in its branch for `eof_seen`
      unfold turn at ht ⊢
      split_ifs at ht ⊢ <;> first | assumption | cases ht
  | graceTimeout => cases ht
  | refill =>
      rw [onRefill_phase] at ht
      cases ht
  | read =>
      rw [onRead_phase] at ht
      cases ht
  | @legacyRead r => cases r <;> cases ht
  | grace => cases ht
  | @reply m resp l p =>
      rcases onReply_cases s m resp l p with ⟨-, hf⟩ | ⟨-, hno, hl⟩ | ⟨-, -, -, htop⟩
      · rw [hf] at ht
        cases ht
      · obtain ⟨r, hr⟩ := accepted_left_phase hno
        rw [hl] at ht
        cases ht.symm.trans hr
      · rw [htop] at ht
        cases ht
  | lost => cases ht

end LoopState

end Rahgozar.Tunnel
