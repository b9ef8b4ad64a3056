import Rahgozar.Drive.Crypto
import Rahgozar.Drive.Filename

set_option autoImplicit false

/-! # The two ends of a Drive session

`pump_session` of the client (`src/drive_client.rs`) and `session_driver` of the relay
(`drive-relay/src/session.rs`). Each reads a socket, numbers what it reads, and seals it in batches;
each takes from its mailbox what the poll worker has opened and writes it to the socket. The
coalescing timer is armed or not; when it fires is up to the run.
-/

namespace Rahgozar.Drive

def localSocketReadBuffer : Nat := 16 * 1024
def batchMaxFrames : Nat := 200
def batchFlushBytes : Nat := 1024 * 1024
def maxHeaderBytes : Nat := 64 * 1024

def utf8 (text : List Char) : List UInt8 := text.flatMap String.utf8EncodeChar

/-! ## Mailboxes -/

/-- What the relay's driver takes from its mailbox. -/
inductive RelayInbound where
  | connect (host : List Char) (port : Nat)
  | data (bytes : List UInt8)
  | eof
  | close
deriving DecidableEq

/-- What the client's pump takes from its mailbox. -/
inductive ClientInbound where
  | data (bytes : List UInt8)
  | eof
  | close
deriving DecidableEq

/-- `char::is_whitespace` -/
def isWhitespace (c : Char) : Bool :=
  let n := c.toNat
  (9 ≤ n && n ≤ 13) || n = 32 || n = 0x85 || n = 0xa0 || n = 0x1680 || (0x2000 ≤ n && n ≤ 0x200a) ||
    n = 0x2028 || n = 0x2029 || n = 0x202f || n = 0x205f || n = 0x3000

def trim (text : List Char) : List Char :=
  ((text.dropWhile isWhitespace).reverse.dropWhile isWhitespace).reverse

/-- The text before and after the first occurrence of `sep`. -/
def splitOnce (sep : List Char) : List Char → Option (List Char × List Char)
  | [] => if sep.isEmpty then some ([], []) else none
  | x :: rest =>
      if sep.isPrefixOf (x :: rest) then some ([], (x :: rest).drop sep.length)
      else (splitOnce sep rest).map fun (before, after) => (x :: before, after)

def parseConnectAddr (text : List Char) : Option (List Char × Nat) :=
  let text := trim text
  if text.isEmpty then none
  else
    let halves :=
      match stripPrefix ['['] text with
      | some rest => splitOnce [']', ':'] rest
      | none => rsplitOnce ':' text
    match halves with
    | none => none
    | some (host, portStr) =>
        if host.isEmpty then none
        else
          match parseUnsigned (2 ^ 16) portStr with
          | none => none
          | some port => if port = 0 then none else some (host, port)

/-- Relay: a frame for the driver; an error in the `Connect` payload or a `Hello` makes none. -/
def frameToInbound (f : WireFrame) : Option RelayInbound :=
  match f.kind with
  | .connect => do
      let text ← String.fromUTF8? ⟨f.payload.toArray⟩
      let (host, port) ← parseConnectAddr text.toList
      some (.connect host port)
  | .data => some (.data f.payload)
  | .eof => some .eof
  | .close => some .close
  | .error => some .close
  | .hello => none

/-- Client: the same without `Connect`. -/
def wireToInbound (f : WireFrame) : Option ClientInbound :=
  match f.kind with
  | .data => some (.data f.payload)
  | .eof => some .eof
  | .close => some .close
  | .error => some .close
  | .hello => none
  | .connect => none

/-! ## The sending half -/

/-- The bytes of one read of a socket. -/
abbrev Chunk := { bytes : List UInt8 // 0 < bytes.length ∧ bytes.length ≤ localSocketReadBuffer }

/-- What a peer sends with. `pushed` is every frame it has pushed, in order, `reads` the payloads it
has read from its socket, and `sealed` its calls of `seal`. `eager` is the relay's
`eager_response_burst`. -/
structure Sender where
  key : Key
  sid : SessionId
  nextSeq : Nat
  pending : List WireFrame
  pendingBytes : Nat
  flushArmed : Bool
  eager : Bool
  pushed : List WireFrame
  reads : List (List UInt8)
  sealed : List SealCall

namespace Sender

def buildWireFrame (kind : FrameKind) (sid : SessionId) (seq : Nat) (payload : List UInt8) :
    WireFrame :=
  ⟨wireVersion, kind, sid, seq, payload⟩

/-- `seal_batch`: the nonce is that of the first frame. -/
def sealBatch (s : Sender) (batch : Batch) : Sender :=
  { s with sealed := s.sealed ++
      [⟨s.key, s.sid, (batch.frames.head?.map WireFrame.seq).getD 0, batch.encode⟩] }

def flushC2rBatch (s : Sender) : Sender :=
  if s.pending.isEmpty then s
  else { s.sealBatch ⟨s.pending⟩ with pending := [], pendingBytes := 0, flushArmed := false }

def flushR2cBatch (s : Sender) : Sender :=
  if s.pending.isEmpty then s
  else { s.sealBatch ⟨s.pending⟩ with
    pending := [], pendingBytes := 0, flushArmed := false, eager := false }

/-- The frame with the next number is put behind the pending ones. -/
def append (s : Sender) (kind : FrameKind) (payload : List UInt8) : Sender :=
  let frame := buildWireFrame kind s.sid s.nextSeq payload
  { s with
    nextSeq := s.nextSeq + 1
    pending := s.pending ++ [frame]
    pendingBytes := s.pendingBytes + payload.length
    pushed := s.pushed ++ [frame] }

def pushC2rFrame (s : Sender) (kind : FrameKind) (payload : List UInt8) (flushNow : Bool) :
    Sender :=
  let s := s.append kind payload
  let shouldFlush := flushNow || decide (2 ≤ s.pending.length)
    || decide (batchMaxFrames ≤ s.pending.length) || decide (batchFlushBytes ≤ s.pendingBytes)
  if shouldFlush then s.flushC2rBatch else { s with flushArmed := true }

/-- The second frame flushes only at the start of a response. -/
def pushR2cFrame (s : Sender) (kind : FrameKind) (payload : List UInt8) (flushNow : Bool) :
    Sender :=
  let s := s.append kind payload
  let shouldFlush := flushNow || (decide (2 ≤ s.pending.length) && s.eager)
    || decide (batchMaxFrames ≤ s.pending.length) || decide (batchFlushBytes ≤ s.pendingBytes)
  if shouldFlush then s.flushR2cBatch else { s with flushArmed := true }

/-- What a read of the socket brought. -/
def noteRead (s : Sender) (bytes : List UInt8) : Sender := { s with reads := s.reads ++ [bytes] }

end Sender

/-- What a read of a socket returns. -/
inductive SocketRead where
  | eof
  | data (chunk : Chunk)
  | err

/-! ## The client -/

inductive PumpEnd where
  | ok
  | err
deriving DecidableEq

/-- `pump_session`. `written` are the payloads handed to the local socket, `received` what has been
taken from the mailbox. -/
structure Client where
  out : Sender
  localWritable : Bool
  localReadClosed : Bool
  returned : Option PumpEnd
  written : List (List UInt8)
  received : List ClientInbound

/-- The pieces of at most `n` bytes. -/
def chunks (n : Nat) (bytes : List UInt8) : List (List UInt8) := go bytes.length bytes
where
  go : Nat → List UInt8 → List (List UInt8)
    | 0, _ => []
    | _ + 1, [] => []
    | fuel + 1, b :: bytes => (b :: bytes).take n :: go fuel ((b :: bytes).drop n)

/-- What a session is opened with: the destination, the bytes the proxy has consumed, and, if there
are none, the read of the preface. A host comes out of a request head, and a buffer has at most
`isize::MAX` bytes. -/
structure Opening where
  host : { host : List Char // (utf8 host).length ≤ maxHeaderBytes }
  port : UInt16
  initialClientBytes : { bytes : List UInt8 // bytes.length < 2 ^ 63 }
  preface : Option Chunk

/-- The payloads behind `Connect` in the first batch. -/
def Opening.payloads (o : Opening) : List (List UInt8) :=
  if o.initialClientBytes.val.isEmpty then o.preface.toList.map Subtype.val
  else chunks localSocketReadBuffer o.initialClientBytes.val

/-- `build_session_open_batch` -/
def Opening.frames (o : Opening) (sid : SessionId) : List WireFrame :=
  Sender.buildWireFrame .connect sid 0
      (utf8 (o.host.val ++ ':' :: Nat.toDigits 10 o.port.toNat)) ::
    o.payloads.mapIdx fun i bytes => Sender.buildWireFrame .data sid (i + 1) bytes

namespace Client

/-- The session-open upload is sealed and the pump is entered. -/
def start (key : Key) (sid : SessionId) (o : Opening) : Client :=
  let frames := o.frames sid
  let out : Sender := ⟨key, sid, frames.length, [], 0, false, false, frames, o.payloads, []⟩
  ⟨out.sealBatch ⟨frames⟩, true, false, none, [], []⟩

/-- A message from the mailbox, or its end; `writeOk` is the result of `write_all`. -/
def onInbound (c : Client) (frame : Option ClientInbound) (writeOk : Bool) : Client :=
  let c := { c with received := c.received ++ frame.toList }
  match frame with
  | some (.data bytes) =>
      if !c.localWritable then c
      else
        let c := { c with written := c.written ++ [bytes] }
        if writeOk then c
        else { c with out := c.out.pushC2rFrame .close [] true, returned := some .err }
  | some .eof =>
      let c := { c with localWritable := false }
      if c.localReadClosed then
        { c with out := c.out.pushC2rFrame .close [] true, returned := some .ok }
      else c
  | some .close => { c with out := c.out.flushC2rBatch, returned := some .ok }
  -- the mux has dropped the session
  | none => { c with out := c.out.flushC2rBatch, returned := some .ok }

def onTimer (c : Client) : Client := { c with out := c.out.flushC2rBatch }

def onRead (c : Client) : SocketRead → Client
  | .eof =>
      let c := { c with out := c.out.pushC2rFrame .eof [] true, localReadClosed := true }
      if !c.localWritable then
        { c with out := c.out.pushC2rFrame .close [] true, returned := some .ok }
      else c
  | .data chunk =>
      { c with out := (c.out.noteRead chunk.val).pushC2rFrame .data chunk.val false }
  | .err => { c with out := c.out.pushC2rFrame .close [] true, returned := some .err }

inductive Event where
  | recv (writeOk : Bool)
  | mailboxClosed
  | timer
  | read (r : SocketRead)

/-- One turn of the loop; `mailbox` is everything the poll worker has sent. The counter is a `u64`,
and a run ends before it does. -/
def step (mailbox : List ClientInbound) (c : Client) (e : Event) : Option Client :=
  if c.returned ≠ none ∨ u64Size ≤ c.out.nextSeq + 1 then none
  else
    match e with
    | .recv writeOk => (mailbox[c.received.length]?).map fun m => c.onInbound (some m) writeOk
    | .mailboxClosed =>
        if c.received.length = mailbox.length then some (c.onInbound none true) else none
    | .timer => if c.out.flushArmed then some c.onTimer else none
    | .read r => if c.localReadClosed then none else some (c.onRead r)

end Client

/-! ## The relay -/

inductive DriverPhase where
  | awaitConnect
  | dialing
  | pump
  | returned
deriving DecidableEq

/-- `session_driver`. -/
structure Driver where
  out : Sender
  phase : DriverPhase
  peerWritable : Bool
  tcpReadClosed : Bool
  written : List (List UInt8)
  received : List RelayInbound

/-- The text of an error report. -/
abbrev Reason := { bytes : List UInt8 // bytes.length ≤ maxPayload }

/-- What comes of the dial: a connection, a refusal with its text, or the semaphore is closed. -/
inductive DialOutcome where
  | connected
  | failed (reason : Reason)
  | shuttingDown

namespace Driver

def spawn (key : Key) (sid : SessionId) : Driver :=
  ⟨⟨key, sid, 0, [], 0, false, true, [], [], []⟩, .awaitConnect, true, false, [], []⟩

/-- `upload_error_frame`, behind which the driver returns. -/
def uploadErrorFrame (d : Driver) (reason : List UInt8) : Driver :=
  let frame := Sender.buildWireFrame .error d.out.sid d.out.nextSeq reason
  { d with
    out := { d.out.sealBatch ⟨[frame]⟩ with pushed := d.out.pushed ++ [frame] }
    phase := .returned }

/-- The first message must be `Connect`, to a destination that is allowed. -/
def onConnect (destinationAllowed : List Char → Bool) (d : Driver) (frame : Option RelayInbound) :
    Driver :=
  match frame with
  | some (.connect host _) =>
      if destinationAllowed host then { d with phase := .dialing }
      else d.uploadErrorFrame (utf8 "destination not on allow list".toList)
  | _ => { d with phase := .returned }

def onDial (d : Driver) : DialOutcome → Driver
  | .connected => { d with phase := .pump }
  | .failed reason => d.uploadErrorFrame reason.val
  -- the semaphore of dial permits has been closed
  | .shuttingDown => d.uploadErrorFrame (utf8 "relay shutting down".toList)

/-- A message from the mailbox, or its end, in the pump. -/
def onPumpInbound (d : Driver) (frame : Option RelayInbound) (writeOk : Bool) : Driver :=
  match frame with
  | some (.connect _ _) => d
  | some (.data bytes) =>
      if !d.peerWritable then d
      else
        let d := { d with written := d.written ++ [bytes] }
        if writeOk then { d with out := { d.out.flushR2cBatch with eager := true } }
        else { d with out := d.out.flushR2cBatch, phase := .returned }
  | some .eof =>
      let d := { d with peerWritable := false }
      if d.tcpReadClosed then
        { d with out := d.out.pushR2cFrame .close [] true, phase := .returned }
      else d
  | some .close => { d with out := d.out.flushR2cBatch, phase := .returned }
  | none => { d with out := d.out.flushR2cBatch, phase := .returned }

def onInbound (destinationAllowed : List Char → Bool) (d : Driver) (frame : Option RelayInbound)
    (writeOk : Bool) : Driver :=
  let d := { d with received := d.received ++ frame.toList }
  match d.phase with
  | .awaitConnect => d.onConnect destinationAllowed frame
  | _ => d.onPumpInbound frame writeOk

def onTimer (d : Driver) : Driver := { d with out := d.out.flushR2cBatch }

def onRead (d : Driver) : SocketRead → Driver
  | .eof =>
      let d := { d with out := d.out.pushR2cFrame .eof [] true, tcpReadClosed := true }
      if !d.peerWritable then
        { d with out := d.out.pushR2cFrame .close [] true, phase := .returned }
      else d
  | .data chunk => { d with out := (d.out.noteRead chunk.val).pushR2cFrame .data chunk.val false }
  | .err => { d with out := d.out.flushR2cBatch, phase := .returned }

inductive Event where
  | recv (writeOk : Bool)
  | mailboxClosed
  | dial (outcome : DialOutcome)
  | timer
  | read (r : SocketRead)

/-- One step of the driver, which waits for a message before the dial and in the pump. -/
def step (destinationAllowed : List Char → Bool) (mailbox : List RelayInbound) (d : Driver)
    (e : Event) : Option Driver :=
  if d.phase = .returned ∨ u64Size ≤ d.out.nextSeq + 1 then none
  else
    match e with
    | .recv writeOk =>
        if d.phase = .dialing then none
        else (mailbox[d.received.length]?).map fun m =>
          d.onInbound destinationAllowed (some m) writeOk
    | .mailboxClosed =>
        if d.phase = .dialing ∨ d.received.length ≠ mailbox.length then none
        else some (d.onInbound destinationAllowed none true)
    | .dial outcome => if d.phase = .dialing then some (d.onDial outcome) else none
    | .timer => if d.phase = .pump ∧ d.out.flushArmed then some d.onTimer else none
    | .read r => if d.phase = .pump ∧ d.tcpReadClosed = false then some (d.onRead r) else none

end Driver

end Rahgozar.Drive
