import Rahgozar.Tunnel.System

set_option autoImplicit false

/-! # One batch at the node (`handle_batch` in `tunnel-node/src/main.rs`)

Phase 1 goes through the operations: some are answered at once, those that open a connection are
spawned as tasks, polls and uploads go on to phase 2. The tasks are joined in the order in which
they finish. Phase 2 drains the TCP sessions against a budget for the whole response, then the UDP
sessions. Answers are collected with the number of their operation and sorted by it in the end.

The handler shares its state with everything else on the node. What other tasks do to it between
two accesses of the handler, what the network does, which task finishes first and when the drain
deadline passes are inputs (`Outside`); what the reader of a session brings while the batch drains
it is part of the session (`TcpSession.arriving`).
-/

namespace Rahgozar.Tunnel

def batchResponseBudget : Nat := 32 * 1024 * 1024

/-! ## Answers -/

def TunnelResponse.unsupportedOp (op : String) : TunnelResponse :=
  ⟨none, none, none, none, some ("unknown op: " ++ op), some "UNSUPPORTED_OP", none⟩

def udpDrainResponse (sid : String) (packets : List (List UInt8)) (eof : Bool)
    (seq : Option Nat) : TunnelResponse :=
  ⟨some sid, none, if packets.isEmpty then none else some (packets.map Base64.encode), some eof,
    none, none, seq⟩

/-- What `handle_connect` answers for a new session. -/
def connectedResponse (sid : String) : TunnelResponse :=
  ⟨some sid, none, none, some false, none, none, none⟩

/-! ## The shared state -/

/-- `sent` is what went out on the socket. -/
structure UdpSessionInner where
  packets : List (List UInt8)
  eof : Bool
  sent : List (List UInt8)

/-- What `reader_task` does between two looks at the buffer: an append, and the end of the stream
behind it if `ended`. -/
structure Arrival where
  bytes : List UInt8
  ended : Bool

/-- A TCP session as a batch drains it: what it holds, and what arrives before each `drain_now` of
the batch. -/
structure TcpSession where
  inner : SessionInner
  arriving : List Arrival

/-- The tables name sessions by number: a session is a shared object, which the handler keeps
hold of when its sid is taken out of the table. -/
structure AppState where
  sessions : String → Option Nat
  udpSessions : String → Option Nat
  tcp : Nat → TcpSession
  udp : Nat → UdpSessionInner

/-- A history of the handler's accesses: which session it had for an operation, and what it took
out of which session for it. -/
inductive Access where
  | named (i : Nat) (sid : String) (inner : Nat)
  | namedUdp (i : Nat) (sid : String) (inner : Nat)
  | took (i inner : Nat) (data : List UInt8)
  | tookPackets (i inner : Nat) (packets : List (List UInt8))

/-- An entry of `tcp_drains` or `udp_drains`. -/
structure Drain where
  i : Nat
  sid : String
  inner : Nat
  seq : Option Nat

/-- The handler's variables. -/
structure Batch where
  state : AppState
  awaits : Nat
  results : List (Nat × TunnelResponse)
  tcpDrains : List Drain
  udpDrains : List Drain
  jobs : List (Nat × BatchOp)
  log : List Access

structure Outside where
  /-- what other tasks do to the shared state before the handler's `n`-th access to it -/
  others : Nat → AppState → AppState
  /-- the connection operation `i` opens: an error, or a session under a new sid -/
  dial : Nat → Except String (String × Nat)
  /-- the text of the error when the first write of operation `i` fails -/
  writeError : Nat → String
  /-- the error of the first datagram of operation `i`, if it fails -/
  sendError : Nat → Option String
  /-- the text of a base64 error -/
  decodeError : List Char → String
  panics : Nat → Bool
  /-- which of the tasks left finishes next -/
  finishing : List Nat
  /-- has the drain deadline passed after turn `n` of the drain for operation `i`? -/
  late : Nat → Nat → Bool

namespace Batch

def start (state : AppState) : Batch := ⟨state, 0, [], [], [], [], []⟩

def push (b : Batch) (i : Nat) (r : TunnelResponse) : Batch :=
  { b with results := b.results ++ [(i, r)] }

def note (b : Batch) (a : Access) : Batch := { b with log := b.log ++ [a] }

variable (out : Outside)

/-- The other tasks' turn. -/
def await (b : Batch) : Batch :=
  { b with state := out.others b.awaits b.state, awaits := b.awaits + 1 }

def setTcp (b : Batch) (inner : Nat) (s : TcpSession) : Batch :=
  { b with state := { b.state with tcp := Function.update b.state.tcp inner s } }

def setUdp (b : Batch) (inner : Nat) (s : UdpSessionInner) : Batch :=
  { b with state := { b.state with udp := Function.update b.state.udp inner s } }

def setSession (b : Batch) (sid : String) (inner : Option Nat) : Batch :=
  { b with state := { b.state with sessions := Function.update b.state.sessions sid inner } }

def setUdpSession (b : Batch) (sid : String) (inner : Option Nat) : Batch :=
  { b with
    state := { b.state with udpSessions := Function.update b.state.udpSessions sid inner } }

/-! ## Phase 1 -/

/-- A sid that is there and not empty. -/
def sidOf (op : BatchOp) : Option String :=
  match op.sid with
  | some sid => if sid.isEmpty then none else some sid
  | none => none

/-- The bytes an operation carries, or the text that does not decode. -/
def payloadOf (op : BatchOp) : Except (List Char) (List UInt8) :=
  match op.d with
  | none => .ok []
  | some text =>
      match Base64.decode text with
      | some bytes => .ok bytes
      | none => .error text

def badBase64 (text : List Char) : TunnelResponse :=
  .error ("bad base64: " ++ out.decodeError text)

def dispatchData (b : Batch) (i : Nat) (op : BatchOp) : Batch :=
  match sidOf op with
  | none => b.push i (.error "missing sid")
  | some sid =>
      let b := b.await out
      match b.state.sessions sid with
      | none => b.push i (eofResponse sid op.seq)
      | some inner =>
          let b := (b.note (.named i sid inner)).await out
          let s := b.state.tcp inner
          let (written, result) := dataOp s.inner op
          let b := b.setTcp inner { s with inner := written }
          match result with
          | .drain => { b with tcpDrains := b.tcpDrains ++ [⟨i, sid, inner, op.seq⟩] }
          | .badBase64 => b.push i (badBase64 out (op.d.getD []))
          -- the session is closed, so that its reader ends and its place is free
          | .capExceeded => (b.push i (.error "wseq buffer cap exceeded")).setSession sid none

def dispatchUdpData (b : Batch) (i : Nat) (op : BatchOp) : Batch :=
  match sidOf op with
  | none => b.push i (.error "missing sid")
  | some sid =>
      let b := b.await out
      match b.state.udpSessions sid with
      | none => b.push i (eofResponse sid op.seq)
      | some inner =>
          let b := b.note (.namedUdp i sid inner)
          match payloadOf op with
          | .error text => b.push i (badBase64 out text)
          | .ok bytes =>
              let s := b.state.udp inner
              let sent := if bytes.isEmpty then s.sent else s.sent ++ [bytes]
              let b := b.setUdp inner { s with sent := sent }
              { b with udpDrains := b.udpDrains ++ [⟨i, sid, inner, op.seq⟩] }

def handleClose (b : Batch) (op : BatchOp) : Batch × TunnelResponse :=
  match sidOf op with
  | none => (b, .error "missing sid")
  | some sid =>
      (((b.await out).setSession sid none).setUdpSession sid none,
        ⟨some sid, none, none, some true, none, none, none⟩)

def opensConnection (op : BatchOp) : Bool :=
  op.op = "connect" || op.op = "connect_data" || op.op = "udp_open"

/-- One operation in phase 1. -/
def dispatch (b : Batch) (i : Nat) (op : BatchOp) : Batch :=
  if opensConnection op then { b with jobs := b.jobs ++ [(i, op)] }
  else if op.op = "data" then b.dispatchData out i op
  else if op.op = "udp_data" then b.dispatchUdpData out i op
  else if op.op = "close" then (b.handleClose out op).1.push i (b.handleClose out op).2
  else b.push i (.unsupportedOp op.op)

/-- The operations from number `i` on. -/
def dispatchAll (b : Batch) : Nat → List BatchOp → Batch
  | _, [] => b
  | i, op :: ops => (b.dispatch out i op).dispatchAll (i + 1) ops

/-! ## The tasks -/

/-- A host and a port that can be dialled. -/
def validateHostPort (op : BatchOp) : Except TunnelResponse (String × UInt16) :=
  match op.host with
  | none => .error (.error "missing host")
  | some host =>
      if host.isEmpty then .error (.error "missing host")
      else
        match op.port with
        | none => .error (.error "missing or invalid port")
        | some port =>
            if port = 0 then .error (.error "missing or invalid port") else .ok (host, port)

/-- The answer of a task: an end result, or a session that phase 2 drains. -/
inductive NewConn where
  | answer (r : TunnelResponse)
  | tcp (sid : String) (inner : Nat)
  | udp (sid : String) (inner : Nat)

/-- A new TCP session enters the table. -/
def enter (b : Batch) (i : Nat) (sid : String) (inner : Nat) : Batch :=
  (b.setSession sid (some inner)).note (.named i sid inner)

def enterUdp (b : Batch) (i : Nat) (sid : String) (inner : Nat) : Batch :=
  (b.setUdpSession sid (some inner)).note (.namedUdp i sid inner)

def handleConnect (b : Batch) (i : Nat) (op : BatchOp) : Batch × NewConn :=
  match validateHostPort op with
  | .error r => (b, .answer r)
  | .ok _ =>
      match out.dial i with
      | .error e => (b, .answer (.error ("connect failed: " ++ e)))
      | .ok (sid, inner) => (b.enter i sid inner, .answer (connectedResponse sid))

/-- `connect_data`; a session whose first write fails never enters the table. -/
def handleConnectDataPhase1 (b : Batch) (i : Nat) (op : BatchOp) : Batch × NewConn :=
  match validateHostPort op with
  | .error r => (b, .answer r)
  | .ok _ =>
      match out.dial i with
      | .error e => (b, .answer (.error ("connect failed: " ++ e)))
      | .ok (sid, inner) =>
          match payloadOf op with
          | .error text => (b, .answer (badBase64 out text))
          | .ok bytes =>
              let s := b.state.tcp inner
              let (writer, ok) := s.inner.writer.writeAll bytes
              if ok then
                ((b.setTcp inner { s with inner := { s.inner with writer := writer } }).enter
                  i sid inner, .tcp sid inner)
              else (b, .answer (.error ("write failed: " ++ out.writeError i)))

def handleUdpOpenPhase1 (b : Batch) (i : Nat) (op : BatchOp) : Batch × NewConn :=
  match validateHostPort op with
  | .error r => (b, .answer r)
  | .ok _ =>
      match out.dial i with
      | .error e => (b, .answer (.error ("udp connect failed: " ++ e)))
      | .ok (sid, inner) =>
          match payloadOf op with
          | .error text => (b, .answer (badBase64 out text))
          | .ok bytes =>
              match out.sendError i with
              | some e =>
                  if bytes.isEmpty then (b.enterUdp i sid inner, .udp sid inner)
                  else (b, .answer (.error ("udp write failed: " ++ e)))
              | none =>
                  let s := b.state.udp inner
                  let sent := if bytes.isEmpty then s.sent else s.sent ++ [bytes]
                  ((b.setUdp inner { s with sent := sent }).enterUdp i sid inner, .udp sid inner)

def runJob (b : Batch) (i : Nat) (op : BatchOp) : Batch × NewConn :=
  if op.op = "connect" then b.handleConnect out i op
  else if op.op = "connect_data" then b.handleConnectDataPhase1 out i op
  else b.handleUdpOpenPhase1 out i op

/-- `join_next`: a finished task's answer, or a panic, which is only logged. -/
def join (b : Batch) (job : Nat × BatchOp) : Batch :=
  if out.panics job.1 then b
  else
    match (b.await out).runJob out job.1 job.2 with
    | (b, .answer r) => b.push job.1 r
    | (b, .tcp sid inner) => { b with tcpDrains := b.tcpDrains ++ [⟨job.1, sid, inner, none⟩] }
    | (b, .udp sid inner) => { b with udpDrains := b.udpDrains ++ [⟨job.1, sid, inner, none⟩] }

/-- The tasks in the order in which they finish. -/
def completionOrder {α : Type} : List Nat → List α → List α
  | [], jobs => jobs
  | _ :: _, [] => []
  | k :: picks, job :: jobs =>
      let at_ := k % (job :: jobs).length
      (job :: jobs).getD at_ job :: completionOrder picks ((job :: jobs).eraseIdx at_)

def joinAll (b : Batch) : Batch :=
  (completionOrder out.finishing b.jobs).foldl (join out) { b with jobs := [] }

end Batch

/-! ## Phase 2 -/

/-- The reader's next turn. -/
def TcpSession.arrive (s : TcpSession) : TcpSession :=
  match s.arriving with
  | [] => s
  | a :: arriving =>
      ⟨{ s.inner with readBuf := s.inner.readBuf ++ a.bytes, eof := s.inner.eof || a.ended },
        arriving⟩

/-- `drain_now` on a session. -/
def TcpSession.drain (s : TcpSession) (maxBytes : Nat) : TcpSession × List UInt8 × Bool :=
  let (data, eof, rest) := drainNow s.inner.readBuf s.inner.eof maxBytes
  (⟨{ s.inner with readBuf := rest }, s.arriving⟩, data, eof)

theorem drainNow_shorter {readBuf : List UInt8} {rawEof : Bool} {maxBytes : Nat}
    (h : (drainNow readBuf rawEof maxBytes).1.isEmpty = false) :
    (drainNow readBuf rawEof maxBytes).2.2.length < readBuf.length := by
  simp only [drainNow] at h ⊢
  split_ifs at h ⊢ with hle
  · exact List.length_pos_of_ne_nil fun hnil => by simp [hnil] at h
  · have hpos : 0 < (readBuf.take (min maxBytes tcpDrainMaxBytes)).length :=
      List.length_pos_of_ne_nil fun hnil => by simp [hnil] at h
    simp only [List.length_take, List.length_drop] at hpos ⊢
    omega

/-- A drain that finds something uses up an arrival, or bytes of the buffer when none is left. -/
theorem TcpSession.drain_decreases {s : TcpSession} {maxBytes : Nat}
    (h : (s.arrive.drain maxBytes).2.1.isEmpty = false) :
    Prod.Lex (· < ·) (· < ·)
      ((s.arrive.drain maxBytes).1.arriving.length,
        (s.arrive.drain maxBytes).1.inner.readBuf.length)
      (s.arriving.length, s.inner.readBuf.length) := by
  cases harr : s.arriving with
  | nil =>
      have hs : s.arrive = s := by rw [TcpSession.arrive, harr]
      rw [hs] at h ⊢
      simp only [TcpSession.drain, harr]
      exact Prod.Lex.right _ (drainNow_shorter h)
  | cons a arriving =>
      apply Prod.Lex.left
      simp [TcpSession.drain, TcpSession.arrive, harr]

/-- The drain loop of one session. It goes round again while data keeps coming and neither a cap,
the end of the stream nor the deadline is there. -/
def drainLoop (late : Nat → Bool) (remaining turn : Nat) (s : TcpSession) (all : List UInt8) :
    TcpSession × List UInt8 × Bool :=
  let turned := s.arrive.drain (remaining - all.length)
  if h : turned.2.1.isEmpty then (turned.1, all, turned.2.2)
  else if turned.2.2 || decide (tcpDrainMaxBytes ≤ turned.2.1.length)
      || decide (remaining ≤ (all ++ turned.2.1).length) || late turn then
    (turned.1, all ++ turned.2.1, turned.2.2)
  else drainLoop late remaining (turn + 1) turned.1 (all ++ turned.2.1)
termination_by (s.arriving.length, s.inner.readBuf.length)
decreasing_by exact TcpSession.drain_decreases (Bool.eq_false_iff.mpr h)

namespace Batch

variable (out : Outside)

/-- One entry of `tcp_drains`, with the budget that is left and the sessions found at their end.
With nothing left the answer is empty, and the session keeps its bytes for the next poll. -/
def drainTcp (acc : Batch × Nat × List String) (d : Drain) : Batch × Nat × List String :=
  let (b, remaining, eofSids) := acc
  if remaining = 0 then (b.push d.i (tcpDrainResponse d.sid [] false d.seq), 0, eofSids)
  else
    let b := b.await out
    let (s, data, eof) := drainLoop (out.late d.i) remaining 0 (b.state.tcp d.inner) []
    (((b.setTcp d.inner s).note (.took d.i d.inner data)).push d.i
        (tcpDrainResponse d.sid data eof d.seq),
      remaining - data.length, if eof then eofSids ++ [d.sid] else eofSids)

/-- One entry of `udp_drains`: the whole queue. -/
def drainUdp (acc : Batch × List String) (d : Drain) : Batch × List String :=
  let (b, eofSids) := acc
  let b := b.await out
  let s := b.state.udp d.inner
  (((b.setUdp d.inner { s with packets := [] }).note (.tookPackets d.i d.inner s.packets)).push d.i
      (udpDrainResponse d.sid s.packets s.eof d.seq),
    if s.eof then eofSids ++ [d.sid] else eofSids)

/-- The TCP drains and the removal of the sessions at their end. -/
def drainAllTcp (b : Batch) : Batch :=
  let (b, _, eofSids) := b.tcpDrains.foldl (drainTcp out) (b, batchResponseBudget, [])
  eofSids.foldl (fun b sid => b.setSession sid none) b

def drainAllUdp (b : Batch) : Batch :=
  let (b, eofSids) := b.udpDrains.foldl (drainUdp out) (b, [])
  eofSids.foldl (fun b sid => b.setUdpSession sid none) b

/-- Both phases; the waits before the drains are turns of the other tasks. -/
def execute (state : AppState) (ops : List BatchOp) : Batch :=
  ((((start state).dispatchAll out 0 ops).joinAll out).drainAllTcp out).drainAllUdp out

/-- `results.sort_by_key(|(i, _)| *i)`, without the numbers. -/
def responses (b : Batch) : List TunnelResponse :=
  (b.results.mergeSort fun x y => decide (x.1 ≤ y.1)).map Prod.snd

end Batch

/-- What becomes of a decoded batch: it is executed; or it is a duplicate of a replay-safe batch
and gets the answers of the request that executed the same operations, on the node as it was
then; or that request is cancelled before it has answers, and the whole batch gets one error. The
registry's key is a hash of all the fields of all the operations. -/
inductive Claimed where
  | execute
  | replayed (owner : Outside) (ownerState : AppState)
  | ownerCancelled

/-- The execution a batch is answered from. -/
def Claimed.execution (out : Outside) (state : AppState) : Claimed → Option (Outside × AppState)
  | execute => some (out, state)
  | replayed owner ownerState => some (owner, ownerState)
  | ownerCancelled => none

/-- `handle_batch` behind the decoding of the request: its response list. -/
def handleBatch (out : Outside) (claimed : Claimed) (state : AppState) (ops : List BatchOp) :
    List TunnelResponse :=
  match claimed.execution out state with
  | some (out, state) => (Batch.execute out state ops).responses
  | none => [.error "replay owner cancelled"]

end Rahgozar.Tunnel
