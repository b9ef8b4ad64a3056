import Rahgozar.Tunnel.Loop

set_option autoImplicit false

/-! # One session, client and node

The client's loop and the node's side of one TCP session run together. Every `data` operation the
loop sends travels on its own: it reaches the node some time, is processed by phase 1 of
`handle_batch`, is drained by phase 2 in as many turns as the drain loop takes, and its answer
reaches the client some time. Drain turns of several operations interleave, and so do the reader
task's appends and the end of the upstream connection.

Operations are numbered by their `seq`, which is their position in the client's `sent`.
-/

namespace Rahgozar.Tunnel

def tcpDrainMaxBytes : Nat := 16 * 1024 * 1024
def readBufCap : Nat := 16 * 1024 * 1024
def readerBufSize : Nat := 256 * 1024

/-! ## The node's answers -/

def tcpDrainResponse (sid : String) (data : List UInt8) (eof : Bool) (seq : Option Nat) :
    TunnelResponse :=
  ⟨some sid, if data.isEmpty then none else some (Base64.encode data), none, some eof, none, none,
    seq⟩

def eofResponse (sid : String) (seq : Option Nat) : TunnelResponse :=
  ⟨some sid, none, none, some true, none, none, seq⟩

/-- `drain_now` behind its load of `eof`: the data, the end of stream to report, and what stays
in the buffer. -/
def drainNow (readBuf : List UInt8) (rawEof : Bool) (maxBytes : Nat) :
    List UInt8 × Bool × List UInt8 :=
  let cap := min maxBytes tcpDrainMaxBytes
  if readBuf.length ≤ cap then (readBuf, rawEof, [])
  else (readBuf.take cap, false, readBuf.drop cap)

/-! ## The state -/

/-- An operation on its way. In the drain loop it has the batch's remaining budget, the data so
far and, between the two halves of `drain_now`, the value of `eof` it has loaded. -/
inductive OpState where
  | sent
  | queued
  | draining (remaining : Nat) (data : List UInt8) (rawEof : Option Bool)
  | drained (resp : TunnelResponse)
  | answered (resp : TunnelResponse)
  | delivered (resp : TunnelResponse)
deriving DecidableEq

/-- The answer the client has got. -/
def OpState.received : OpState → Option TunnelResponse
  | delivered resp => some resp
  | _ => none

/-- Reading position `j` of an updated list. -/
theorem getElem?_set_cases {ops : List OpState} {q j : Nat} {o' b : OpState}
    (h : (ops.set q o')[j]? = some b) : (j = q ∧ b = o') ∨ (j ≠ q ∧ ops[j]? = some b) := by
  rw [List.getElem?_set] at h
  split_ifs at h with hq hlt
  · exact .inl ⟨hq.symm, (Option.some.inj h).symm⟩
  · exact .inr ⟨Ne.symm hq, h⟩

/-- `present` says that the session is in the node's table. The drain loops hold the session
itself, so they go on when it is not. -/
structure System where
  client : LoopState
  inner : SessionInner
  present : Bool
  ops : List OpState
  appended : List UInt8

namespace System

/-- The bytes of a read of the local socket, of at most the size of its buffer. -/
abbrev Preread := { bytes : List UInt8 // bytes.length ≤ clientReadMax }

/-- Operations that were sent since the last step are on their way. -/
def noteSent (ops : List OpState) (client : LoopState) : List OpState :=
  ops ++ List.replicate (client.sent.length - ops.length) .sent

/-- The loop is entered on a new session. -/
def init (sid : String) (localRoom upstreamRoom : Option Nat) (pending : Option Preread) :
    System :=
  let client := LoopState.start sid ⟨[], localRoom⟩ (pending.map Subtype.val)
  ⟨client, SessionInner.new upstreamRoom, true, noteSent [] client, []⟩

inductive Event where
  /-- anything the loop does but a response -/
  | client (e : LoopState.Event)
  /-- an answer reaches the client -/
  | deliver (seq : Nat) (allLegacy permit : Bool)
  /-- the reader task appends -/
  | append (bytes : List UInt8)
  | upstreamEnd
  /-- phase 1 of the batch that carries the operation -/
  | arrive (seq : Nat)
  /-- phase 2 comes to the operation with this much of the batch's budget left -/
  | startDrain (seq : Nat) (remaining : Nat)
  /-- the two halves of `drain_now`; `late` is the batch-wide deadline -/
  | loadEof (seq : Nat)
  | take (seq : Nat) (late : Bool)
  /-- the batch is over and its response is sent -/
  | respond (seq : Nat)

def isResponse : LoopState.Event → Bool
  | .reply _ (.ok _) _ _ => true
  | _ => false

def clientStep (s : System) (e : LoopState.Event) : Option System :=
  if isResponse e then none
  else (s.client.step e).map fun c => { s with client := c, ops := noteSent s.ops c }

def deliver (s : System) (seq : Nat) (allLegacy permit : Bool) : Option System :=
  match s.ops[seq]?, s.client.inflight.find? (fun m => m.seq = seq) with
  | some (.answered resp), some m =>
      (s.client.step (.reply m (.ok resp) allLegacy permit)).map fun c =>
        { s with client := c, ops := noteSent (s.ops.set seq (.delivered resp)) c }
  | _, _ => none

/-- Phase 1 for operation `seq`. -/
def arrive (s : System) (seq : Nat) : Option System :=
  match s.ops[seq]?, s.client.sent[seq]? with
  | some .sent, some op =>
      if s.present then
        match dataOp s.inner op with
        | (inner, .drain) => some { s with inner := inner, ops := s.ops.set seq .queued }
        | (inner, .badBase64) =>
            some { s with inner := inner, ops := s.ops.set seq (.drained (.error "bad base64")) }
        -- the session is closed and taken out of the table
        | (inner, .capExceeded) =>
            some { s with
              inner := inner
              present := false
              ops := s.ops.set seq (.drained (.error "wseq buffer cap exceeded")) }
      else
        some { s with ops := s.ops.set seq (.drained (eofResponse s.client.sid op.seq)) }
  | _, _ => none

def startDrain (s : System) (seq remaining : Nat) : Option System :=
  match s.ops[seq]? with
  | some .queued =>
      -- the batch's budget is spent: answered without a look at the buffer
      if remaining = 0 then
        some { s with
          ops := s.ops.set seq (.drained (tcpDrainResponse s.client.sid [] false (some seq))) }
      else some { s with ops := s.ops.set seq (.draining remaining [] none) }
  | _ => none

def loadEof (s : System) (seq : Nat) : Option System :=
  match s.ops[seq]? with
  | some (.draining remaining data none) =>
      some { s with ops := s.ops.set seq (.draining remaining data (some s.inner.eof)) }
  | _ => none

/-- One turn of the drain loop, from the buffer on. The loop goes round again while data keeps
coming and neither a cap nor the deadline is reached. -/
def take (s : System) (seq : Nat) (late : Bool) : Option System :=
  match s.ops[seq]? with
  | some (.draining remaining data (some rawEof)) =>
      let (new, eof, rest) := drainNow s.inner.readBuf rawEof (remaining - data.length)
      let all := data ++ new
      -- an empty drain, the end of the stream, one of the two caps or the deadline ends the loop
      let stop := new.isEmpty || eof || decide (tcpDrainMaxBytes ≤ new.length)
        || decide (remaining ≤ all.length) || late
      some { s with
        inner := { s.inner with readBuf := rest }
        ops := s.ops.set seq
          (if stop then .drained (tcpDrainResponse s.client.sid all eof (some seq))
          else .draining remaining all none) }
  | _ => none

/-- The response leaves the node; a drained end of stream takes the session out of the table. -/
def respond (s : System) (seq : Nat) : Option System :=
  match s.ops[seq]? with
  | some (.drained resp) =>
      some { s with
        present := s.present && !(resp.eof.getD false)
        ops := s.ops.set seq (.answered resp) }
  | _ => none

def step (s : System) : Event → Option System
  | .client e => s.clientStep e
  | .deliver seq allLegacy permit => s.deliver seq allLegacy permit
  | .append bytes =>
      -- a full buffer makes the reader wait; the end of the session stops it
      if s.present ∧ s.inner.eof = false ∧ s.inner.readBuf.length < readBufCap
          ∧ 0 < bytes.length ∧ bytes.length ≤ readerBufSize then
        some { s with
          inner := { s.inner with readBuf := s.inner.readBuf ++ bytes }
          appended := s.appended ++ bytes }
      else none
  | .upstreamEnd =>
      if s.inner.eof = false then some { s with inner := { s.inner with eof := true } } else none
  | .arrive seq => s.arrive seq
  | .startDrain seq remaining => s.startDrain seq remaining
  | .loadEof seq => s.loadEof seq
  | .take seq late => s.take seq late
  | .respond seq => s.respond seq

/-! ## What a step of the node can do -/

/-- Steps of the node. -/
def Event.atNode : Event → Bool
  | .client _ => false
  | .deliver .. => false
  | _ => true

/-- The upload side of the session is the same. -/
def SameUplink (s t : System) : Prop :=
  t.inner.nextWriteSeq = s.inner.nextWriteSeq ∧ t.inner.pendingWrites = s.inner.pendingWrites

/-- A step of the node moves one operation at most and delivers none. Only phase 1 takes up an
operation that is on its way, and only phase 1 touches the upload side. -/
structure NodeStep (s t : System) (e : Event) : Prop where
  client : t.client = s.client
  present : t.present = true → s.present = true
  ops : (t.ops = s.ops ∧ SameUplink s t) ∨
    ∃ (q : Nat) (o o' : OpState), s.ops[q]? = some o ∧ t.ops = s.ops.set q o' ∧ o.received = none ∧
      o'.received = none ∧ o' ≠ .sent ∧ (o ≠ .sent ∧ SameUplink s t ∨ e = .arrive q)

theorem step_node {s t : System} {e : Event} (he : e.atNode = true) (hs : s.step e = some t) :
    NodeStep s t e := by
  cases e with
  | client e => cases he
  | deliver seq l p => cases he
  | append bytes =>
      simp only [step] at hs
      split_ifs at hs
      cases hs
      exact ⟨rfl, id, .inl ⟨rfl, rfl, rfl⟩⟩
  | upstreamEnd =>
      simp only [step] at hs
      split_ifs at hs
      cases hs
      exact ⟨rfl, id, .inl ⟨rfl, rfl, rfl⟩⟩
  | arrive seq =>
      simp only [step, arrive] at hs
      split at hs
      case h_2 => cases hs
      case h_1 op hq hop =>
        split_ifs at hs with hp
        · rcases hd : dataOp s.inner op with ⟨inner, _ | _ | _⟩ <;> rw [hd] at hs <;> cases hs <;>
            -- whatever phase 1 says, the operation is not on its way any more
            exact ⟨rfl, fun _ => hp, .inr ⟨seq, _, _, hq, rfl, rfl, rfl, nofun, .inr rfl⟩⟩
        · cases hs
          exact ⟨rfl, id, .inr ⟨seq, _, _, hq, rfl, rfl, rfl, nofun, .inr rfl⟩⟩
  | startDrain seq remaining =>
      simp only [step, startDrain] at hs
      split at hs
      case h_2 => cases hs
      case h_1 hq =>
        split_ifs at hs <;> cases hs <;>
          exact ⟨rfl, id, .inr ⟨seq, _, _, hq, rfl, rfl, rfl, nofun, .inl ⟨nofun, rfl, rfl⟩⟩⟩
  | loadEof seq =>
      simp only [step, loadEof] at hs
      split at hs
      case h_2 => cases hs
      case h_1 hq =>
        cases hs
        exact ⟨rfl, id, .inr ⟨seq, _, _, hq, rfl, rfl, rfl, nofun, .inl ⟨nofun, rfl, rfl⟩⟩⟩
  | take seq late =>
      simp only [step, take] at hs
      split at hs
      case h_2 => cases hs
      case h_1 hq =>
        cases hs
        refine ⟨rfl, id, .inr ⟨seq, _, _, hq, rfl, rfl, ?_, ?_, .inl ⟨nofun, rfl, rfl⟩⟩⟩
        · split_ifs <;> rfl
        · split_ifs <;> exact nofun
  | respond seq =>
      simp only [step, respond] at hs
      split at hs
      case h_2 => cases hs
      case h_1 hq =>
        cases hs
        refine ⟨rfl, fun hp => ?_,
          .inr ⟨seq, _, _, hq, rfl, rfl, rfl, nofun, .inl ⟨nofun, rfl, rfl⟩⟩⟩
        exact (Bool.and_eq_true_iff.mp hp).1

end System

end Rahgozar.Tunnel
