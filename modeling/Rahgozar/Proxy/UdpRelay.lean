import Rahgozar.Lib.Run
import Rahgozar.Lib.Maps
import Rahgozar.Tunnel.Protocol

set_option autoImplicit false

/-! # The SOCKS5 UDP relay (`src/proxy_server.rs`)

One `handle_socks5_udp_associate` after its socket is bound. The dispatch loop takes the client's
datagrams and opens one session for each target, with a task of its own; loop and tasks share the
map of sessions, under one lock. A step is what a party does between two awaits, so a lock is taken
and given up within a step. Tasks are numbered in the order of their spawning, and the number of a
task also names its uplink channel. Times are in nanoseconds.
-/

namespace Rahgozar.Proxy

open Tunnel (TunnelResponse)

/-- `UDP_UPLINK_QUEUE` -/
def udpUplinkQueue : Nat := 64

/-- `UDP_INITIAL_POLL_DELAY` -/
def udpInitialPollDelay : Nat := 500 * 1000000

/-- `UDP_MAX_POLL_DELAY` -/
def udpMaxPollDelay : Nat := 30 * 1000000000

/-- `UDP_SESSION_IDLE_TTL` -/
def udpSessionIdleTtl : Nat := 120 * 1000000000

/-- `MAX_UDP_SESSIONS_PER_ASSOCIATE` -/
def maxUdpSessionsPerAssociate : Nat := 256

/-- `MAX_UDP_PAYLOAD_BYTES` -/
def maxUdpPayloadBytes : Nat := 9 * 1024

def isStunTurnPort (port : UInt16) : Bool := port = 3478 || port = 5349 || port = 19302

structure SocksUdpTarget where
  host : String
  port : UInt16
  atyp : UInt8
  addr : List UInt8
deriving DecidableEq

structure SocketAddr where
  ip : List UInt8
  port : UInt16
deriving DecidableEq

structure UdpRelaySession where
  sid : String
  uplink : Nat
deriving DecidableEq

/-! ## `UdpRelayState` -/

abbrev UdpSessions := AList fun _ : SocksUdpTarget => UdpRelaySession

structure UdpRelayState where
  sessions : UdpSessions
  order : List SocksUdpTarget

namespace UdpRelayState

def new : UdpRelayState := ⟨∅, []⟩

def getUplink (r : UdpRelayState) (target : SocksUdpTarget) : Option Nat :=
  (r.sessions.lookup target).map UdpRelaySession.uplink

def insert (r : UdpRelayState) (target : SocksUdpTarget) (session : UdpRelaySession) :
    UdpRelayState :=
  ⟨r.sessions.insert target session, r.order ++ [target]⟩

def remove (r : UdpRelayState) (target : SocksUdpTarget) : UdpRelayState :=
  ⟨r.sessions.erase target, r.order.erase target⟩

/-- The loop of `evict_until_under`: what is left, and the victims. -/
def evictLoop (cap : Nat) : List SocksUdpTarget → UdpSessions → UdpRelayState × List SocksUdpTarget
  | [], sessions => (⟨sessions, []⟩, [])
  | victim :: order, sessions =>
      if cap ≤ sessions.entries.length then
        let (r, evicted) := evictLoop cap order (sessions.erase victim)
        (r, if (sessions.lookup victim).isSome then victim :: evicted else evicted)
      else (⟨sessions, victim :: order⟩, [])

def evictUntilUnder (r : UdpRelayState) (cap : Nat) : UdpRelayState × List SocksUdpTarget :=
  evictLoop cap r.order r.sessions

def liveSids (r : UdpRelayState) : List String := r.sessions.entries.map fun e => e.2.sid

end UdpRelayState

/-! ## The parties -/

/-- Where a session's task stands. -/
inductive UdpTaskPhase where
  /-- Spawned and not polled yet. -/
  | spawned
  /-- At the `select!` of `udp_session_task`, with the end of the sleep. -/
  | waiting (lastActivity backoff wakeAt : Nat)
  /-- In `mux.udp_data`. -/
  | polling (lastActivity backoff : Nat)
  /-- In `mux.close_session`. -/
  | closing
  /-- `udp_session_task` has returned; at the lock for the self-removal, and after it. -/
  | ended
  | removed
  /-- Aborted. -/
  | cancelled
deriving DecidableEq

structure UdpTask where
  target : SocksUdpTarget
  sid : String
  queue : List (List UInt8)
  phase : UdpTaskPhase
deriving DecidableEq

/-- Where the dispatch loop stands. -/
inductive UdpLoopPhase where
  | select
  /-- With a datagram: at the lock for the look-up, and at the lock for the eviction. -/
  | lookup (target : SocksUdpTarget) (payload : List UInt8)
  | evict (target : SocksUdpTarget) (payload : List UInt8)
  /-- In `mux.udp_open`. -/
  | opening (target : SocksUdpTarget)
  /-- The task is spawned; at the lock for the insertion. -/
  | inserting (target : SocksUdpTarget) (sid : String) (task : Nat)
  /-- After the loop: at the lock, and with these sids still to be closed. -/
  | teardown
  | sweeping (sids : List String)
  | returned
deriving DecidableEq

/-- The task whose entry, and with it the sender of its channel, is still with the loop. -/
def UdpLoopPhase.inserts : UdpLoopPhase → Option Nat
  | .inserting _ _ task => some task
  | _ => none

structure UdpConfig where
  clientPeerIp : List UInt8
  blockQuic : Bool
  blockStun : Bool

/-- The state of one associate. Beside what the code keeps: the sids that `udp_open` has returned
without `eof`, the sids for which `close_session` has been called, and the tasks whose sessions were
evicted. -/
structure UdpAssociate where
  config : UdpConfig
  clientAddr : Option SocketAddr
  state : UdpRelayState
  tasks : List UdpTask
  loop : UdpLoopPhase
  opened : List String
  closed : List String
  evicted : List Nat

namespace UdpAssociate

def init (config : UdpConfig) : UdpAssociate :=
  ⟨config, none, .new, [], .select, [], [], []⟩

/-! ## The dispatch loop -/

/-- A datagram off the socket, with what `parse_socks5_udp_packet_offsets` says of it: dropped, or
to be dispatched. The source port is locked before the size is looked at. -/
def recv (s : UdpAssociate) (peer : SocketAddr) (packet : Option (SocksUdpTarget × List UInt8)) :
    UdpAssociate :=
  if peer.ip ≠ s.config.clientPeerIp then s
  else
    match packet with
    | none => s
    | some (target, payload) =>
        if s.config.blockQuic && target.port = 443 then s
        else if s.config.blockStun && isStunTurnPort target.port then s
        else if s.clientAddr.any fun existing => existing ≠ peer then s
        else if maxUdpPayloadBytes < payload.length then { s with clientAddr := some peer }
        else { s with clientAddr := some peer, loop := .lookup target payload }

/-- `try_send`: full or without a receiver, the queue does not take the datagram. -/
def trySend (s : UdpAssociate) (uplink : Nat) (payload : List UInt8) : UdpAssociate :=
  match s.tasks[uplink]? with
  | none => s
  | some task =>
      match task.phase with
      | .ended | .removed | .cancelled => s
      | _ =>
          if task.queue.length < udpUplinkQueue then
            { s with tasks := s.tasks.set uplink { task with queue := task.queue ++ [payload] } }
          else s

def lookup (s : UdpAssociate) (target : SocksUdpTarget) (payload : List UInt8) : UdpAssociate :=
  match s.state.getUplink target with
  | some uplink => { s.trySend uplink payload with loop := .select }
  | none => { s with loop := .evict target payload }

def evict (s : UdpAssociate) (target : SocksUdpTarget) : UdpAssociate :=
  let (state, victims) := s.state.evictUntilUnder maxUdpSessionsPerAssociate
  { s with
    state := state
    evicted := s.evicted ++ victims.filterMap s.state.getUplink
    loop := .opening target }

/-- The outcome of `udp_open`, to the spawning of the task. -/
def afterOpen (s : UdpAssociate) (target : SocksUdpTarget) :
    Except String TunnelResponse → UdpAssociate
  | .error _ => { s with loop := .select }
  | .ok resp =>
      if resp.e.isSome then { s with loop := .select }
      else
        match resp.sid with
        | none => { s with loop := .select }
        | some sid =>
            if resp.eof.getD false then { s with loop := .select }
            else
              { s with
                tasks := s.tasks ++ [⟨target, sid, [], .spawned⟩]
                opened := s.opened ++ [sid]
                loop := .inserting target sid s.tasks.length }

def insert (s : UdpAssociate) (target : SocksUdpTarget) (sid : String) (task : Nat) :
    UdpAssociate :=
  { s with state := s.state.insert target ⟨sid, task⟩, loop := .select }

/-- The teardown up to `abort_all`. -/
def snapshot (s : UdpAssociate) : UdpAssociate :=
  { s with state := .new, loop := .sweeping s.state.liveSids }

/-! ## `udp_session_task` -/

def udpSessionIdleRemaining (lastActivity now : Nat) : Option Nat :=
  let elapsed := now - lastActivity
  if udpSessionIdleTtl ≤ elapsed then none else some (udpSessionIdleTtl - elapsed)

/-- The head of the task's loop. -/
def head (lastActivity backoff now : Nat) : UdpTaskPhase :=
  match udpSessionIdleRemaining lastActivity now with
  | none => .closing
  | some idleRemaining => .waiting lastActivity backoff (now + min backoff idleRemaining)

/-- What the task does with the outcome of `udp_data`. -/
def afterData (lastActivity backoff now : Nat) : Except String TunnelResponse → UdpTaskPhase
  | .error _ => .closing
  | .ok resp =>
      if resp.e.isSome || resp.eof.getD false then .closing
      else if resp.pkts.any fun pkts => !pkts.isEmpty then head now udpInitialPollDelay now
      else head lastActivity (min (backoff * 2) udpMaxPollDelay) now

/-- The task gets on; in `closing` it has called `close_session`. -/
def advance (s : UdpAssociate) (i : Nat) (task : UdpTask) : UdpAssociate :=
  { s with
    tasks := s.tasks.set i task
    closed := if task.phase = .closing then s.closed ++ [task.sid] else s.closed }

/-- The channel of the task has a sender: in the map, or in the hands of the dispatch loop. -/
def senderAlive (s : UdpAssociate) (i : Nat) : Bool :=
  s.loop.inserts = some i || s.state.sessions.entries.any fun e => e.2.uplink = i

/-- Has `abort_all` been called? -/
def aborted (s : UdpAssociate) : Bool :=
  match s.loop with
  | .sweeping _ | .returned => true
  | _ => false

end UdpAssociate

inductive UdpEvent where
  | recv (peer : SocketAddr) (packet : Option (SocksUdpTarget × List UInt8))
  | hangUp
  | lookup
  | evict
  | opened (result : Except String TunnelResponse)
  | insert
  | snapshot
  | sweep
  | start (i now : Nat)
  | uplink (i now : Nat)
  | wake (i now : Nat)
  | response (i : Nat) (result : Except String TunnelResponse) (now : Nat)
  | closeDone (i : Nat)
  | selfRemove (i : Nat)
  | cancel (i : Nat)

namespace UdpAssociate

/-- The steps of the dispatch loop. -/
def loopStep (s : UdpAssociate) (e : UdpEvent) : Option UdpAssociate :=
  match e, s.loop with
  | .recv peer packet, .select => some (s.recv peer packet)
  | .hangUp, .select => some { s with loop := .teardown }
  | .lookup, .lookup target payload => some (s.lookup target payload)
  | .evict, .evict target _ => some (s.evict target)
  | .opened result, .opening target => some (s.afterOpen target result)
  | .insert, .inserting target sid task => some (s.insert target sid task)
  | .snapshot, .teardown => some s.snapshot
  | .sweep, .sweeping (sid :: sids) =>
      some { s with closed := s.closed ++ [sid], loop := .sweeping sids }
  | .sweep, .sweeping [] => some { s with loop := .returned }
  | _, _ => none

/-- The steps of the task `i`. -/
def taskStep (s : UdpAssociate) (i : Nat) (task : UdpTask) : UdpEvent → Option UdpAssociate
  | .start _ now =>
      match task.phase with
      | .spawned => some (s.advance i { task with phase := head now udpInitialPollDelay now })
      | _ => none
  | .uplink _ now =>
      match task.phase, task.queue with
      | .waiting _ _ _, _ :: queue =>
          some (s.advance i { task with queue := queue, phase := .polling now udpInitialPollDelay })
      | .waiting _ _ _, [] =>
          if s.senderAlive i then none else some (s.advance i { task with phase := .closing })
      | _, _ => none
  | .wake _ now =>
      match task.phase with
      | .waiting lastActivity backoff wakeAt =>
          -- `biased`: the channel is looked at first
          if task.queue = [] ∧ s.senderAlive i = true ∧ wakeAt ≤ now then
            some (s.advance i { task with phase := .polling lastActivity backoff })
          else none
      | _ => none
  | .response _ result now =>
      match task.phase with
      | .polling lastActivity backoff =>
          some (s.advance i { task with phase := afterData lastActivity backoff now result })
      | _ => none
  | .closeDone _ =>
      match task.phase with
      | .closing => some (s.advance i { task with phase := .ended })
      | _ => none
  | .selfRemove _ =>
      match task.phase with
      | .ended =>
          some { s.advance i { task with phase := .removed } with
            state := s.state.remove task.target }
      | _ => none
  | .cancel _ =>
      match task.phase with
      | .removed | .cancelled => none
      | _ => if s.aborted then some (s.advance i { task with phase := .cancelled }) else none
  | _ => none

end UdpAssociate

/-- The task an event is about. -/
def UdpEvent.task : UdpEvent → Option Nat
  | .start i _ | .uplink i _ | .wake i _ | .response i _ _ | .closeDone i | .selfRemove i
  | .cancel i => some i
  | _ => none

namespace UdpAssociate

def step (s : UdpAssociate) (e : UdpEvent) : Option UdpAssociate :=
  match e.task with
  | none => s.loopStep e
  | some i => (s.tasks[i]?).bind fun task => s.taskStep i task e

end UdpAssociate

end Rahgozar.Proxy
