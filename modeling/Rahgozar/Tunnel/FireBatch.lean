import Rahgozar.Fronter.Compression
import Rahgozar.Fronter.Transport
import Rahgozar.Lib.FairSemaphore
import Rahgozar.Tunnel.MuxBatches

set_option autoImplicit false

/-! # Batches in flight (`fire_batch` in `src/tunnel_client.rs`)

`fire_batch` spawns a task for each batch. The task takes the slots of its deployment, sends the
request, perhaps once more, answers the channels of the batch and gives the slots back. There are
30 slots to a deployment. A batch of empty polls needs one of 24 idle permits first, and does not
stand in line for a slot: it tries for one again and again. Tasks are known by the order in which
they were spawned; the semaphores are never closed.
-/

namespace Rahgozar.Tunnel

open Fronter (FronterError Client)

variable {Reply : Type}

/-! ## The slots -/

def concurrencyPerDeployment : Nat := 30
def reservedActivePerDeployment : Nat := 6

def idleConcurrencyPerDeployment : Nat := concurrencyPerDeployment - reservedActivePerDeployment

structure DeploymentSemaphores where
  total : FairSemaphore Nat concurrencyPerDeployment
  idle : FairSemaphore Nat idleConcurrencyPerDeployment

def DeploymentSemaphores.new : DeploymentSemaphores := ⟨.new _, .new _⟩

def isIdlePollBatch (ops : List PendingOp) : Bool :=
  !ops.isEmpty && ops.all fun op => (op.op = "data" || op.op = "udp_data") && op.data.isNone

/-! ## What a request comes to -/

/-- The result of `tunnel_batch_request_to` under the timeout. -/
inductive Attempt where
  | answered (r : List TunnelResponse)
  | failed (e : FronterError)
  | elapsed

def ambiguousBatchFailure : Attempt → Bool
  | .elapsed => true
  | .failed .timeout => true
  | .failed (.io _) => true
  | .failed (.badResponse _) => true
  | .failed (.json _) => true
  | _ => false

/-- A response with the deployment it came from, or a text. -/
abbrev BatchedReplyResult := Except String (TunnelResponse × String)

/-- The head of an id, which is ASCII. -/
def sidShort (scriptId : String) : String := String.ofList (scriptId.toList.take 8)

/-- What the channel of the operation at `idx` gets. -/
def replyTo (scriptId : String) (idx : Nat) : Attempt → BatchedReplyResult
  | .answered r =>
      match r[idx]? with
      | some resp => .ok (resp, scriptId)
      | none => .error ("missing response in batch from script " ++ sidShort scriptId)
  | .failed e => .error e.display
  | .elapsed => .error "batch timed out"

/-! ## The tasks -/

inductive BatchPhase where
  | spawned
  /-- In line for an idle permit. -/
  | idleQueued
  /-- With an idle permit, trying for a slot. -/
  | spinning
  /-- In line for a slot. -/
  | queued
  | running
  /-- The channels are answered; the permits are still held. -/
  | answered
  /-- Only the slot is still held. -/
  | leaving
  | done
deriving DecidableEq

/-- A task; `history` is what its requests have come to. -/
structure BatchTask (Reply : Type) where
  scriptId : String
  ops : List PendingOp
  replies : List (Nat × Reply)
  phase : BatchPhase
  history : List Attempt

namespace BatchTask

def dataOps (t : BatchTask Reply) : List BatchOp := t.ops.map encodePending

def isIdle (t : BatchTask Reply) : Bool := isIdlePollBatch t.ops

def setPhase (phase : BatchPhase) (t : BatchTask Reply) : BatchTask Reply :=
  { t with phase := phase }

def setResult (phase : BatchPhase) (result : Attempt) (t : BatchTask Reply) : BatchTask Reply :=
  { t with phase := phase, history := t.history ++ [result] }

/-- What the task answers with this result. -/
def deliver (t : BatchTask Reply) (result : Attempt) : List (Reply × BatchedReplyResult) :=
  t.replies.map fun p => (p.2, replyTo t.scriptId p.1 result)

end BatchTask

structure Dispatcher (Reply : Type) where
  scriptIds : List String
  sems : String → DeploymentSemaphores
  client : Client
  tasks : List (BatchTask Reply)
  answers : List (Reply × BatchedReplyResult)

/-- A call of `fire_batch`, and the steps of a task. -/
inductive BatchStep (Reply : Type) where
  | fire (scriptId : String) (fired : Fired Reply)
  | enter (i : Nat)
  | tryTotal (i : Nat)
  | result (i : Nat) (result : Attempt) (zc : Option UInt8)
  | dropIdle (i : Nat)
  | dropTotal (i : Nat)

namespace Dispatcher

def start (scriptIds : List String) (client : Client) : Dispatcher Reply :=
  ⟨scriptIds, fun _ => .new, client, [], []⟩

def setPhase (s : Dispatcher Reply) (i : Nat) (phase : BatchPhase) : Dispatcher Reply :=
  { s with tasks := s.tasks.modify i (BatchTask.setPhase phase) }

def setTotal (s : Dispatcher Reply) (d : String)
    (total : FairSemaphore Nat concurrencyPerDeployment) : Dispatcher Reply :=
  { s with sems := Function.update s.sems d { s.sems d with total := total } }

def setIdle (s : Dispatcher Reply) (d : String)
    (idle : FairSemaphore Nat idleConcurrencyPerDeployment) : Dispatcher Reply :=
  { s with sems := Function.update s.sems d { s.sems d with idle := idle } }

/-- The permit given back wakes the first in line. -/
def wake (s : Dispatcher Reply) (waiters : List Nat) (phase : BatchPhase) : Dispatcher Reply :=
  match waiters with
  | [] => s
  | j :: _ => s.setPhase j phase

/-- The permit that a task asks for first. -/
def enter (s : Dispatcher Reply) (i : Nat) (t : BatchTask Reply) : Dispatcher Reply :=
  let x := s.sems t.scriptId
  if t.isIdle then
    (s.setIdle t.scriptId (x.idle.acquire i)).setPhase i
      (if x.idle.holders.length < idleConcurrencyPerDeployment then .spinning else .idleQueued)
  else
    (s.setTotal t.scriptId (x.total.acquire i)).setPhase i
      (if x.total.holders.length < concurrencyPerDeployment then .running else .queued)

/-- An ambiguous failure of a replay-safe batch is tried once more, by the same deployment. -/
def result (s : Dispatcher Reply) (i : Nat) (t : BatchTask Reply) (r : Attempt)
    (zc : Option UInt8) : Dispatcher Reply :=
  let client := s.client.learn t.scriptId zc
  if t.history.isEmpty && batchIsReplaySafe t.dataOps &&
      client.deploymentSupportsBatchReplay t.scriptId && ambiguousBatchFailure r then
    { s with client := client, tasks := s.tasks.modify i (BatchTask.setResult .running r) }
  else
    { s with
      client := client
      tasks := s.tasks.modify i (BatchTask.setResult .answered r)
      answers := s.answers ++ t.deliver r }

/-- `_idle_permit` is dropped before `_permit`. -/
def dropIdle (s : Dispatcher Reply) (i : Nat) (t : BatchTask Reply) : Dispatcher Reply :=
  let x := s.sems t.scriptId
  if t.isIdle then
    ((s.setIdle t.scriptId (x.idle.release i)).setPhase i .leaving).wake x.idle.waiters .spinning
  else s.setPhase i .leaving

def dropTotal (s : Dispatcher Reply) (i : Nat) (t : BatchTask Reply) : Dispatcher Reply :=
  let x := s.sems t.scriptId
  ((s.setTotal t.scriptId (x.total.release i)).setPhase i .done).wake x.total.waiters .running

/-- The task `i`, if it is in that phase. -/
def inPhase (s : Dispatcher Reply) (i : Nat) (phase : BatchPhase) : Option (BatchTask Reply) :=
  s.tasks[i]?.filter fun t => t.phase = phase

def step (s : Dispatcher Reply) : BatchStep Reply → Option (Dispatcher Reply)
  | .fire d fired =>
      -- the semaphores are those of the deployments that `next_script_id` picks from
      if d ∈ s.scriptIds then
        some { s with tasks := s.tasks ++ [⟨d, fired.pendingOps, fired.dataReplies, .spawned, []⟩] }
      else none
  | .enter i => (s.inPhase i .spawned).map (s.enter i)
  | .tryTotal i =>
      (s.inPhase i .spinning).bind fun t =>
        ((s.sems t.scriptId).total.tryAcquire i).map fun total =>
          (s.setTotal t.scriptId total).setPhase i .running
  | .result i r zc => (s.inPhase i .running).map fun t => s.result i t r zc
  | .dropIdle i => (s.inPhase i .answered).map (s.dropIdle i)
  | .dropTotal i => (s.inPhase i .leaving).map (s.dropTotal i)

end Dispatcher

end Rahgozar.Tunnel
