import Rahgozar.Lib.Run

set_option autoImplicit false

/-! # Pooled connections and the front IP (`src/domain_fronter.rs`)

The fronter connects to one front IP, held in `connect_host`. `run_ip_health` may replace it: it
stores a new `Arc`, then clears the pool of h1 connections, then the h2 cell. Any number of tasks
open connections, push them into the pool, take them out, and cache the h2 connection. What a
connection was opened against is the `Arc` that was loaded before, and it is compared with the
current one by pointer.

Tasks are numbered, and each stands at one of the points below; a step takes one task to the next
point. The stores and loads of `connect_host` are steps of their own, so a swap may come between
any two steps of another task, locked or not. An `Arc` is named by a number, and a new one gets a
new number: while anything still holds the old one its address is not reused. Times are in
nanoseconds.
-/

namespace Rahgozar.Fronter

/-- `POOL_MAX` -/
def poolMax : Nat := 80

/-- `POOL_TTL_SECS` -/
def poolTtl : Nat := 60 * 1000000000

structure PoolEntry where
  host : Nat
  created : Nat
deriving DecidableEq

structure H2Cell where
  host : Nat
  generation : Nat
deriving DecidableEq

/-- Where a task stands. -/
inductive ConnPhase where
  | idle
  /-- `warm` and `run_pool_refill`: in `open`, which has loaded the host. -/
  | opening (host : Nat)
  /-- `warm`, `run_pool_refill`, `release`: at the pool lock, with it, and with the host loaded. -/
  | pushWaiting (e : PoolEntry)
  | pushLocked (e : PoolEntry)
  | pushLoaded (e : PoolEntry) (current : Nat)
  /-- `acquire`: at the pool lock, with it, and with the host loaded. -/
  | acquireWaiting
  | acquireLocked
  | acquireLoaded (current : Nat)
  /-- `acquire` before and in its first `open`, and before and in its second. -/
  | acquireMissed
  | acquireOpening (host : Nat)
  | acquireStale
  | acquireReopening (host : Nat)
  /-- A connection in use: taken from the pool, with the host loaded in that call, or opened. -/
  | took (e : PoolEntry) (current : Nat)
  | opened (e : PoolEntry)
  /-- `ensure_h2`: in `open_h2`, then at the cell lock, with it, and with the host loaded. -/
  | h2Opening (host : Nat)
  | h2Waiting (host generation : Nat)
  | h2Locked (host generation : Nat)
  | h2Loaded (host generation hostNow : Nat)
  /-- `ensure_h2` after a failed open, at the cell lock. -/
  | h2Failed
  /-- `run_ip_health`: the host is stored; and the pool is cleared as well. -/
  | swapStored
  | swapCleared
deriving DecidableEq

structure Conns where
  connectHost : Nat
  nextArc : Nat
  pool : List PoolEntry
  poolLock : Option Nat
  h2Cell : Option H2Cell
  cellLock : Option Nat
  openLock : Option Nat
  h2Generation : Nat
  phases : Nat → ConnPhase

namespace Conns

def init : Conns := ⟨0, 1, [], none, none, none, none, 0, fun _ => .idle⟩

def set (s : Conns) (i : Nat) (p : ConnPhase) : Conns :=
  { s with phases := Function.update s.phases i p }

/-- `created.elapsed().as_secs() < POOL_TTL_SECS` -/
def fresh (now : Nat) (e : PoolEntry) : Bool := decide (now - e.created < poolTtl)

/-- The entry with the smallest elapsed time, the first of several. -/
def freshest : List PoolEntry → Option (Nat × PoolEntry)
  | [] => none
  | e :: l =>
      match freshest l with
      | none => some (0, e)
      | some (i, e') => if e.created < e'.created then some (i + 1, e') else some (0, e)

/-- `Vec::swap_remove` -/
def swapRemove (l : List PoolEntry) (i : Nat) : List PoolEntry :=
  match l.getLast? with
  | none => []
  | some last => (l.set i last).dropLast

/-- The check and the push under the pool lock, which is given up. -/
def push (s : Conns) (i : Nat) (e : PoolEntry) (current : Nat) : Conns :=
  { s.set i .idle with
    pool := if e.host = current ∧ s.pool.length < poolMax then s.pool ++ [e] else s.pool
    poolLock := none }

/-- `acquire` under the pool lock: evict, then take the freshest entry; without one the lock is
given up and a connection is to be opened. -/
def take (s : Conns) (i : Nat) (current now : Nat) : Conns :=
  let pool := s.pool.filter fun e => fresh now e && decide (e.host = current)
  match freshest pool with
  | some (k, e) => { s.set i (.took e current) with pool := swapRemove pool k, poolLock := none }
  | none => { s.set i .acquireMissed with pool := pool, poolLock := none }

/-- `ensure_h2` under the cell lock. -/
def storeCell (s : Conns) (i host generation hostNow : Nat) : Conns :=
  { s.set i .idle with
    h2Cell := if host = hostNow then some ⟨host, generation⟩ else none
    cellLock := none
    openLock := none }

end Conns

inductive ConnEvent where
  | openStart (i : Nat)
  | openDone (i : Nat) (created : Nat)
  | openFailed (i : Nat)
  | acquire (i : Nat)
  | lockPool (i : Nat)
  | loadHost (i : Nat)
  | finishPool (i : Nat) (now : Nat)
  | evict (now : Nat)
  | release (i : Nat) (now : Nat)
  | discard (i : Nat)
  | h2Start (i : Nat)
  | h2Done (i : Nat) (ok : Bool)
  | lockCell (i : Nat)
  | finishCell (i : Nat)
  | poison (generation : Nat)
  | clearCell
  | swapStore (i : Nat)
  | swapClearPool (i : Nat)
  | swapClearCell (i : Nat)
  | cancel (i : Nat)

namespace Conns

def step (s : Conns) : ConnEvent → Option Conns
  | .openStart i =>
      match s.phases i with
      | .idle => some (s.set i (.opening s.connectHost))
      | .acquireMissed => some (s.set i (.acquireOpening s.connectHost))
      | .acquireStale => some (s.set i (.acquireReopening s.connectHost))
      | _ => none
  | .openDone i created =>
      match s.phases i with
      | .opening host => some (s.set i (.pushWaiting ⟨host, created⟩))
      | .acquireOpening host =>
          -- a swap during the first open: once more
          if host = s.connectHost then some (s.set i (.opened ⟨host, created⟩))
          else some (s.set i .acquireStale)
      | .acquireReopening host => some (s.set i (.opened ⟨host, created⟩))
      | _ => none
  | .openFailed i =>
      match s.phases i with
      | .opening _ | .acquireOpening _ | .acquireReopening _ => some (s.set i .idle)
      | _ => none
  | .acquire i => if s.phases i = .idle then some (s.set i .acquireWaiting) else none
  | .lockPool i =>
      if s.poolLock = none then
        match s.phases i with
        | .pushWaiting e => some { s.set i (.pushLocked e) with poolLock := some i }
        | .acquireWaiting => some { s.set i .acquireLocked with poolLock := some i }
        | _ => none
      else none
  | .loadHost i =>
      match s.phases i with
      | .pushLocked e => some (s.set i (.pushLoaded e s.connectHost))
      | .acquireLocked => some (s.set i (.acquireLoaded s.connectHost))
      | .h2Locked host generation => some (s.set i (.h2Loaded host generation s.connectHost))
      | _ => none
  | .finishPool i now =>
      match s.phases i with
      | .pushLoaded e current => some (s.push i e current)
      | .acquireLoaded current => some (s.take i current now)
      | _ => none
  | .evict now =>
      if s.poolLock = none then some { s with pool := s.pool.filter (fresh now) } else none
  | .release i now =>
      match s.phases i with
      | .took e _ | .opened e => some (s.set i (if fresh now e then .pushWaiting e else .idle))
      | _ => none
  | .discard i =>
      match s.phases i with
      | .took _ _ | .opened _ => some (s.set i .idle)
      | _ => none
  | .h2Start i =>
      if s.phases i = .idle ∧ s.openLock = none then
        some { s.set i (.h2Opening s.connectHost) with openLock := some i }
      else none
  | .h2Done i ok =>
      match s.phases i with
      | .h2Opening host =>
          if ok then
            some { s.set i (.h2Waiting host (s.h2Generation + 1)) with
              h2Generation := s.h2Generation + 1 }
          else some (s.set i .h2Failed)
      | _ => none
  | .lockCell i =>
      if s.cellLock = none then
        match s.phases i with
        | .h2Waiting host generation =>
            some { s.set i (.h2Locked host generation) with cellLock := some i }
        | .h2Failed => some { s.set i .idle with h2Cell := none, openLock := none }
        | _ => none
      else none
  | .finishCell i =>
      match s.phases i with
      | .h2Loaded host generation hostNow => some (s.storeCell i host generation hostNow)
      | _ => none
  | .poison generation =>
      if s.cellLock = none then
        some { s with h2Cell := s.h2Cell.filter fun c => c.generation ≠ generation }
      else none
  | .clearCell => if s.cellLock = none then some { s with h2Cell := none } else none
  | .swapStore i =>
      if s.phases i = .idle then
        some { s.set i .swapStored with connectHost := s.nextArc, nextArc := s.nextArc + 1 }
      else none
  | .swapClearPool i =>
      if s.phases i = .swapStored ∧ s.poolLock = none then
        some { s.set i .swapCleared with pool := [] }
      else none
  | .swapClearCell i =>
      if s.phases i = .swapCleared ∧ s.cellLock = none then
        some { s.set i .idle with h2Cell := none }
      else none
  | .cancel i =>
      -- between a lock and its release there is no await; a swap that is cancelled on its way
      -- stays where it is
      match s.phases i with
      | .opening _ | .pushWaiting _ | .acquireWaiting | .acquireMissed | .acquireOpening _
      | .acquireStale | .acquireReopening _ | .took _ _ | .opened _ => some (s.set i .idle)
      | .h2Opening _ | .h2Waiting _ _ | .h2Failed => some { s.set i .idle with openLock := none }
      | _ => none

end Conns

end Rahgozar.Fronter
