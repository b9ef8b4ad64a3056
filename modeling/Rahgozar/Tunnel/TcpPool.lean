import Mathlib.Data.Multiset.Count
import Rahgozar.Lib.Maps
import Rahgozar.Lib.Run

set_option autoImplicit false

/-! # Pre-opened upstream connections (`tunnel-node/src/main.rs`)

The node keeps a few idle connections per hot host. A task that wants to open one reserves a slot
(`try_reserve`), connects, and then commits the slot or cancels it; a session that opens takes a
pooled connection if there is a fresh one (`try_take`). Every operation runs under one lock, so a
run is a sequence of them, each with the clock reading it uses: `try_take` reads its clock before
it waits for the lock, so the readings of a run need not increase.

The pool counts its connections and its reservations twice, in each host entry and in two totals
that are lowered by saturating subtraction. What makes the counters agree is the reservations
that are still to be committed or cancelled, which the run carries beside the pool.
-/

namespace Rahgozar.Tunnel

/-- `TCP_POOL_TTL`, in nanoseconds. -/
def tcpPoolTtl : Nat := 30 * 1000000000

/-- `TCP_POOL_PER_HOST_MAX` -/
def tcpPoolPerHostMax : Nat := 2

/-- `TCP_POOL_TOTAL_MAX` -/
def tcpPoolTotalMax : Nat := 64

/-- `(String, u16)`: a host and a port. -/
abbrev HostKey := String × UInt16

structure PooledConn (τ : Type) where
  stream : τ
  openedAt : Nat
deriving DecidableEq

structure HostState (τ : Type) where
  queue : List (PooledConn τ) := []
  pending : Nat := 0
deriving DecidableEq

structure PoolInner (τ : Type) where
  hosts : AList fun _ : HostKey => HostState τ
  totalActual : Nat
  totalPending : Nat

variable {τ : Type}

/-- `now.duration_since(c.opened_at) < TCP_POOL_TTL`. A connection opened after `now` has age 0. -/
def PooledConn.fresh (now : Nat) (c : PooledConn τ) : Bool :=
  decide (now - c.openedAt < tcpPoolTtl)

def HostState.isEmpty (st : HostState τ) : Bool := st.queue.isEmpty && st.pending == 0

/-- The loop of `try_take`: connections are popped until a fresh one is found. The stream taken,
the queue left and the number of stale connections dropped. -/
def popFresh (now : Nat) : List (PooledConn τ) → Option τ × List (PooledConn τ) × Nat
  | [] => (none, [], 0)
  | c :: queue =>
      if c.fresh now then (some c.stream, queue, 0)
      else
        let (taken, rest, dropped) := popFresh now queue
        (taken, rest, dropped + 1)

namespace PoolInner

/-- `TcpPool::new` -/
def new : PoolInner τ := ⟨∅, 0, 0⟩

/-- `prune_stale` -/
def pruneStale (p : PoolInner τ) (now : Nat) : PoolInner τ :=
  let prune (st : HostState τ) : HostState τ := { st with queue := st.queue.filter (·.fresh now) }
  let dropped := p.hosts.weight fun st => st.queue.length - (prune st).queue.length
  { p with
    hosts := (p.hosts.mapVals prune).retain fun st => !st.isEmpty
    totalActual := p.totalActual - dropped }

/-- The end of `try_take` and of `cancel_reserve`: an entry that is now empty is removed. -/
def dropIfEmpty (p : PoolInner τ) (key : HostKey) : PoolInner τ :=
  if ((p.hosts.lookup key).map HostState.isEmpty).getD false
  then { p with hosts := p.hosts.erase key } else p

/-- `try_take` -/
def tryTake (p : PoolInner τ) (key : HostKey) (now : Nat) : Option τ × PoolInner τ :=
  match p.hosts.lookup key with
  | none => (none, p.dropIfEmpty key)
  | some st =>
      let (taken, queue, dropped) := popFresh now st.queue
      let consumed := dropped + if taken.isSome then 1 else 0
      (taken, dropIfEmpty { p with
        hosts := p.hosts.insert key { st with queue := queue }
        totalActual := p.totalActual - consumed } key)

/-- The second half of `try_reserve`, at the host's own cap. -/
def reserveAt (p : PoolInner τ) (key : HostKey) : Bool × PoolInner τ :=
  let st := (p.hosts.lookup key).getD {}
  if tcpPoolPerHostMax ≤ st.queue.length + st.pending then
    (false, { p with hosts := p.hosts.insert key st })
  else
    (true, { p with
      hosts := p.hosts.insert key { st with pending := st.pending + 1 }
      totalPending := p.totalPending + 1 })

/-- `try_reserve` -/
def tryReserve (p : PoolInner τ) (key : HostKey) (now : Nat) : Bool × PoolInner τ :=
  if tcpPoolTotalMax ≤ p.totalActual + p.totalPending then
    let q := p.pruneStale now
    if tcpPoolTotalMax ≤ q.totalActual + q.totalPending then (false, q) else q.reserveAt key
  else p.reserveAt key

/-- `commit_reserve` -/
def commitReserve (p : PoolInner τ) (key : HostKey) (stream : τ) (now : Nat) : PoolInner τ :=
  let st := (p.hosts.lookup key).getD {}
  { hosts := p.hosts.insert key
      { queue := st.queue ++ [⟨stream, now⟩], pending := st.pending - 1 }
    totalActual := p.totalActual + 1
    totalPending := p.totalPending - 1 }

/-- `cancel_reserve` -/
def cancelReserve (p : PoolInner τ) (key : HostKey) : PoolInner τ :=
  let hosts := match p.hosts.lookup key with
    | some st => p.hosts.insert key { st with pending := st.pending - 1 }
    | none => p.hosts
  dropIfEmpty { p with hosts := hosts, totalPending := p.totalPending - 1 } key

end PoolInner

/-! ## Runs -/

/-- The pool and the reservations that were granted and are still neither committed nor
cancelled. -/
structure PoolSystem (τ : Type) where
  inner : PoolInner τ
  reserved : Multiset HostKey

inductive PoolEvent (τ : Type) where
  | tryTake (key : HostKey) (now : Nat)
  | tryReserve (key : HostKey) (now : Nat)
  | commitReserve (key : HostKey) (stream : τ) (now : Nat)
  | cancelReserve (key : HostKey)

namespace PoolSystem

def init : PoolSystem τ := ⟨PoolInner.new, 0⟩

/-- A slot is committed or cancelled by a task that holds a reservation of it, and once. -/
def step (s : PoolSystem τ) : PoolEvent τ → Option (PoolSystem τ)
  | .tryTake key now => some { s with inner := (s.inner.tryTake key now).2 }
  | .tryReserve key now =>
      let (granted, inner) := s.inner.tryReserve key now
      some ⟨inner, if granted then key ::ₘ s.reserved else s.reserved⟩
  | .commitReserve key stream now =>
      if key ∈ s.reserved
      then some ⟨s.inner.commitReserve key stream now, s.reserved.erase key⟩ else none
  | .cancelReserve key =>
      if key ∈ s.reserved
      then some ⟨s.inner.cancelReserve key, s.reserved.erase key⟩ else none

end PoolSystem

/-! ## One host entry -/

theorem HostState.isEmpty_iff {st : HostState τ} :
    st.isEmpty = true ↔ st.queue = [] ∧ st.pending = 0 := by
  simp [HostState.isEmpty]

theorem HostState.not_isEmpty {st : HostState τ} (h : 0 < st.queue.length + st.pending) :
    st.isEmpty = false := by
  by_contra hne
  obtain ⟨hq, hp⟩ := HostState.isEmpty_iff.mp (Bool.eq_true_of_not_eq_false hne)
  rw [hq, hp] at h
  exact absurd h (by simp)

theorem length_popFresh (now : Nat) (queue : List (PooledConn τ)) :
    (popFresh now queue).2.1.length +
      ((popFresh now queue).2.2 + if (popFresh now queue).1.isSome then 1 else 0) =
      queue.length := by
  induction queue with
  | nil => rfl
  | cons c queue ih =>
      rw [popFresh]
      by_cases hc : c.fresh now = true
      · rw [if_pos hc]
        simp
      · rw [if_neg hc, List.length_cons]
        generalize popFresh now queue = r at ih ⊢
        obtain ⟨taken, rest, dropped⟩ := r
        simp only at ih ⊢
        omega

namespace PoolInner

variable {p : PoolInner τ} {key j : HostKey} {st : HostState τ}

/-- The state of a host; a host without an entry has nothing pooled and nothing pending. -/
def hostAt (p : PoolInner τ) (key : HostKey) : HostState τ := (p.hosts.lookup key).getD {}

/-- The pool with the entry `st` for the host, or without one if `st` is empty. -/
def put (p : PoolInner τ) (key : HostKey) (st : HostState τ) : PoolInner τ :=
  { p with hosts := if st.isEmpty then p.hosts.erase key else p.hosts.insert key st }

theorem put_of_nonempty (h : st.isEmpty = false) :
    p.put key st = { p with hosts := p.hosts.insert key st } := by
  rw [put, h]
  rfl

theorem dropIfEmpty_insert :
    dropIfEmpty { p with hosts := p.hosts.insert key st } key = p.put key st := by
  rw [dropIfEmpty, put]
  simp only [AList.lookup_insert, Option.map_some, Option.getD_some]
  by_cases h : st.isEmpty = true
  · rw [if_pos h, if_pos h, AList.erase_insert_self]
  · rw [if_neg h, if_neg h]

theorem lookup_put (j : HostKey) :
    (p.put key st).hosts.lookup j =
      if j = key then (if st.isEmpty then none else some st) else p.hosts.lookup j := by
  rw [put]
  by_cases h : st.isEmpty = true
  · rw [if_pos h]
    by_cases hj : j = key
    · subst hj
      simp [h]
    · simp [hj, AList.lookup_erase_ne hj]
  · rw [if_neg h]
    by_cases hj : j = key
    · subst hj
      simp [h]
    · simp [hj, AList.lookup_insert_ne hj]

theorem weight_put (p : PoolInner τ) (key : HostKey) (st : HostState τ) {f : HostState τ → Nat}
    (hf : ∀ st : HostState τ, st.isEmpty = true → f st = 0) :
    (p.put key st).hosts.weight f + f (p.hostAt key) = f st + p.hosts.weight f := by
  have hput : (p.put key st).hosts.weight f = f st + (p.hosts.erase key).weight f := by
    rw [put]
    by_cases h : st.isEmpty = true
    · rw [if_pos h, hf st h, Nat.zero_add]
    · rw [if_neg h, AList.weight_insert]
  have hold : p.hosts.weight f = f (p.hostAt key) + (p.hosts.erase key).weight f := by
    rw [hostAt]
    cases hl : p.hosts.lookup key with
    | none =>
        rw [AList.erase_of_notMem (AList.lookup_eq_none.mp hl)]
        exact (Nat.zero_add _ ▸ congrArg (· + _) (hf {} rfl)).symm
    | some old => exact AList.weight_erase hl
  omega

theorem hostAt_of_some (h : p.hosts.lookup key = some st) : p.hostAt key = st := by
  rw [hostAt, h, Option.getD_some]

theorem tryTake_of_none {now : Nat} (h : p.hosts.lookup key = none) :
    (p.tryTake key now).2 = p := by
  simp [tryTake, dropIfEmpty, h]

theorem tryTake_of_some {now : Nat} (h : p.hosts.lookup key = some st) :
    (p.tryTake key now).2 = { p.put key { st with queue := (popFresh now st.queue).2.1 } with
      totalActual := p.totalActual - ((popFresh now st.queue).2.2 +
        if (popFresh now st.queue).1.isSome then 1 else 0)
      totalPending := p.totalPending } := by
  rw [tryTake, h]
  exact dropIfEmpty_insert (p := { p with totalActual := p.totalActual - _ })

/-- `prune_stale` leaves no empty entry, whatever the pool was. -/
theorem isEmpty_of_lookup_pruneStale {now : Nat}
    (h : (p.pruneStale now).hosts.lookup key = some st) : st.isEmpty = false := by
  have hret := (AList.lookup_retain_eq_some.mp h).2
  exact Bool.eq_false_of_not_eq_true (by simpa using hret)

/-- The queue of a host that `prune_stale` keeps has lost its stale connections, no more. -/
theorem lookup_pruneStale {now : Nat} (h : (p.pruneStale now).hosts.lookup key = some st) :
    ∃ old, p.hosts.lookup key = some old ∧ st.pending = old.pending ∧
      st.queue.length ≤ old.queue.length := by
  have hmap := (AList.lookup_retain_eq_some.mp h).1
  rw [AList.lookup_mapVals] at hmap
  obtain ⟨old, hold, rfl⟩ := Option.map_eq_some_iff.mp hmap
  exact ⟨old, hold, rfl, List.length_filter_le ..⟩

theorem pending_hostAt_pruneStale (now : Nat) :
    ((p.pruneStale now).hostAt key).pending = (p.hostAt key).pending := by
  rw [hostAt, hostAt]
  cases hnew : (p.pruneStale now).hosts.lookup key with
  | some st =>
      obtain ⟨old, hold, hpend, -⟩ := lookup_pruneStale hnew
      rw [hold]
      exact hpend
  | none =>
      cases hold : p.hosts.lookup key with
      | none => rfl
      | some old =>
          -- the entry was dropped, so nothing was pending
          by_contra hne
          have hpos : 0 < old.pending := Nat.pos_of_ne_zero fun h0 => hne h0.symm
          have hkept : (p.pruneStale now).hosts.lookup key =
              some { old with queue := old.queue.filter (·.fresh now) } := by
            apply AList.lookup_retain_eq_some.mpr
            constructor
            · rw [AList.lookup_mapVals, hold]
              rfl
            · rw [HostState.not_isEmpty (by simp only; omega)]
              rfl
          rw [hkept] at hnew
          cases hnew

end PoolInner

/-! ## The counters agree -/

namespace PoolSystem

/-- The accounting of the pool and of the reservations outstanding. -/
structure Accounted (s : PoolSystem τ) : Prop where
  actual : s.inner.totalActual = s.inner.hosts.weight fun st => st.queue.length
  pending : s.inner.totalPending = s.inner.hosts.weight HostState.pending
  reserved : s.inner.totalPending = s.reserved.card
  hostPending : ∀ key, (s.inner.hostAt key).pending = s.reserved.count key
  perHost : ∀ key st, s.inner.hosts.lookup key = some st →
    st.queue.length + st.pending ≤ tcpPoolPerHostMax
  total : s.inner.totalActual + s.inner.totalPending ≤ tcpPoolTotalMax
  noEmpty : ∀ key st, s.inner.hosts.lookup key = some st → st.isEmpty = false

theorem length_of_isEmpty (st : HostState τ) (h : st.isEmpty = true) : st.queue.length = 0 :=
  List.length_eq_zero_iff.mpr (HostState.isEmpty_iff.mp h).1

theorem pending_of_isEmpty (st : HostState τ) (h : st.isEmpty = true) : st.pending = 0 :=
  (HostState.isEmpty_iff.mp h).2

variable {s t : PoolSystem τ} {key : HostKey} {st : HostState τ}

theorem Accounted.length_le (h : Accounted s) (key : HostKey) :
    (s.inner.hostAt key).queue.length ≤ s.inner.totalActual := by
  have hput := PoolInner.weight_put s.inner key {} length_of_isEmpty
  have hact := h.actual
  simp only [List.length_nil] at hput
  omega

/-- **One host changes.** Its new state has the pending count its outstanding reservations give
it, and the totals move by what the host's own counts move. -/
theorem Accounted.put (h : Accounted s) (key : HostKey) (st : HostState τ)
    {actual pending : Nat} {reserved : Multiset HostKey}
    (hactual : actual + (s.inner.hostAt key).queue.length =
      st.queue.length + s.inner.totalActual)
    (hpending : pending + (s.inner.hostAt key).pending = st.pending + s.inner.totalPending)
    (hcard : pending = reserved.card) (hkey : st.pending = reserved.count key)
    (hother : ∀ j, j ≠ key → reserved.count j = s.reserved.count j)
    (hhost : st.queue.length + st.pending ≤ tcpPoolPerHostMax)
    (htotal : actual + pending ≤ tcpPoolTotalMax) :
    Accounted ⟨{ s.inner.put key st with totalActual := actual, totalPending := pending },
      reserved⟩ := by
  -- a host that is looked up afterwards has the new state or the one it had
  have hlook : ∀ j w, (s.inner.put key st).hosts.lookup j = some w →
      w = st ∧ st.isEmpty = false ∨ s.inner.hosts.lookup j = some w := by
    intro j w hw
    rw [PoolInner.lookup_put] at hw
    split_ifs at hw with hj he
    · exact Or.inl ⟨(Option.some.inj hw).symm, Bool.eq_false_of_not_eq_true he⟩
    · exact Or.inr hw
  constructor
  · have hw := PoolInner.weight_put s.inner key st length_of_isEmpty
    have hold := h.actual
    show actual = (s.inner.put key st).hosts.weight fun st => st.queue.length
    omega
  · have hw := PoolInner.weight_put s.inner key st pending_of_isEmpty
    have hold := h.pending
    show pending = (s.inner.put key st).hosts.weight HostState.pending
    omega
  · exact hcard
  · intro j
    show (((s.inner.put key st).hosts.lookup j).getD {}).pending = reserved.count j
    rw [PoolInner.lookup_put]
    by_cases hj : j = key
    · subst hj
      rw [if_pos rfl, ← hkey]
      by_cases he : st.isEmpty = true
      · rw [if_pos he, pending_of_isEmpty st he]
        rfl
      · rw [if_neg he]
        rfl
    · rw [if_neg hj, hother j hj]
      exact h.hostPending j
  · intro j w hw
    rcases hlook j w hw with ⟨rfl, -⟩ | hold
    · exact hhost
    · exact h.perHost j w hold
  · exact htotal
  · intro j w hw
    rcases hlook j w hw with ⟨rfl, he⟩ | hold
    · exact he
    · exact h.noEmpty j w hold

/-! ## What each operation does to the accounting -/

theorem accounted_init : Accounted (init : PoolSystem τ) := by
  constructor
  · rfl
  · rfl
  · rfl
  · intro key
    simp [init, PoolInner.new, PoolInner.hostAt]
  · intro key st hst
    simp [init, PoolInner.new] at hst
  · exact Nat.zero_le _
  · intro key st hst
    simp [init, PoolInner.new] at hst

theorem Accounted.tryTake (h : Accounted s) (key : HostKey) (now : Nat) :
    Accounted { s with inner := (s.inner.tryTake key now).2 } := by
  cases hl : s.inner.hosts.lookup key with
  | none =>
      rw [PoolInner.tryTake_of_none hl]
      exact h
  | some st =>
      have hat : s.inner.hostAt key = st := PoolInner.hostAt_of_some hl
      have hlen := length_popFresh now st.queue
      have hact := hat ▸ h.length_le key
      have hhost := h.perHost key st hl
      have htotal := h.total
      rw [PoolInner.tryTake_of_some hl]
      apply h.put key
      · rw [hat]
        simp only
        omega
      · rw [hat]
        exact Nat.add_comm _ _
      · exact h.reserved
      · exact hat ▸ h.hostPending key
      · exact fun j _ => rfl
      · simp only
        omega
      · omega

theorem Accounted.pruneStale (h : Accounted s) (now : Nat) :
    Accounted { s with inner := s.inner.pruneStale now } := by
  have hsplit : (s.inner.pruneStale now).totalActual =
      (s.inner.pruneStale now).hosts.weight fun st => st.queue.length := by
    have hle : ∀ st : HostState τ, (st.queue.filter (·.fresh now)).length ≤ st.queue.length :=
      fun st => List.length_filter_le ..
    have hsum := AList.weight_sub_add hle s.inner.hosts
    have hact := h.actual
    have hnew : ((s.inner.pruneStale now).hosts.weight fun st => st.queue.length) =
        s.inner.hosts.weight fun st => (st.queue.filter (·.fresh now)).length := by
      rw [PoolInner.pruneStale, AList.weight_retain, AList.weight_mapVals]
      exact fun st hst => length_of_isEmpty st (by simpa using hst)
    rw [hnew]
    show s.inner.totalActual - (s.inner.hosts.weight fun st =>
      st.queue.length - (st.queue.filter (·.fresh now)).length) = _
    omega
  constructor
  · exact hsplit
  · show s.inner.totalPending = _
    rw [PoolInner.pruneStale, AList.weight_retain, AList.weight_mapVals, h.pending]
    exact fun st hst => pending_of_isEmpty st (by simpa using hst)
  · exact h.reserved
  · exact fun key => (PoolInner.pending_hostAt_pruneStale now).trans (h.hostPending key)
  · intro key st hst
    obtain ⟨old, hold, hpend, hlen⟩ := PoolInner.lookup_pruneStale hst
    have hhost := h.perHost key old hold
    omega
  · have hle : (s.inner.pruneStale now).totalActual ≤ s.inner.totalActual := Nat.sub_le ..
    have htotal := h.total
    show (s.inner.pruneStale now).totalActual + s.inner.totalPending ≤ tcpPoolTotalMax
    omega
  · exact fun key st => PoolInner.isEmpty_of_lookup_pruneStale

/-- The accounting after an attempt to reserve, which was granted or not. -/
theorem Accounted.reserveAt (h : Accounted s) (key : HostKey)
    (hroom : s.inner.totalActual + s.inner.totalPending < tcpPoolTotalMax) :
    Accounted ⟨(s.inner.reserveAt key).2,
      if (s.inner.reserveAt key).1 then key ::ₘ s.reserved else s.reserved⟩ := by
  have hkey := h.hostPending key
  by_cases hfull : tcpPoolPerHostMax ≤
      (s.inner.hostAt key).queue.length + (s.inner.hostAt key).pending
  · have hres : s.inner.reserveAt key =
        (false, { s.inner with hosts := s.inner.hosts.insert key (s.inner.hostAt key) }) :=
      if_pos hfull
    have hpos : 0 < (s.inner.hostAt key).queue.length + (s.inner.hostAt key).pending :=
      lt_of_lt_of_le (by decide) hfull
    have hhost : (s.inner.hostAt key).queue.length + (s.inner.hostAt key).pending ≤
        tcpPoolPerHostMax := by
      cases hl : s.inner.hosts.lookup key with
      | some st => exact PoolInner.hostAt_of_some hl ▸ h.perHost key st hl
      | none =>
          rw [PoolInner.hostAt, hl]
          exact Nat.zero_le _
    rw [hres, ← PoolInner.put_of_nonempty (HostState.not_isEmpty hpos)]
    exact h.put key _ (Nat.add_comm ..) (Nat.add_comm ..) h.reserved hkey (fun j _ => rfl) hhost
      h.total
  · have hres : s.inner.reserveAt key = (true, { s.inner with
        hosts := s.inner.hosts.insert key
          { s.inner.hostAt key with pending := (s.inner.hostAt key).pending + 1 }
        totalPending := s.inner.totalPending + 1 }) := if_neg hfull
    rw [hres]
    have hnew : Accounted ⟨{ s.inner.put key
        { s.inner.hostAt key with pending := (s.inner.hostAt key).pending + 1 } with
          totalActual := s.inner.totalActual
          totalPending := s.inner.totalPending + 1 }, key ::ₘ s.reserved⟩ := by
      apply h.put key
      · exact Nat.add_comm ..
      · simp only
        omega
      · rw [Multiset.card_cons, h.reserved]
      · rw [Multiset.count_cons_self, hkey]
      · exact fun j hj => Multiset.count_cons_of_ne hj _
      · simp only
        omega
      · omega
    rw [PoolInner.put_of_nonempty (HostState.not_isEmpty (by simp))] at hnew
    exact hnew

theorem Accounted.tryReserve (h : Accounted s) (key : HostKey) (now : Nat) :
    Accounted ⟨(s.inner.tryReserve key now).2,
      if (s.inner.tryReserve key now).1 then key ::ₘ s.reserved else s.reserved⟩ := by
  rw [PoolInner.tryReserve]
  by_cases hfull : tcpPoolTotalMax ≤ s.inner.totalActual + s.inner.totalPending
  · rw [if_pos hfull]
    have hpruned := h.pruneStale now
    by_cases hstill : tcpPoolTotalMax ≤
        (s.inner.pruneStale now).totalActual + (s.inner.pruneStale now).totalPending
    · simp only [if_pos hstill]
      exact hpruned
    · simp only [if_neg hstill]
      exact hpruned.reserveAt key (Nat.lt_of_not_le hstill)
  · rw [if_neg hfull]
    exact h.reserveAt key (Nat.lt_of_not_le hfull)

/-- A slot that was reserved and is still outstanding. -/
theorem Accounted.pending_pos (h : Accounted s) (hmem : key ∈ s.reserved) :
    0 < (s.inner.hostAt key).pending ∧ 0 < s.inner.totalPending := by
  rw [h.hostPending key, h.reserved]
  exact ⟨Multiset.count_pos.mpr hmem, Multiset.card_pos_iff_exists_mem.mpr ⟨key, hmem⟩⟩

theorem Accounted.lookup_of_mem (h : Accounted s) (hmem : key ∈ s.reserved) :
    s.inner.hosts.lookup key = some (s.inner.hostAt key) := by
  have hpos := (h.pending_pos hmem).1
  rw [PoolInner.hostAt] at hpos ⊢
  cases hl : s.inner.hosts.lookup key with
  | some st => rfl
  | none =>
      rw [hl] at hpos
      cases hpos

theorem Accounted.commitReserve (h : Accounted s) (hmem : key ∈ s.reserved) (stream : τ)
    (now : Nat) :
    Accounted ⟨s.inner.commitReserve key stream now, s.reserved.erase key⟩ := by
  obtain ⟨hpos, htot⟩ := h.pending_pos hmem
  have hhost := h.perHost key _ (h.lookup_of_mem hmem)
  have htotal := h.total
  have hnew : Accounted ⟨{ s.inner.put key
      { queue := (s.inner.hostAt key).queue ++ [⟨stream, now⟩]
        pending := (s.inner.hostAt key).pending - 1 } with
        totalActual := s.inner.totalActual + 1
        totalPending := s.inner.totalPending - 1 }, s.reserved.erase key⟩ := by
    apply h.put key
    · rw [List.length_append, List.length_singleton]
      omega
    · simp only
      omega
    · rw [Multiset.card_erase_of_mem hmem, h.reserved]
      rfl
    · rw [Multiset.count_erase_self, h.hostPending key]
    · exact fun j hj => Multiset.count_erase_of_ne hj _
    · rw [List.length_append, List.length_singleton]
      simp only
      omega
    · omega
  rw [PoolInner.put_of_nonempty (HostState.not_isEmpty (by simp))] at hnew
  exact hnew

theorem Accounted.cancelReserve (h : Accounted s) (hmem : key ∈ s.reserved) :
    Accounted ⟨s.inner.cancelReserve key, s.reserved.erase key⟩ := by
  obtain ⟨hpos, htot⟩ := h.pending_pos hmem
  have hhost := h.perHost key _ (h.lookup_of_mem hmem)
  have htotal := h.total
  have hcancel : s.inner.cancelReserve key = { s.inner.put key
      { s.inner.hostAt key with pending := (s.inner.hostAt key).pending - 1 } with
        totalActual := s.inner.totalActual
        totalPending := s.inner.totalPending - 1 } := by
    rw [PoolInner.cancelReserve, h.lookup_of_mem hmem]
    exact PoolInner.dropIfEmpty_insert
      (p := { s.inner with totalPending := s.inner.totalPending - 1 })
  rw [hcancel]
  apply h.put key
  · exact Nat.add_comm ..
  · simp only
    omega
  · rw [Multiset.card_erase_of_mem hmem, h.reserved]
    rfl
  · rw [Multiset.count_erase_self, h.hostPending key]
  · exact fun j hj => Multiset.count_erase_of_ne hj _
  · simp only
    omega
  · omega

theorem accounted_step (h : Accounted s) {e : PoolEvent τ} (hstep : step s e = some t) :
    Accounted t := by
  cases e with
  | tryTake key now =>
      cases hstep
      exact h.tryTake key now
  | tryReserve key now =>
      cases hstep
      exact h.tryReserve key now
  | commitReserve key stream now =>
      obtain ⟨hmem, heq⟩ := Option.ite_none_right_eq_some.mp hstep
      cases heq
      exact h.commitReserve hmem stream now
  | cancelReserve key =>
      obtain ⟨hmem, heq⟩ := Option.ite_none_right_eq_some.mp hstep
      cases heq
      exact h.cancelReserve hmem

/-- In every state of every run the counters agree with the map and with the reservations
outstanding, no cap is exceeded and no entry is empty, before and after a pruning at any time. -/
theorem tcpPool_accounted (es : List (PoolEvent τ)) :
    StepRun.AllStates step (fun s => Accounted s ∧ ∀ now key st,
      (s.inner.pruneStale now).hosts.lookup key = some st → st.isEmpty = false) init es :=
  StepRun.allStates_of_inv (fun _ _ _ h hstep => accounted_step h hstep)
    (fun _ h => ⟨h, fun _ _ _ => PoolInner.isEmpty_of_lookup_pruneStale⟩) accounted_init es

end PoolSystem

/-! ## The tasks that reserve

`maybe_prewarm` spawns a task that records the connect and, if the host is hot, reserves a slot,
connects, and commits or cancels. Tasks run side by side with the sessions that take connections
out (`open_tcp`). Whether the host is hot and whether the connect succeeds comes from outside.
-/

/-- Where a task of `maybe_prewarm` stands. -/
inductive PrewarmTask where
  | recording (key : HostKey)
  | reserving (key : HostKey)
  | connecting (key : HostKey)
deriving DecidableEq

structure Prewarm (τ : Type) where
  inner : PoolInner τ
  prewarmEnabled : Bool
  tasks : List PrewarmTask

inductive PrewarmEvent (τ : Type) where
  /-- One turn of the loop of `open_tcp`. -/
  | openTcp (key : HostKey) (now : Nat)
  | maybePrewarm (key : HostKey)
  /-- Task `i` of the list ends its current call. -/
  | recorded (i : Nat) (hot : Bool)
  | reserve (i : Nat) (now : Nat)
  | connected (i : Nat) (stream : τ) (now : Nat)
  | connectFailed (i : Nat)

namespace Prewarm

/-- The host of a task that holds a reservation. -/
def slot : PrewarmTask → Option HostKey
  | .connecting key => some key
  | _ => none

def withEnabled (prewarmEnabled : Bool) : Prewarm τ := ⟨PoolInner.new, prewarmEnabled, []⟩

def step (w : Prewarm τ) : PrewarmEvent τ → Option (Prewarm τ)
  | .openTcp key now => some { w with inner := (w.inner.tryTake key now).2 }
  | .maybePrewarm key =>
      some (if w.prewarmEnabled then { w with tasks := .recording key :: w.tasks } else w)
  | .recorded i hot =>
      match w.tasks[i]? with
      | some (.recording key) =>
          some { w with tasks := if hot then w.tasks.set i (.reserving key)
            else w.tasks.eraseIdx i }
      | _ => none
  | .reserve i now =>
      match w.tasks[i]? with
      | some (.reserving key) =>
          let (granted, inner) := w.inner.tryReserve key now
          some { w with
            inner := inner
            tasks := if granted then w.tasks.set i (.connecting key) else w.tasks.eraseIdx i }
      | _ => none
  | .connected i stream now =>
      match w.tasks[i]? with
      | some (.connecting key) =>
          some { w with
            inner := w.inner.commitReserve key stream now, tasks := w.tasks.eraseIdx i }
      | _ => none
  | .connectFailed i =>
      match w.tasks[i]? with
      | some (.connecting key) =>
          some { w with inner := w.inner.cancelReserve key, tasks := w.tasks.eraseIdx i }
      | _ => none

/-- The slots the tasks hold. -/
def slots (tasks : List PrewarmTask) : Multiset HostKey := tasks.filterMap slot

def toSystem (w : Prewarm τ) : PoolSystem τ := ⟨w.inner, slots w.tasks⟩

theorem slots_set {tasks : List PrewarmTask} {i : Nat} {x : PrewarmTask}
    (h : tasks[i]? = some x) (y : PrewarmTask) :
    slots (tasks.set i y) = slots (y :: tasks.eraseIdx i) := by
  obtain ⟨hi, -⟩ := List.getElem?_eq_some_iff.mp h
  exact Multiset.coe_eq_coe.mpr ((List.set_perm_cons_eraseIdx hi y).filterMap slot)

theorem slots_of_getElem? {tasks : List PrewarmTask} {i : Nat} {x : PrewarmTask}
    (h : tasks[i]? = some x) : slots tasks = slots (x :: tasks.eraseIdx i) := by
  obtain ⟨hi, rfl⟩ := List.getElem?_eq_some_iff.mp h
  exact Multiset.coe_eq_coe.mpr ((List.getElem_cons_eraseIdx_perm hi).symm.filterMap slot)

theorem slots_connecting (key : HostKey) (tasks : List PrewarmTask) :
    slots (.connecting key :: tasks) = key ::ₘ slots tasks := rfl

theorem slots_recording (key : HostKey) (tasks : List PrewarmTask) :
    slots (.recording key :: tasks) = slots tasks := rfl

theorem slots_reserving (key : HostKey) (tasks : List PrewarmTask) :
    slots (.reserving key :: tasks) = slots tasks := rfl

/-- **The tasks keep the contract.** A step of the tasks and sessions is an operation on the pool
in which a task gives up just the slot it holds, or leaves the pool and the slots alone. -/
theorem step_toSystem {w v : Prewarm τ} {e : PrewarmEvent τ} (h : step w e = some v) :
    v.toSystem = w.toSystem ∨ ∃ f, w.toSystem.step f = some v.toSystem := by
  cases e with
  | openTcp key now =>
      cases h
      exact Or.inr ⟨.tryTake key now, rfl⟩
  | maybePrewarm key =>
      cases h
      left
      by_cases hen : w.prewarmEnabled = true
      · rw [if_pos hen]
        rfl
      · rw [if_neg hen]
  | recorded i hot =>
      simp only [step] at h
      split at h
      next key hi =>
        cases h
        left
        -- a task that records holds no slot
        have hold : slots w.tasks = slots (w.tasks.eraseIdx i) :=
          (slots_of_getElem? hi).trans (slots_recording key _)
        cases hot with
        | false => exact congrArg (PoolSystem.mk w.inner) hold.symm
        | true => exact congrArg (PoolSystem.mk w.inner) ((slots_set hi _).trans hold.symm)
      next => cases h
  | reserve i now =>
      simp only [step] at h
      split at h
      next key hi =>
        cases h
        right
        -- nor does one that asks for a slot
        have hold : slots w.tasks = slots (w.tasks.eraseIdx i) :=
          (slots_of_getElem? hi).trans (slots_reserving key _)
        refine ⟨.tryReserve key now, ?_⟩
        show some (PoolSystem.mk (w.inner.tryReserve key now).2
          (if (w.inner.tryReserve key now).1 then key ::ₘ slots w.tasks else slots w.tasks)) =
          some (PoolSystem.mk (w.inner.tryReserve key now).2 (slots (if
            (w.inner.tryReserve key now).1 then w.tasks.set i (.connecting key)
            else w.tasks.eraseIdx i)))
        cases (w.inner.tryReserve key now).1 with
        | true =>
            simp only [if_true]
            rw [slots_set hi, slots_connecting, hold]
        | false =>
            simp only [Bool.false_eq_true, if_false]
            rw [hold]
      next => cases h
  | connected i stream now =>
      simp only [step] at h
      split at h
      next key hi =>
        cases h
        right
        -- a task that connects gives up the slot it holds
        have hold : slots w.tasks = key ::ₘ slots (w.tasks.eraseIdx i) :=
          (slots_of_getElem? hi).trans (slots_connecting key _)
        refine ⟨.commitReserve key stream now, ?_⟩
        rw [toSystem, hold, PoolSystem.step, if_pos (Multiset.mem_cons_self key _),
          Multiset.erase_cons_head]
        rfl
      next => cases h
  | connectFailed i =>
      simp only [step] at h
      split at h
      next key hi =>
        cases h
        right
        have hold : slots w.tasks = key ::ₘ slots (w.tasks.eraseIdx i) :=
          (slots_of_getElem? hi).trans (slots_connecting key _)
        refine ⟨.cancelReserve key, ?_⟩
        rw [toSystem, hold, PoolSystem.step, if_pos (Multiset.mem_cons_self key _),
          Multiset.erase_cons_head]
        rfl
      next => cases h

/-- So the pool of the running node is accounted for: what is pending is what the connecting tasks
hold. -/
theorem prewarm_accounted (prewarmEnabled : Bool) (es : List (PrewarmEvent τ)) :
    StepRun.AllStates step (fun w => PoolSystem.Accounted w.toSystem) (withEnabled prewarmEnabled)
      es := by
  have h0 : PoolSystem.Accounted (toSystem (withEnabled prewarmEnabled : Prewarm τ)) :=
    PoolSystem.accounted_init
  refine StepRun.allStates_of_inv (I := fun w : Prewarm τ => PoolSystem.Accounted w.toSystem)
    (fun w e v hw hstep => ?_) (fun _ h => h) h0 es
  rcases step_toSystem hstep with hsame | ⟨f, hf⟩
  · exact hsame ▸ hw
  · exact PoolSystem.accounted_step hw hf

end Prewarm

end Rahgozar.Tunnel
