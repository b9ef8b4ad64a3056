import Rahgozar.Proxy.UdpSessions

set_option autoImplicit false

/-! # Sessions of the UDP relay and their closing

The last act of a session's task is `close_session`. When the client hangs up, the tasks are aborted
and the sessions in the map are closed instead. This reaches every session as long as one whose task
has not come to its end is still in the map.
-/

namespace Rahgozar.Proxy

/-- The sids that the teardown has still to close, once it has taken its snapshot. -/
def UdpLoopPhase.toSweep : UdpLoopPhase → Option (List String)
  | .sweeping sids => some sids
  | .returned => some []
  | _ => none

namespace UdpAssociate

variable {s t : UdpAssociate} {i : Nat} {task task' : UdpTask}

/-! ## The rule and the condition -/

/-- When `handle_socks5_udp_associate` has returned, every session it opened has been closed. -/
def ClosesAll (s : UdpAssociate) : Prop := s.loop = .returned → ∀ sid ∈ s.opened, sid ∈ s.closed

/-- At the teardown's snapshot the sessions whose tasks have yet to call `close_session` are in the
map. -/
def KeptInMap (s : UdpAssociate) : UdpEvent → Prop
  | .snapshot => ∀ task ∈ s.tasks, task.phase.closeCalled = false → task.sid ∈ s.state.liveSids
  | _ => True

instance (s : UdpAssociate) (e : UdpEvent) : Decidable (s.KeptInMap e) :=
  match e with
  | .snapshot => inferInstanceAs (Decidable (∀ task ∈ s.tasks,
      task.phase.closeCalled = false → task.sid ∈ s.state.liveSids))
  | .recv _ _ | .hangUp | .lookup | .evict | .opened _ | .insert | .sweep | .start _ _
  | .uplink _ _ | .wake _ _ | .response _ _ _ | .closeDone _ | .selfRemove _ | .cancel _ =>
      inferInstanceAs (Decidable True)

/-! ## The invariant -/

/-- Every session is that of a task; a task in or after `close_session` has called it; and the
teardown leaves out nobody. -/
structure Accounted (s : UdpAssociate) : Prop where
  opened : s.opened = s.tasks.map UdpTask.sid
  called : ∀ task ∈ s.tasks, task.phase.closeCalled = true → task.sid ∈ s.closed
  swept : ∀ sids ∈ s.loop.toSweep, ∀ task ∈ s.tasks, task.sid ∈ s.closed ∨ task.sid ∈ sids

theorem accounted_init (config : UdpConfig) : (init config).Accounted where
  opened := rfl
  called _ h := by cases h
  swept _ h := by cases h

theorem Accounted.closesAll (h : s.Accounted) : s.ClosesAll := by
  intro hret sid hsid
  rw [h.opened] at hsid
  obtain ⟨task, htask, rfl⟩ := List.mem_map.mp hsid
  exact (h.swept [] (by rw [hret]; rfl) task htask).resolve_right (by simp)

/-- The frame of a step that leaves the tasks as they are, outside of the teardown. -/
theorem Accounted.goto (h : s.Accounted) (hopened : t.opened = s.opened)
    (htasks : t.tasks = s.tasks) (hclosed : t.closed = s.closed) (hloop : t.loop.toSweep = none) :
    t.Accounted := by
  refine ⟨by rw [hopened, htasks, h.opened], fun task htask hcalled => ?_, fun sids hsids => ?_⟩
  · rw [htasks] at htask
    rw [hclosed]
    exact h.called task htask hcalled
  · rw [hloop] at hsids
    cases hsids

/-- A task gets on, and notes its call of `close_session`. -/
theorem Accounted.set (h : s.Accounted) (htask : s.tasks[i]? = some task)
    (htasks : t.tasks = s.tasks.set i task') (hsid : task'.sid = task.sid)
    (hopened : t.opened = s.opened) (hloop : t.loop.toSweep = s.loop.toSweep)
    (hclosed : s.closed ⊆ t.closed)
    (hcalled : task'.phase.closeCalled = true → task.sid ∈ t.closed) : t.Accounted := by
  have hmem : task ∈ s.tasks := List.mem_iff_getElem?.mpr ⟨i, htask⟩
  refine ⟨?_, fun other hother hc => ?_, fun sids hsids other hother => ?_⟩
  · rw [hopened, htasks, h.opened, map_set_eq _ htask hsid]
  · rw [htasks] at hother
    rcases List.mem_or_eq_of_mem_set hother with hother | rfl
    · exact hclosed (h.called other hother hc)
    · rw [hsid]
      exact hcalled hc
  · rw [hloop] at hsids
    rw [htasks] at hother
    rcases List.mem_or_eq_of_mem_set hother with hother | rfl
    · exact (h.swept sids hsids other hother).imp_left fun hin => hclosed hin
    · rw [hsid]
      exact (h.swept sids hsids task hmem).imp_left fun hin => hclosed hin

theorem Accounted.advance (h : s.Accounted) (htask : s.tasks[i]? = some task)
    (hadv : s.Advances task task') : (s.advance i task').Accounted := by
  have hclosed : s.closed ⊆ (s.advance i task').closed := by
    intro sid hsid
    change sid ∈ if _ then s.closed ++ [task'.sid] else s.closed
    split_ifs
    · exact List.mem_append_left _ hsid
    · exact hsid
  refine h.set htask rfl hadv.sid rfl rfl hclosed fun hcalled => ?_
  rcases hadv.called hcalled with hclosing | hbefore
  · change task.sid ∈ if _ then s.closed ++ [task'.sid] else s.closed
    rw [if_pos hclosing, hadv.sid]
    exact List.mem_append_right _ List.mem_cons_self
  · exact hclosed (h.called task (List.mem_iff_getElem?.mpr ⟨i, htask⟩) hbefore)

theorem Accounted.trySend (h : s.Accounted) (uplink : Nat) (payload : List UInt8) :
    Accounted { s.trySend uplink payload with loop := .select } := by
  have hback : Accounted { s with loop := .select } := h.goto rfl rfl rfl rfl
  unfold UdpAssociate.trySend
  split
  · exact hback
  · rename_i task htask
    split
    all_goals first | exact hback | skip
    split_ifs
    · exact hback.set htask rfl rfl rfl rfl (List.Subset.refl _) fun hcalled =>
        h.called task (List.mem_iff_getElem?.mpr ⟨uplink, htask⟩) hcalled
    · exact hback

theorem Accounted.loopStep {e : UdpEvent} (h : s.Accounted) (hkept : s.KeptInMap e)
    (ht : s.loopStep e = some t) : t.Accounted := by
  unfold UdpAssociate.loopStep at ht
  split at ht <;> cases ht <;> rename_i hloop
  · rename_i peer packet
    rcases recv_cases s peer packet with ⟨addr, heq⟩ | ⟨addr, target, payload, heq⟩
    · rw [heq]
      exact h.goto rfl rfl rfl (by rw [hloop]; rfl)
    · rw [heq]
      exact h.goto rfl rfl rfl rfl
  · exact h.goto rfl rfl rfl rfl
  · unfold UdpAssociate.lookup
    split
    · exact h.trySend _ _
    · exact h.goto rfl rfl rfl rfl
  · exact h.goto rfl rfl rfl rfl
  · rename_i result target
    rcases afterOpen_cases s target result with heq | ⟨sid, heq⟩
    · rw [heq]
      exact h.goto rfl rfl rfl rfl
    · rw [heq]
      refine ⟨by simp [h.opened], fun task htask hcalled => ?_, fun _ hsids => by cases hsids⟩
      rcases List.mem_append.mp htask with htask | htask
      · exact h.called task htask hcalled
      · rw [List.mem_singleton.mp htask] at hcalled
        cases hcalled
  · exact h.goto rfl rfl rfl rfl
  · -- the snapshot: who has not called `close_session` is in it
    refine ⟨h.opened, h.called, fun sids hsids task htask => ?_⟩
    cases hsids
    cases hcalled : task.phase.closeCalled with
    | true => exact .inl (h.called task htask hcalled)
    | false => exact .inr (hkept task htask hcalled)
  · -- one sid is closed
    rename_i sid sids
    refine ⟨h.opened, fun task htask hcalled => List.mem_append_left _ (h.called task htask hcalled),
      fun sids' hsids task htask => ?_⟩
    cases hsids
    rcases h.swept _ (by rw [hloop]; rfl) task htask with hin | hin
    · exact .inl (List.mem_append_left _ hin)
    · rcases List.mem_cons.mp hin with hin | hin
      · exact .inl (List.mem_append_right _ (by rw [hin]; exact List.mem_cons_self))
      · exact .inr hin
  · exact ⟨h.opened, h.called, fun sids hsids => h.swept sids (by rw [hloop]; exact hsids)⟩

theorem Accounted.step {e : UdpEvent} (h : s.Accounted) (hkept : s.KeptInMap e)
    (ht : s.step e = some t) : t.Accounted := by
  unfold UdpAssociate.step at ht
  split at ht
  · exact h.loopStep hkept ht
  · obtain ⟨task, htask, hstep⟩ := Option.bind_eq_some_iff.mp ht
    rcases taskStep_cases hstep with ⟨-, task', rfl, hadv⟩ | ⟨j, -, hended, rfl⟩
    · exact h.advance htask hadv
    · exact h.set htask rfl rfl rfl rfl (List.Subset.refl _) fun _ =>
        h.called task (List.mem_iff_getElem?.mpr ⟨_, htask⟩) (by rw [hended]; rfl)

/-- **Every session is closed** in a run whose teardown finds the sessions that are still to be
closed in the map. -/
theorem closesAll_run (config : UdpConfig) (es : List UdpEvent)
    (h : StepRun.AllSteps step KeptInMap (init config) es) :
    StepRun.AllStates step ClosesAll (init config) es :=
  StepRun.allStates_of_allSteps (I := Accounted) (fun _ _ _ hi hc ht => hi.step hc ht)
    (fun _ hi => hi.closesAll) (accounted_init config) h

/-- One session, closed by the teardown after the client has hung up. -/
theorem closesAll_dns :
    (StepRun.run step (init loopback) (openDns ++ [.insert, .hangUp, .snapshot, .cancel 0, .sweep,
      .sweep])).any (fun s => decide (s.loop = .returned) && decide ("s" ∈ s.opened)) = true ∧
      StepRun.AllStates step ClosesAll (init loopback) (openDns ++ [.insert, .hangUp, .snapshot,
        .cancel 0, .sweep, .sweep]) :=
  ⟨by decide +kernel, closesAll_run loopback _ (by decide +kernel)⟩

/-! ## A session that is not closed

The map is full when a datagram for one more target comes. The oldest session is evicted while its
task is in `udp_data`; then the client hangs up. -/

def manyTarget (k : Nat) : SocksUdpTarget := ⟨"a", UInt16.ofNat k, 3, [97]⟩

def manySid (k : Nat) : String := String.ofList (List.replicate (k + 1) 's')

/-- A datagram for the target of the number `k`, and its session. -/
def openMany (k : Nat) : List UdpEvent :=
  [.recv ⟨[127, 0, 0, 1], 5000⟩ (some (manyTarget k, [1])), .lookup, .evict,
    .opened (.ok ⟨some (manySid k), none, none, none, none, none, none⟩), .insert]

theorem manyTarget_inj {j k : Nat} (hj : j < 2 ^ 16) (hk : k < 2 ^ 16)
    (h : manyTarget j = manyTarget k) : j = k := by
  have hport : UInt16.ofNat j = UInt16.ofNat k := congrArg SocksUdpTarget.port h
  have hnat := congrArg UInt16.toNat hport
  rwa [UInt16.toNat_ofNat_of_lt' hj, UInt16.toNat_ofNat_of_lt' hk] at hnat

theorem manySid_inj {j k : Nat} (h : manySid j = manySid k) : j = k := by
  have hlen := congrArg (fun s : String => s.toList.length) h
  simp only [manySid, String.toList_ofList, List.length_replicate] at hlen
  omega

/-- The state with one more session. -/
def withSession (s : UdpAssociate) (k : Nat) : UdpAssociate :=
  { s with
    clientAddr := some ⟨[127, 0, 0, 1], 5000⟩
    state := s.state.insert (manyTarget k) ⟨manySid k, s.tasks.length⟩
    tasks := s.tasks ++ [⟨manyTarget k, manySid k, [], .spawned⟩]
    opened := s.opened ++ [manySid k] }

/-- At its select, the loop opens a session for a target it does not know. -/
theorem run_openMany {k : Nat} (hloop : s.loop = .select) (hconfig : s.config = loopback)
    (haddr : s.clientAddr = none ∨ s.clientAddr = some ⟨[127, 0, 0, 1], 5000⟩)
    (hnew : manyTarget k ∉ s.state.sessions) :
    StepRun.run step s (openMany k) = some (withSession { s.evict (manyTarget k) with
      loop := .select } k) := by
  have hrecv : s.recv ⟨[127, 0, 0, 1], 5000⟩ (some (manyTarget k, [1])) =
      { s with
        clientAddr := some ⟨[127, 0, 0, 1], 5000⟩
        loop := .lookup (manyTarget k) [1] } := by
    rcases haddr with haddr | haddr <;>
      simp [recv, hconfig, loopback, haddr, maxUdpPayloadBytes]
  have hlookup : s.state.getUplink (manyTarget k) = none := by
    rw [UdpRelayState.getUplink, AList.lookup_eq_none.mpr hnew]
    rfl
  simp only [openMany, StepRun.run, step, UdpEvent.task, loopStep, hloop, hrecv, Option.bind_some,
    UdpAssociate.lookup, hlookup]
  rfl

theorem evictLoop_of_lt {cap : Nat} {sessions : UdpSessions} (h : sessions.entries.length < cap)
    (order : List SocksUdpTarget) :
    UdpRelayState.evictLoop cap order sessions = (⟨sessions, order⟩, []) := by
  cases order with
  | nil => rfl
  | cons victim order => rw [UdpRelayState.evictLoop, if_neg (by omega)]

/-- A full map: the oldest session goes. -/
theorem evictLoop_of_eq {cap : Nat} {sessions : UdpSessions} {victim : SocksUdpTarget}
    {order : List SocksUdpTarget} (h : UdpRelayState.Lockstep ⟨sessions, victim :: order⟩)
    (hlen : sessions.entries.length = cap) :
    UdpRelayState.evictLoop cap (victim :: order) sessions =
      (⟨sessions.erase victim, order⟩, [victim]) := by
  have hmem : victim ∈ sessions := (h.keys victim).mp List.mem_cons_self
  have hless : (sessions.erase victim).entries.length < cap := by
    have hrest := (h.remove victim).length_eq
    have hall := h.length_eq
    simp only [UdpRelayState.remove, List.erase_cons_head, List.length_cons] at hrest hall
    omega
  rw [UdpRelayState.evictLoop, if_pos hlen.ge, evictLoop_of_lt hless]
  simp only [AList.lookup_isSome.mpr hmem, if_true]

/-- The oldest task, before it has run and in its first poll. -/
def oldest (phase : UdpTaskPhase) : UdpTask := ⟨manyTarget 0, manySid 0, [], phase⟩

/-- The state after the sessions with the numbers below `n`. -/
structure Filled (n : Nat) (phase : UdpTaskPhase) (s : UdpAssociate) : Prop where
  inv : s.Inv
  loop : s.loop = .select
  config : s.config = loopback
  addr : s.clientAddr = none ∨ s.clientAddr = some ⟨[127, 0, 0, 1], 5000⟩
  closed : s.closed = []
  opened : s.opened = (List.range n).map manySid
  sids : s.tasks.map UdpTask.sid = (List.range n).map manySid
  order : s.state.order = (List.range n).map manyTarget
  oldest : 0 < n → s.tasks[0]? = some (oldest phase)
  entry : 0 < n → s.state.sessions.lookup (manyTarget 0) = some ⟨manySid 0, 0⟩

theorem Filled.length {n : Nat} {phase : UdpTaskPhase} (h : Filled n phase s) :
    s.tasks.length = n ∧ s.state.sessions.entries.length = n := by
  constructor
  · simpa using congrArg List.length h.sids
  · rw [h.inv.tidy.1.length_eq, h.order, List.length_map, List.length_range]

theorem Filled.notMem {n : Nat} {phase : UdpTaskPhase} (h : Filled n phase s) (hn : n < 2 ^ 16) :
    manyTarget n ∉ s.state.sessions := by
  intro hmem
  rw [← h.inv.tidy.1.keys, h.order, List.mem_map] at hmem
  obtain ⟨k, hk, heq⟩ := hmem
  rw [List.mem_range] at hk
  have := manyTarget_inj (by omega) hn heq
  omega

/-- While there is room, nobody is evicted. -/
theorem Filled.run_openMany {n : Nat} (h : Filled n .spawned s)
    (hn : n < maxUdpSessionsPerAssociate) :
    ∃ t, StepRun.run step s (openMany n) = some t ∧ Filled (n + 1) .spawned t := by
  have hn' : n < 2 ^ 16 := lt_trans hn (by decide)
  have hopen := UdpAssociate.run_openMany h.loop h.config h.addr (h.notMem hn')
  have hevict : s.evict (manyTarget n) = { s with loop := .opening (manyTarget n) } := by
    simp only [evict, UdpRelayState.evictUntilUnder, evictLoop_of_lt (h.length.2.trans_lt hn),
      List.filterMap_nil, List.append_nil]
  rw [hevict] at hopen
  refine ⟨_, hopen, h.inv.run hopen, rfl, h.config, .inr rfl, h.closed, ?_, ?_, ?_, fun _ => ?_,
    fun _ => ?_⟩
  · simp [withSession, h.opened, List.range_succ]
  · simp [withSession, h.sids, List.range_succ]
  · simp [withSession, UdpRelayState.insert, h.order, List.range_succ]
  · change (s.tasks ++ [_])[0]? = _
    rcases Nat.eq_zero_or_pos n with rfl | hpos
    · rw [List.eq_nil_of_length_eq_zero h.length.1]
      rfl
    · rw [List.getElem?_append_left (by rw [h.length.1]; exact hpos)]
      exact h.oldest hpos
  · change (s.state.sessions.insert (manyTarget n) _).lookup (manyTarget 0) = _
    rcases Nat.eq_zero_or_pos n with rfl | hpos
    · rw [AList.lookup_insert, h.length.1]
    · rw [AList.lookup_insert_ne fun heq => ?_]
      · exact h.entry hpos
      · have := manyTarget_inj (by decide) hn' heq
        omega

def fill (n : Nat) : List UdpEvent := (List.range n).flatMap openMany

theorem exists_filled (n : Nat) (hn : n ≤ maxUdpSessionsPerAssociate) :
    ∃ s, StepRun.run step (init loopback) (fill n) = some s ∧ Filled n .spawned s := by
  induction n with
  | zero =>
      exact ⟨_, rfl, inv_init loopback, rfl, rfl, .inl rfl, rfl, rfl, rfl, rfl,
        fun hpos => absurd hpos (lt_irrefl 0), fun hpos => absurd hpos (lt_irrefl 0)⟩
  | succ n ih =>
      obtain ⟨s, hrun, hfilled⟩ := ih (by omega)
      obtain ⟨t, hopen, hfilled'⟩ := hfilled.run_openMany hn
      refine ⟨t, ?_, hfilled'⟩
      rw [fill, List.range_succ, List.flatMap_append, List.flatMap_singleton, StepRun.run_append]
      change (StepRun.run step (init loopback) (fill n)).bind _ = _
      rw [hrun, Option.bind_some, hopen]

/-- The task of the oldest session polls. -/
def pollOldest : List UdpEvent := [.start 0 0, .wake 0 udpInitialPollDelay]

theorem Filled.run_pollOldest {n : Nat} (h : Filled (n + 1) .spawned s) :
    ∃ t, StepRun.run step s pollOldest = some t ∧
      Filled (n + 1) (.polling 0 udpInitialPollDelay) t := by
  have hfirst := h.oldest (Nat.succ_pos n)
  set waiting := UdpAssociate.oldest (.waiting 0 udpInitialPollDelay udpInitialPollDelay)
  set polling := UdpAssociate.oldest (.polling 0 udpInitialPollDelay)
  set u : UdpAssociate := { s with tasks := s.tasks.set 0 waiting }
  have hstart : step s (.start 0 0) = some u := by
    simp only [step, UdpEvent.task, hfirst, Option.bind_some, taskStep]
    rfl
  have hwaiting : u.tasks[0]? = some waiting := by
    rw [getElem?_set_some hfirst, if_pos rfl]
  have halive : u.senderAlive 0 = true := by
    have hentry := AList.mem_lookup_iff.mp (h.entry (Nat.succ_pos n))
    simp only [senderAlive, Bool.or_eq_true, List.any_eq_true]
    exact .inr ⟨_, hentry, by decide⟩
  have hwake : step u (.wake 0 udpInitialPollDelay) =
      some { s with tasks := s.tasks.set 0 polling } := by
    simp only [step, UdpEvent.task, hwaiting, Option.bind_some, taskStep]
    change (if waiting.queue = [] ∧ u.senderAlive 0 = true ∧
      udpInitialPollDelay ≤ udpInitialPollDelay then _ else none) = _
    rw [if_pos ⟨rfl, halive, le_rfl⟩]
    simp [advance, u, polling, waiting, UdpAssociate.oldest]
  have hrun : StepRun.run step s pollOldest = some { s with tasks := s.tasks.set 0 polling } := by
    simp only [pollOldest, StepRun.run, hstart, hwake, Option.bind_some]
  refine ⟨_, hrun, h.inv.run hrun, h.loop, h.config, h.addr, h.closed, h.opened, ?_, h.order,
    fun _ => ?_, h.entry⟩
  · have hsid : polling.sid = (UdpAssociate.oldest .spawned).sid := rfl
    exact (map_set_eq UdpTask.sid hfirst hsid).trans h.sids
  · rw [getElem?_set_some hfirst, if_pos rfl]

/-- The teardown closes the sids of its snapshot. -/
theorem run_sweep (sids : List String) (hloop : s.loop = .sweeping sids) :
    StepRun.run step s (List.replicate (sids.length + 1) .sweep) =
      some { s with closed := s.closed ++ sids, loop := .returned } := by
  induction sids generalizing s with
  | nil => simp [StepRun.run, step, UdpEvent.task, loopStep, hloop]
  | cons sid sids ih =>
      rw [List.length_cons, List.replicate_succ, StepRun.run_cons]
      simp only [step, UdpEvent.task, loopStep, hloop, Option.bind_some]
      rw [ih rfl]
      simp

/-- A session more than the map holds: the oldest is not in the map any more. -/
theorem Filled.run_evicting {phase : UdpTaskPhase}
    (h : Filled maxUdpSessionsPerAssociate phase s) :
    ∃ t, StepRun.run step s (openMany maxUdpSessionsPerAssociate) = some t ∧ t.loop = .select ∧
      t.closed = [] ∧ t.tasks[0]? = some (UdpAssociate.oldest phase) ∧ manySid 0 ∈ t.opened ∧
      t.state.liveSids.length = maxUdpSessionsPerAssociate ∧
      manySid 0 ∉ t.state.liveSids := by
  have hopen := UdpAssociate.run_openMany h.loop h.config h.addr (h.notMem (by decide))
  set t : UdpAssociate := withSession
    { s.evict (manyTarget maxUdpSessionsPerAssociate) with loop := .select }
    maxUdpSessionsPerAssociate
  have hinv : t.Inv := h.inv.run hopen
  -- the first session is the one at the front of the order
  have horder : s.state.order = manyTarget 0 ::
      (List.range 255).map (fun k => manyTarget (k + 1)) := by
    rw [h.order, maxUdpSessionsPerAssociate, List.range_succ_eq_map, List.map_cons, List.map_map]
    rfl
  have hevict : s.state.evictUntilUnder maxUdpSessionsPerAssociate =
      (⟨s.state.sessions.erase (manyTarget 0), (List.range 255).map fun k => manyTarget (k + 1)⟩,
        [manyTarget 0]) := by
    have hlock := h.inv.tidy.1
    rw [show s.state = ⟨s.state.sessions, s.state.order⟩ from rfl, horder] at hlock
    rw [UdpRelayState.evictUntilUnder, horder]
    exact evictLoop_of_eq hlock h.length.2
  -- and its task the one that is evicted
  have hevicted : 0 ∈ t.evicted := by
    change 0 ∈ s.evicted ++
      (s.state.evictUntilUnder maxUdpSessionsPerAssociate).2.filterMap s.state.getUplink
    rw [hevict]
    refine List.mem_append_right _ (List.mem_filterMap.mpr ⟨manyTarget 0, List.mem_cons_self, ?_⟩)
    rw [UdpRelayState.getUplink, h.entry (by decide)]
    rfl
  -- no two tasks have the same sid
  have hsids : t.tasks.map UdpTask.sid = (List.range 257).map manySid := by
    rw [List.range_succ, List.map_append, show (256 : Nat) = maxUdpSessionsPerAssociate from rfl,
      ← h.sids]
    exact List.map_append
  refine ⟨t, hopen, rfl, h.closed, ?_, ?_, ?_, ?_⟩
  · change (s.tasks ++ [_])[0]? = _
    rw [List.getElem?_append_left (by rw [h.length.1]; decide)]
    exact h.oldest (by decide)
  · change manySid 0 ∈ s.opened ++ [_]
    rw [h.opened]
    refine List.mem_append_left _ ?_
    exact List.mem_map.mpr ⟨0, List.mem_range.mpr (by decide), rfl⟩
  · rw [UdpRelayState.liveSids, List.length_map, hinv.tidy.1.length_eq]
    change ((s.state.evictUntilUnder maxUdpSessionsPerAssociate).1.order ++ [_]).length = _
    rw [hevict]
    simp [maxUdpSessionsPerAssociate]
  · -- an entry is that of a task that was not evicted, and the sids are all different
    intro hmem
    obtain ⟨⟨target, session⟩, hentry, hsid⟩ := List.mem_map.mp hmem
    obtain ⟨hnot, task, htask, -, htasksid⟩ := hinv.owner target session
      (AList.mem_lookup_iff.mpr hentry)
    have hmap : (t.tasks.map UdpTask.sid)[session.uplink]? = some (manySid 0) := by
      rw [List.getElem?_map, htask, Option.map_some, htasksid, hsid]
    rw [hsids, List.getElem?_map] at hmap
    obtain ⟨k, hk, hkeq⟩ := Option.map_eq_some_iff.mp hmap
    obtain ⟨hlt, hget⟩ := List.getElem?_eq_some_iff.mp hk
    rw [List.getElem_range] at hget
    rw [hget, manySid_inj hkeq] at hnot
    exact hnot hevicted

/-- The client hangs up, the polling task is aborted, and the snapshot is closed. -/
def hangUpPolling : List UdpEvent :=
  fill maxUdpSessionsPerAssociate ++ (pollOldest ++ (openMany maxUdpSessionsPerAssociate ++
    ([.hangUp, .snapshot, .cancel 0] ++
      List.replicate (maxUdpSessionsPerAssociate + 1) .sweep)))

theorem run_hangUp (hloop : s.loop = .select)
    (htask : s.tasks[0]? = some (oldest (.polling 0 udpInitialPollDelay))) :
    StepRun.run step s ([.hangUp, .snapshot, .cancel 0] ++
      List.replicate (s.state.liveSids.length + 1) .sweep) =
    some { s with
      state := .new
      tasks := s.tasks.set 0 (oldest .cancelled)
      closed := s.closed ++ s.state.liveSids
      loop := .returned } := by
  have hcancel : StepRun.run step s [.hangUp, .snapshot, .cancel 0] = some { s.snapshot with
      tasks := s.tasks.set 0 (oldest .cancelled) } := by
    simp only [StepRun.run, step, UdpEvent.task, loopStep, hloop, Option.bind_some, snapshot, htask,
      taskStep, oldest, aborted, advance, if_true]
    rfl
  rw [StepRun.run_append, hcancel, Option.bind_some, run_sweep s.state.liveSids rfl]
  rfl

/-- A session that was evicted in the middle of a poll is not closed by anybody. -/
theorem evicted_session_not_closed :
    ¬ StepRun.AllStates step ClosesAll (init loopback) hangUpPolling := by
  intro hall
  obtain ⟨s, hfill, hfilled⟩ := exists_filled maxUdpSessionsPerAssociate le_rfl
  obtain ⟨u, hpoll, hpolled⟩ := hfilled.run_pollOldest
  obtain ⟨v, hopen, hloop, hclosed, htask, hsid, hlen, hnot⟩ := hpolled.run_evicting
  have hhang := run_hangUp hloop htask
  have hrun : StepRun.run step (init loopback) hangUpPolling =
      StepRun.run step v ([.hangUp, .snapshot, .cancel 0] ++
        List.replicate (v.state.liveSids.length + 1) .sweep) := by
    rw [hangUpPolling, StepRun.run_append, hfill, Option.bind_some, StepRun.run_append, hpoll,
      Option.bind_some, StepRun.run_append, hopen, Option.bind_some, hlen]
  have hin := StepRun.allStates_last hall (hrun.trans hhang) rfl (manySid 0) hsid
  change manySid 0 ∈ v.closed ++ v.state.liveSids at hin
  rw [hclosed, List.nil_append] at hin
  exact hnot hin

end UdpAssociate

end Rahgozar.Proxy
