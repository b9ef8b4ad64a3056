import Rahgozar.Proxy.UdpRelay

set_option autoImplicit false

/-! # Sessions of the UDP relay and their tasks

Insertion order and map stay in step, and the map stays under its cap. A task takes its session out
of the map after `udp_session_task` has returned, under the name of the target alone. So an entry
belongs to a task that has yet to do this as long as the removal comes after the insertion of the
entry, and does not meet the entry of a later session for the same target.
-/

namespace Rahgozar.Proxy

/-! ## Map and insertion order -/

namespace UdpRelayState

/-- `order` has exactly the keys of `sessions`, each once. -/
structure Lockstep (r : UdpRelayState) : Prop where
  nodup : r.order.Nodup
  keys : ∀ target, target ∈ r.order ↔ target ∈ r.sessions

variable {r : UdpRelayState} {target : SocksUdpTarget} {session : UdpRelaySession}

theorem lockstep_new : new.Lockstep := ⟨List.nodup_nil, fun _ => by simp [new]⟩

theorem Lockstep.insert (h : r.Lockstep) (hnew : target ∉ r.sessions) :
    (r.insert target session).Lockstep := by
  constructor
  · refine List.nodup_append.mpr ⟨h.nodup, List.nodup_singleton _, fun a ha b hb => ?_⟩
    rw [List.mem_singleton.mp hb]
    rintro rfl
    exact hnew ((h.keys a).mp ha)
  · intro a
    simp only [UdpRelayState.insert, List.mem_append, List.mem_singleton, AList.mem_insert, h.keys]
    exact Or.comm

theorem Lockstep.remove (h : r.Lockstep) (target : SocksUdpTarget) :
    (r.remove target).Lockstep := by
  refine ⟨h.nodup.erase _, fun a => ?_⟩
  rw [UdpRelayState.remove, h.nodup.mem_erase_iff, AList.mem_erase, h.keys]

theorem Lockstep.length_eq (h : r.Lockstep) : r.sessions.entries.length = r.order.length := by
  have hperm : r.sessions.keys.Perm r.order :=
    (List.perm_ext_iff_of_nodup r.sessions.keys_nodup h.nodup).mpr fun a => (h.keys a).symm
  rw [← hperm.length_eq, AList.keys, List.keys, List.length_map]

/-- What an eviction leaves: fewer sessions than the cap, each as it was. -/
structure EvictedTo (r : UdpRelayState) (cap : Nat) (r' : UdpRelayState)
    (victims : List SocksUdpTarget) : Prop where
  lockstep : r'.Lockstep
  under : r'.sessions.entries.length < cap
  kept : ∀ target session, r'.sessions.lookup target = some session ↔
    r.sessions.lookup target = some session ∧ target ∉ victims

theorem evictLoop_spec {cap : Nat} (hcap : 0 < cap) {order : List SocksUdpTarget}
    {sessions : UdpSessions} (h : Lockstep ⟨sessions, order⟩) :
    EvictedTo ⟨sessions, order⟩ cap (evictLoop cap order sessions).1
      (evictLoop cap order sessions).2 := by
  induction order generalizing sessions with
  | nil =>
      have hnil : sessions.entries = [] := by
        refine List.eq_nil_iff_forall_not_mem.mpr fun e he => ?_
        have hmem := (h.keys e.1).mpr (List.mem_keys_of_mem he)
        cases hmem
      exact ⟨h, by simpa [evictLoop, hnil] using hcap, fun _ _ => by simp [evictLoop]⟩
  | cons victim order ih =>
      obtain ⟨hvictim, hnodup⟩ := List.nodup_cons.mp h.nodup
      have hmem : victim ∈ sessions := (h.keys victim).mp List.mem_cons_self
      simp only [evictLoop]
      split_ifs with hlen hsome
      · have hrest : Lockstep ⟨sessions.erase victim, order⟩ := by
          refine ⟨hnodup, fun a => ?_⟩
          rw [AList.mem_erase, ← h.keys a]
          by_cases ha : a = victim
          · subst ha
            simpa using hvictim
          · simp [ha]
        obtain ⟨hlock, hunder, hkept⟩ := ih hrest
        refine ⟨hlock, hunder, fun a session => ?_⟩
        rw [hkept, AList.lookup_erase_eq_some, List.mem_cons, not_or]
        tauto
      · exact absurd (AList.lookup_isSome.mpr hmem) hsome
      · exact ⟨h, Nat.lt_of_not_le hlen, fun _ _ => by simp⟩

theorem Lockstep.evictUntilUnder (h : r.Lockstep) (cap : Nat) (hcap : 0 < cap) :
    r.EvictedTo cap (r.evictUntilUnder cap).1 (r.evictUntilUnder cap).2 :=
  evictLoop_spec hcap h

end UdpRelayState

/-! ## What a task can do -/

/-- `udp_session_task` has returned, or will not go on. -/
def UdpTaskPhase.finished : UdpTaskPhase → Bool
  | .ended | .removed | .cancelled => true
  | _ => false

/-- The task has called `close_session`. -/
def UdpTaskPhase.closeCalled : UdpTaskPhase → Bool
  | .closing | .ended | .removed => true
  | _ => false

/-- What an entry of the map depends on in a task. -/
def UdpTask.key (task : UdpTask) : SocksUdpTarget × String × Bool :=
  (task.target, task.sid, decide (task.phase = .removed))

theorem UdpTaskPhase.eq_closing {p : UdpTaskPhase} (h : p.closeCalled = true)
    (hp : p.finished = false) : p = .closing := by
  cases p <;> simp_all [closeCalled, finished]

namespace UdpAssociate

variable {s t : UdpAssociate} {i : Nat} {task task' : UdpTask}

/-- A step of a task other than the self-removal. -/
structure Advances (s : UdpAssociate) (task task' : UdpTask) : Prop where
  target : task'.target = task.target
  sid : task'.sid = task.sid
  before : task.phase ≠ .removed
  after : task'.phase ≠ .removed
  called : task'.phase.closeCalled = true → task'.phase = .closing ∨ task.phase.closeCalled = true
  cancelled : task'.phase = .cancelled → s.aborted = true

/-- Within `udp_session_task`. -/
theorem Advances.of_running (hp : task.phase.finished = false) (hp' : task'.phase.finished = false)
    (htarget : task'.target = task.target) (hsid : task'.sid = task.sid) :
    s.Advances task task' := by
  refine ⟨htarget, hsid, ?_, ?_, ?_, ?_⟩
  · intro h
    rw [h] at hp
    cases hp
  · intro h
    rw [h] at hp'
    cases hp'
  · intro h
    exact .inl (UdpTaskPhase.eq_closing h hp')
  · intro h
    rw [h] at hp'
    cases hp'

theorem head_running (lastActivity backoff now : Nat) :
    (head lastActivity backoff now).finished = false := by
  unfold head
  split <;> rfl

theorem afterData_running (lastActivity backoff now : Nat)
    (result : Except String Tunnel.TunnelResponse) :
    (afterData lastActivity backoff now result).finished = false := by
  unfold afterData
  split
  · rfl
  · split_ifs
    · rfl
    · exact head_running _ _ _
    · exact head_running _ _ _

theorem taskStep_cases {e : UdpEvent} (h : s.taskStep i task e = some t) :
    ((∀ j, e ≠ .selfRemove j) ∧ ∃ task', t = s.advance i task' ∧ s.Advances task task') ∨
    (∃ j, e = .selfRemove j ∧ task.phase = .ended ∧
      t = { s.advance i { task with phase := .removed } with
        state := s.state.remove task.target }) := by
  cases e with
  | start j now =>
      simp only [taskStep] at h
      split at h <;> cases h
      rename_i hp
      exact .inl ⟨fun _ he => (by cases he), _, rfl,
        .of_running (by rw [hp]; rfl) (head_running _ _ _) rfl rfl⟩
  | uplink j now =>
      simp only [taskStep] at h
      split at h
      · rename_i hp _
        cases h
        exact .inl ⟨fun _ he => (by cases he), _, rfl, .of_running (by rw [hp]; rfl) rfl rfl rfl⟩
      · rename_i hp _
        split_ifs at h
        cases h
        exact .inl ⟨fun _ he => (by cases he), _, rfl, .of_running (by rw [hp]; rfl) rfl rfl rfl⟩
      · cases h
  | wake j now =>
      simp only [taskStep] at h
      split at h
      · rename_i hp
        split_ifs at h
        cases h
        exact .inl ⟨fun _ he => (by cases he), _, rfl, .of_running (by rw [hp]; rfl) rfl rfl rfl⟩
      · cases h
  | response j result now =>
      simp only [taskStep] at h
      split at h
      · rename_i lastActivity backoff hp
        cases h
        exact .inl ⟨fun _ he => (by cases he), _, rfl,
          .of_running (by rw [hp]; rfl) (afterData_running _ _ _ _) rfl rfl⟩
      · cases h
  | closeDone j =>
      simp only [taskStep] at h
      split at h <;> cases h
      rename_i hp
      exact .inl ⟨fun _ he => (by cases he), _, rfl, rfl, rfl, by simp [hp], by simp,
        fun _ => .inr (by rw [hp]; rfl), fun hc => (by cases hc)⟩
  | selfRemove j =>
      simp only [taskStep] at h
      split at h <;> cases h
      -- the only step of a task that touches the table
      rename_i hp
      exact .inr ⟨j, rfl, hp, rfl⟩
  | cancel j =>
      simp only [taskStep] at h
      split at h
      · cases h
      · cases h
      · rename_i hp _
        split_ifs at h with habort
        cases h
        exact .inl ⟨fun _ he => (by cases he), _, rfl, rfl, rfl, hp, by simp,
          fun hc => (by cases hc), fun _ => habort⟩
  | _ => cases h

/-! ## What the dispatch loop can do -/

/-- A datagram is dropped, or dispatched. -/
theorem recv_cases (s : UdpAssociate) (peer : SocketAddr)
    (packet : Option (SocksUdpTarget × List UInt8)) :
    (∃ addr, s.recv peer packet = { s with clientAddr := addr }) ∨
    ∃ addr target payload,
      s.recv peer packet = { s with clientAddr := addr, loop := .lookup target payload } := by
  unfold recv
  split
  · exact .inl ⟨_, rfl⟩
  · split
    · exact .inl ⟨_, rfl⟩
    · split
      · exact .inl ⟨_, rfl⟩
      · split
        · exact .inl ⟨_, rfl⟩
        · split
          · exact .inl ⟨_, rfl⟩
          · split
            · exact .inl ⟨_, rfl⟩
            · exact .inr ⟨_, _, _, rfl⟩

/-- A session is not opened, or its task is spawned. -/
theorem afterOpen_cases (s : UdpAssociate) (target : SocksUdpTarget)
    (result : Except String Tunnel.TunnelResponse) :
    s.afterOpen target result = { s with loop := .select } ∨
    ∃ sid, s.afterOpen target result = { s with
      tasks := s.tasks ++ [⟨target, sid, [], .spawned⟩]
      opened := s.opened ++ [sid]
      loop := .inserting target sid s.tasks.length } := by
  unfold afterOpen
  split
  · exact .inl rfl
  · split
    · exact .inl rfl
    · split
      · exact .inl rfl
      · split
        · exact .inl rfl
        · exact .inr ⟨_, rfl⟩

/-- The tasks keep their number, their target and their sid. -/
def Evolves (l l' : List UdpTask) : Prop :=
  ∀ (i : Nat) (task : UdpTask), l[i]? = some task →
    ∃ task', l'[i]? = some task' ∧ task'.target = task.target ∧ task'.sid = task.sid

theorem Evolves.refl (l : List UdpTask) : Evolves l l := fun _ task h => ⟨task, h, rfl, rfl⟩

theorem getElem?_set_some {l : List UdpTask} (h : l[i]? = some task) (j : Nat) :
    (l.set i task')[j]? = if j = i then some task' else l[j]? := by
  obtain ⟨hlt, -⟩ := List.getElem?_eq_some_iff.mp h
  rw [List.getElem?_set, if_pos hlt]
  simp only [eq_comm (a := i)]

theorem Evolves.set {l : List UdpTask} (h : l[i]? = some task)
    (htarget : task'.target = task.target) (hsid : task'.sid = task.sid) :
    Evolves l (l.set i task') := by
  intro j other hj
  rw [getElem?_set_some h]
  by_cases hji : j = i
  · subst hji
    rw [h] at hj
    cases hj
    exact ⟨task', if_pos rfl, htarget, hsid⟩
  · exact ⟨other, (if_neg hji).trans hj, rfl, rfl⟩

theorem Evolves.append (l : List UdpTask) (new : UdpTask) : Evolves l (l ++ [new]) := by
  intro j other hj
  obtain ⟨hlt, -⟩ := List.getElem?_eq_some_iff.mp hj
  exact ⟨other, (List.getElem?_append_left hlt).trans hj, rfl, rfl⟩

/-! ## What holds in every run -/

/-- Map and order are in step, and within the cap. -/
def Tidy (s : UdpAssociate) : Prop :=
  s.state.Lockstep ∧ s.state.sessions.entries.length ≤ maxUdpSessionsPerAssociate

/-- On the way from the look-up to the insertion the target is not in the map, and after the
eviction there is room for it. -/
def Room (s : UdpAssociate) : UdpLoopPhase → Prop
  | .evict target _ => target ∉ s.state.sessions
  | .opening target | .inserting target _ _ =>
      target ∉ s.state.sessions ∧ s.state.sessions.entries.length < maxUdpSessionsPerAssociate
  | _ => True

structure Inv (s : UdpAssociate) : Prop where
  tidy : s.Tidy
  room : s.Room s.loop
  /-- An entry is that of a task for its target, and this task was not evicted. -/
  owner : ∀ target session, s.state.sessions.lookup target = some session →
    session.uplink ∉ s.evicted ∧ ∃ task, s.tasks[session.uplink]? = some task ∧
      task.target = target ∧ task.sid = session.sid
  /-- So it is for the entry that is about to be inserted. -/
  spawned : ∀ target sid i, s.loop = .inserting target sid i →
    i ∉ s.evicted ∧ ∃ task, s.tasks[i]? = some task ∧ task.target = target ∧ task.sid = sid
  evicted : ∀ i ∈ s.evicted, i < s.tasks.length
  aborted : s.aborted = true → s.state = .new

theorem Evolves.length_le {l l' : List UdpTask} (h : Evolves l l') : l.length ≤ l'.length := by
  by_contra hlt
  have hlast : l'.length < l.length := by omega
  obtain ⟨task', htask', -⟩ := h l'.length l[l'.length] (List.getElem?_eq_getElem hlast)
  simp at htask'

/-- The frame of a step that evicts nobody: the tasks go on, and entries may go. -/
theorem Inv.move (h : s.Inv) (htasks : Evolves s.tasks t.tasks) (hevicted : t.evicted = s.evicted)
    (hlock : t.state.Lockstep)
    (hsub : ∀ target session, t.state.sessions.lookup target = some session →
      s.state.sessions.lookup target = some session)
    (hlen : t.state.sessions.entries.length ≤ s.state.sessions.entries.length)
    (hroom : t.Room t.loop)
    (hspawned : ∀ target sid i, t.loop = .inserting target sid i →
      i ∉ t.evicted ∧ ∃ task, t.tasks[i]? = some task ∧ task.target = target ∧ task.sid = sid)
    (haborted : t.aborted = true → t.state = .new) : t.Inv := by
  refine ⟨⟨hlock, hlen.trans h.tidy.2⟩, hroom, fun target session hl => ?_, hspawned, ?_, haborted⟩
  · obtain ⟨hnot, task, htask, htarget, hsid⟩ := h.owner target session (hsub _ _ hl)
    obtain ⟨task', htask', htarget', hsid'⟩ := htasks _ _ htask
    exact ⟨hevicted ▸ hnot, task', htask', htarget'.trans htarget, hsid'.trans hsid⟩
  · intro i hi
    rw [hevicted] at hi
    exact lt_of_lt_of_le (h.evicted i hi) htasks.length_le

theorem inv_init (config : UdpConfig) : (init config).Inv where
  tidy := ⟨UdpRelayState.lockstep_new, Nat.zero_le _⟩
  room := trivial
  owner _ _ h := by cases h
  spawned _ _ _ h := by cases h
  evicted _ h := by cases h
  aborted h := by cases h

/-- The loop gets on without touching map, tasks or evictions. -/
theorem Inv.goto (h : s.Inv) (htasks : Evolves s.tasks t.tasks) (hevicted : t.evicted = s.evicted)
    (hstate : t.state = s.state) (hroom : t.Room t.loop)
    (hloop : ∀ target sid i, t.loop ≠ .inserting target sid i) (haborted : t.aborted = false) :
    t.Inv := by
  refine h.move htasks hevicted (hstate ▸ h.tidy.1) (fun _ _ hl => hstate ▸ hl) (hstate ▸ le_rfl)
    hroom (fun _ _ _ hl => absurd hl (hloop _ _ _)) fun ha => ?_
  rw [haborted] at ha
  cases ha

theorem Room.shrink {p : UdpLoopPhase} (h : s.Room p)
    (hmem : ∀ target, target ∈ t.state.sessions → target ∈ s.state.sessions)
    (hlen : t.state.sessions.entries.length ≤ s.state.sessions.entries.length) : t.Room p := by
  cases p with
  | evict target payload => exact fun hin => h (hmem _ hin)
  | opening target => exact ⟨fun hin => h.1 (hmem _ hin), lt_of_le_of_lt hlen h.2⟩
  | inserting target sid i => exact ⟨fun hin => h.1 (hmem _ hin), lt_of_le_of_lt hlen h.2⟩
  | _ => trivial

theorem trySend_frame (uplink : Nat) (payload : List UInt8) :
    Evolves s.tasks (s.trySend uplink payload).tasks ∧
      (s.trySend uplink payload).evicted = s.evicted ∧
      (s.trySend uplink payload).state = s.state := by
  unfold trySend
  split
  · exact ⟨.refl _, rfl, rfl⟩
  · rename_i task htask
    split
    all_goals first | exact ⟨.refl _, rfl, rfl⟩ | skip
    split_ifs
    · exact ⟨.set htask rfl rfl, rfl, rfl⟩
    · exact ⟨.refl _, rfl, rfl⟩

theorem Inv.lookup (h : s.Inv) (target : SocksUdpTarget) (payload : List UInt8) :
    (s.lookup target payload).Inv := by
  unfold UdpAssociate.lookup
  split
  · rename_i uplink _
    obtain ⟨htasks, hevicted, hstate⟩ := trySend_frame (s := s) uplink payload
    exact h.goto htasks hevicted hstate trivial (fun _ _ _ hl => by cases hl) rfl
  · rename_i hnone
    refine h.goto (.refl _) rfl rfl ?_ (fun _ _ _ hl => by cases hl) rfl
    rw [UdpRelayState.getUplink, Option.map_eq_none_iff, AList.lookup_eq_none] at hnone
    exact hnone

/-- Who is evicted leaves the map for good; the others are not among the evicted, since a task has
one target only. -/
theorem Inv.evict (h : s.Inv) {target : SocksUdpTarget} {payload : List UInt8}
    (hloop : s.loop = .evict target payload) : (s.evict target).Inv := by
  obtain ⟨hlock, hunder, hkept⟩ := h.tidy.1.evictUntilUnder
    maxUdpSessionsPerAssociate (by decide)
  have hroom := h.room
  rw [hloop] at hroom
  refine ⟨⟨hlock, hunder.le⟩, ⟨fun hin => ?_, hunder⟩, fun target' session hl => ?_,
    fun _ _ _ hl => (by cases hl), fun i hi => ?_, fun ha => (by cases ha)⟩
  · obtain ⟨session, hsession⟩ := Option.isSome_iff_exists.mp (AList.lookup_isSome.mpr hin)
    exact hroom (AList.lookup_isSome.mp (by rw [((hkept _ _).mp hsession).1]; rfl))
  · obtain ⟨hold, hvictim⟩ := (hkept _ _).mp hl
    obtain ⟨hnot, task, htask, htarget, hsid⟩ := h.owner _ _ hold
    refine ⟨fun hin => ?_, task, htask, htarget, hsid⟩
    rcases List.mem_append.mp hin with hin | hin
    · exact hnot hin
    · obtain ⟨victim, hmem, hup⟩ := List.mem_filterMap.mp hin
      obtain ⟨other, hother, huplink⟩ := Option.map_eq_some_iff.mp hup
      obtain ⟨-, task', htask', htarget', -⟩ := h.owner _ _ hother
      rw [huplink, htask] at htask'
      cases htask'
      exact hvictim (by rwa [← htarget, htarget'])
  · rcases List.mem_append.mp hi with hi | hi
    · exact h.evicted i hi
    · obtain ⟨victim, -, hup⟩ := List.mem_filterMap.mp hi
      obtain ⟨other, hother, huplink⟩ := Option.map_eq_some_iff.mp hup
      obtain ⟨-, task, htask, -⟩ := h.owner _ _ hother
      rw [huplink] at htask
      exact (List.getElem?_eq_some_iff.mp htask).1

theorem Inv.afterOpen (h : s.Inv) {target : SocksUdpTarget}
    (hloop : s.loop = .opening target) (result : Except String Tunnel.TunnelResponse) :
    (s.afterOpen target result).Inv := by
  have hroom := h.room
  rw [hloop] at hroom
  rcases afterOpen_cases s target result with heq | ⟨sid, heq⟩
  · rw [heq]
    exact h.goto (.refl _) rfl rfl trivial (fun _ _ _ hl => by cases hl) rfl
  · rw [heq]
    refine h.move (.append _ _) rfl h.tidy.1 (fun _ _ hl => hl) le_rfl hroom ?_
      (fun ha => by cases ha)
    intro target' sid' i hl
    cases hl
    -- the new task has the next number, and those evicted are among the older ones
    exact ⟨fun hin => absurd (h.evicted _ hin) (lt_irrefl _), ⟨target, sid, [], .spawned⟩,
      List.getElem?_concat_length, rfl, rfl⟩

theorem Inv.insert (h : s.Inv) {target : SocksUdpTarget} {sid : String}
    (hloop : s.loop = .inserting target sid i) : (s.insert target sid i).Inv := by
  have hroom := h.room
  rw [hloop] at hroom
  obtain ⟨hnew, hunder⟩ := hroom
  refine ⟨⟨h.tidy.1.insert hnew, ?_⟩, trivial, fun target' session hl => ?_,
    fun _ _ _ hl => (by cases hl), h.evicted, fun ha => (by cases ha)⟩
  · exact (AList.length_insert_of_notMem hnew).trans_le hunder
  · change (s.state.sessions.insert target ⟨sid, i⟩).lookup target' = some session at hl
    by_cases ht : target' = target
    · subst ht
      rw [AList.lookup_insert] at hl
      cases hl
      exact h.spawned _ _ _ hloop
    · rw [AList.lookup_insert_ne ht] at hl
      exact h.owner _ _ hl

theorem Inv.loopStep {e : UdpEvent} (h : s.Inv) (ht : s.loopStep e = some t) : t.Inv := by
  unfold UdpAssociate.loopStep at ht
  split at ht <;> cases ht <;> rename_i hloop
  · -- `recv`
    rename_i peer packet
    rcases recv_cases s peer packet with ⟨addr, heq⟩ | ⟨addr, target, payload, heq⟩
    · rw [heq]
      exact h.goto (.refl _) rfl rfl h.room (fun _ _ _ hl => by rw [hloop] at hl; cases hl)
        (by rw [UdpAssociate.aborted, hloop])
    · rw [heq]
      exact h.goto (.refl _) rfl rfl trivial (fun _ _ _ hl => by cases hl) rfl
  · exact h.goto (.refl _) rfl rfl trivial (fun _ _ _ hl => by cases hl) rfl
  · exact h.lookup _ _
  · exact h.evict hloop
  · exact h.afterOpen hloop _
  · exact h.insert hloop
  · -- `snapshot`
    exact ⟨⟨UdpRelayState.lockstep_new, Nat.zero_le _⟩, trivial, fun _ _ hl => (by cases hl),
      fun _ _ _ hl => (by cases hl), h.evicted, fun _ => rfl⟩
  all_goals
    -- `sweep`
    have hstate := h.aborted (by rw [UdpAssociate.aborted, hloop])
    exact h.move (.refl _) rfl h.tidy.1 (fun _ _ hl => hl) le_rfl trivial
      (fun _ _ _ hl => (by cases hl)) fun _ => hstate

theorem Inv.spawned_of_evolves (h : s.Inv) (htasks : Evolves s.tasks t.tasks)
    {target : SocksUdpTarget} {sid : String} (hloop : s.loop = .inserting target sid i) :
    i ∉ s.evicted ∧ ∃ task, t.tasks[i]? = some task ∧ task.target = target ∧ task.sid = sid := by
  obtain ⟨hnot, other, hother, htarget, hsid⟩ := h.spawned target sid i hloop
  obtain ⟨other', hother', htarget', hsid'⟩ := htasks _ _ hother
  exact ⟨hnot, other', hother', htarget'.trans htarget, hsid'.trans hsid⟩

theorem Inv.advance (h : s.Inv) (htask : s.tasks[i]? = some task) (hadv : s.Advances task task') :
    (s.advance i task').Inv := by
  have htasks : Evolves s.tasks (s.tasks.set i task') := .set htask hadv.target hadv.sid
  exact h.move htasks rfl h.tidy.1 (fun _ _ hl => hl) le_rfl h.room
    (fun _ _ _ hl => h.spawned_of_evolves htasks hl) h.aborted

theorem Inv.selfRemove (h : s.Inv) (htask : s.tasks[i]? = some task) :
    Inv { s.advance i { task with phase := .removed } with
      state := s.state.remove task.target } := by
  have htasks : Evolves s.tasks (s.tasks.set i { task with phase := .removed }) :=
    .set htask rfl rfl
  have hlen := AList.length_erase_le (k := task.target) s.state.sessions
  refine h.move htasks rfl (h.tidy.1.remove _)
    (fun _ _ hl => (AList.lookup_erase_eq_some.mp hl).2) hlen
    (h.room.shrink (fun _ hin => (AList.mem_erase.mp hin).2) hlen)
    (fun _ _ _ hl => h.spawned_of_evolves htasks hl) fun ha => ?_
  have hstate : s.state = .new := h.aborted ha
  change s.state.remove task.target = .new
  rw [hstate]
  rfl

theorem Inv.step {e : UdpEvent} (h : s.Inv) (ht : s.step e = some t) : t.Inv := by
  unfold UdpAssociate.step at ht
  split at ht
  · exact h.loopStep ht
  · obtain ⟨task, htask, hstep⟩ := Option.bind_eq_some_iff.mp ht
    rcases taskStep_cases hstep with ⟨-, task', rfl, hadv⟩ | ⟨j, -, -, rfl⟩
    · exact h.advance htask hadv
    · exact h.selfRemove htask

theorem Inv.run {es : List UdpEvent} (h : s.Inv)
    (hrun : StepRun.run UdpAssociate.step s es = some t) : t.Inv :=
  StepRun.allStates_last
    (StepRun.allStates_of_inv (fun _ _ _ h ht => h.step ht) (fun _ h => h) h es) hrun

/-! ## Entries and their tasks -/

/-- Every entry holds the sid and the uplink of a task for its target that has yet to remove itself.
And as long as the associate lasts, a task that has yet to remove itself, and was not evicted, has
its entry, or is about to get it. -/
structure Owned (s : UdpAssociate) : Prop where
  entry : ∀ target session, s.state.sessions.lookup target = some session →
    ∃ task, s.tasks[session.uplink]? = some task ∧ task.target = target ∧
      task.sid = session.sid ∧ task.phase ≠ .removed
  task : s.aborted = false → ∀ i task, s.tasks[i]? = some task → task.phase ≠ .removed →
    i ∉ s.evicted → (∃ target sid, s.loop = .inserting target sid i) ∨
      s.state.sessions.lookup task.target = some ⟨task.sid, i⟩

/-- A self-removal meets no entry but the task's own, and an entry is not inserted after the
self-removal of its task. -/
def OwnRemoval (s : UdpAssociate) : UdpEvent → Prop
  | .selfRemove i => ∀ task ∈ s.tasks[i]?, ∀ session ∈ s.state.sessions.lookup task.target,
      session.uplink = i
  | .insert => ∀ i ∈ s.loop.inserts, ∀ task ∈ s.tasks[i]?, task.phase ≠ .removed
  | _ => True

instance (s : UdpAssociate) (e : UdpEvent) : Decidable (s.OwnRemoval e) :=
  match e with
  | .selfRemove i => inferInstanceAs (Decidable (∀ task ∈ s.tasks[i]?,
      ∀ session ∈ s.state.sessions.lookup task.target, session.uplink = i))
  | .insert => inferInstanceAs (Decidable (∀ i ∈ s.loop.inserts,
      ∀ task ∈ s.tasks[i]?, task.phase ≠ .removed))
  | .recv _ _ | .hangUp | .lookup | .evict | .opened _ | .snapshot | .sweep | .start _ _
  | .uplink _ _ | .wake _ _ | .response _ _ _ | .closeDone _ | .cancel _ =>
      inferInstanceAs (Decidable True)

theorem owned_init (config : UdpConfig) : (init config).Owned where
  entry _ _ h := by cases h
  task _ _ _ h := by cases h

theorem getElem?_of_map_key {l l' : List UdpTask} (h : l'.map UdpTask.key = l.map UdpTask.key)
    (htask : l[i]? = some task) : ∃ task', l'[i]? = some task' ∧ task'.target = task.target ∧
      task'.sid = task.sid ∧ (task'.phase = .removed ↔ task.phase = .removed) := by
  have hi : (l'.map UdpTask.key)[i]? = some task.key := by
    rw [h, List.getElem?_map, htask]
    rfl
  rw [List.getElem?_map] at hi
  obtain ⟨task', htask', hkey⟩ := Option.map_eq_some_iff.mp hi
  simp only [UdpTask.key, Prod.mk.injEq, decide_eq_decide] at hkey
  exact ⟨task', htask', hkey⟩

/-- The frame of a step that leaves map and evictions as they are. -/
theorem Owned.goto (h : s.Owned) (hkeys : t.tasks.map UdpTask.key = s.tasks.map UdpTask.key)
    (hevicted : t.evicted = s.evicted) (hstate : t.state = s.state)
    (haborted : t.aborted = false → s.aborted = false)
    (hloop : ∀ target sid i, s.loop = .inserting target sid i →
      t.loop = .inserting target sid i) : t.Owned := by
  constructor
  · intro target session hl
    rw [hstate] at hl
    obtain ⟨task, htask, htarget, hsid, hphase⟩ := h.entry target session hl
    obtain ⟨task', htask', htarget', hsid', hphase'⟩ := getElem?_of_map_key hkeys htask
    exact ⟨task', htask', htarget'.trans htarget, hsid'.trans hsid, fun hr =>
      hphase (hphase'.mp hr)⟩
  · intro ha i task' htask' hphase' hnot
    obtain ⟨task, htask, htarget, hsid, hphase⟩ := getElem?_of_map_key hkeys.symm htask'
    rw [hevicted] at hnot
    rw [hstate, ← htarget, ← hsid]
    refine (h.task (haborted ha) i task htask (fun hr => hphase' (hphase.mp hr)) hnot).imp_left ?_
    rintro ⟨target, sid, hins⟩
    exact ⟨target, sid, hloop _ _ _ hins⟩

theorem not_inserting (h : s.loop.inserts = none) (target : SocksUdpTarget) (sid : String)
    (i : Nat) : s.loop ≠ .inserting target sid i := by
  intro hl
  rw [hl] at h
  cases h

/-- The same, where no entry is about to be inserted. -/
theorem Owned.gotoNext (h : s.Owned) (hkeys : t.tasks.map UdpTask.key = s.tasks.map UdpTask.key)
    (hevicted : t.evicted = s.evicted) (hstate : t.state = s.state) (halive : s.aborted = false)
    (hloop : s.loop.inserts = none) : t.Owned :=
  h.goto hkeys hevicted hstate (fun _ => halive) fun _ _ _ hl =>
    absurd hl (not_inserting hloop _ _ _)

/-- Then every task that was not evicted has its entry. -/
theorem Owned.lookup_task (h : s.Owned) (halive : s.aborted = false)
    (hloop : s.loop.inserts = none) (htask : s.tasks[i]? = some task)
    (hphase : task.phase ≠ .removed) (hnot : i ∉ s.evicted) :
    s.state.sessions.lookup task.target = some ⟨task.sid, i⟩ := by
  refine (h.task halive i task htask hphase hnot).resolve_left ?_
  rintro ⟨target, sid, hins⟩
  exact not_inserting hloop target sid i hins

theorem map_set_eq {β : Type} {l : List UdpTask} (f : UdpTask → β) (h : l[i]? = some task)
    (hf : f task' = f task) : (l.set i task').map f = l.map f := by
  apply List.ext_getElem?
  intro j
  rw [List.getElem?_map, List.getElem?_map, getElem?_set_some h]
  split_ifs with hj
  · rw [hj, h, Option.map_some, Option.map_some, hf]
  · rfl

theorem trySend_map_key (s : UdpAssociate) (uplink : Nat) (payload : List UInt8) :
    (s.trySend uplink payload).tasks.map UdpTask.key = s.tasks.map UdpTask.key := by
  unfold trySend
  split
  · rfl
  · rename_i task htask
    split
    all_goals first | rfl | skip
    split_ifs
    · exact map_set_eq _ htask rfl
    · rfl

theorem Owned.advance (h : s.Owned) (htask : s.tasks[i]? = some task)
    (hadv : s.Advances task task') : (s.advance i task').Owned := by
  refine h.goto (map_set_eq _ htask ?_) rfl rfl (fun ha => ha) fun _ _ _ hl => hl
  simp only [UdpTask.key, hadv.target, hadv.sid, hadv.before, hadv.after]

/-- An eviction takes entries out of the map and notes their tasks. -/
theorem Owned.evict (h : s.Owned) (hinv : s.Inv) {target : SocksUdpTarget}
    {payload : List UInt8} (hloop : s.loop = .evict target payload) :
    (s.evict target).Owned := by
  obtain ⟨-, -, hkept⟩ := hinv.tidy.1.evictUntilUnder
    maxUdpSessionsPerAssociate (by decide)
  constructor
  · intro target' session hl
    exact h.entry target' session ((hkept _ _).mp hl).1
  · intro _ i task htask hphase hnot
    obtain ⟨hold, hnew⟩ := not_or.mp (fun hin => hnot (List.mem_append.mpr hin))
    refine .inr ?_
    have hentry := h.lookup_task (by rw [aborted, hloop]) (by rw [hloop]; rfl) htask hphase hold
    refine (hkept _ _).mpr ⟨hentry, fun hvictim => hnew ?_⟩
    exact List.mem_filterMap.mpr ⟨_, hvictim, by rw [UdpRelayState.getUplink, hentry]; rfl⟩

theorem Owned.afterOpen (h : s.Owned) {target : SocksUdpTarget}
    (hloop : s.loop = .opening target) (result : Except String Tunnel.TunnelResponse) :
    (s.afterOpen target result).Owned := by
  rcases afterOpen_cases s target result with heq | ⟨sid, heq⟩
  · rw [heq]
    exact h.gotoNext rfl rfl rfl (by rw [aborted, hloop]) (by rw [hloop]; rfl)
  · rw [heq]
    constructor
    · intro target' session hl
      obtain ⟨task, htask, hrest⟩ := h.entry target' session hl
      obtain ⟨hlt, -⟩ := List.getElem?_eq_some_iff.mp htask
      exact ⟨task, (List.getElem?_append_left hlt).trans htask, hrest⟩
    · intro _ i task htask hphase hnot
      by_cases hi : i < s.tasks.length
      · replace htask := (List.getElem?_append_left hi).symm.trans htask
        exact .inr (h.lookup_task (by rw [aborted, hloop]) (by rw [hloop]; rfl) htask hphase hnot)
      · -- the task just spawned
        have hlast : i = s.tasks.length := by
          obtain ⟨hlt, -⟩ := List.getElem?_eq_some_iff.mp htask
          simp only [List.length_append, List.length_singleton] at hlt
          omega
        exact .inl ⟨target, sid, by rw [hlast]⟩

/-- The insertion is right exactly if the task has not removed itself yet. -/
theorem owned_insert_iff (h : s.Owned) (hinv : s.Inv) {target : SocksUdpTarget} {sid : String}
    (hloop : s.loop = .inserting target sid i) :
    (s.insert target sid i).Owned ↔ s.OwnRemoval .insert := by
  have hroom := hinv.room
  rw [hloop] at hroom
  have hins : s.loop.inserts = some i := by rw [hloop]; rfl
  have hnew : (s.insert target sid i).state.sessions.lookup target = some ⟨sid, i⟩ :=
    AList.lookup_insert _
  have hold : ∀ target', target' ≠ target →
      (s.insert target sid i).state.sessions.lookup target' = s.state.sessions.lookup target' :=
    fun target' hne => AList.lookup_insert_ne hne
  constructor
  · rintro ⟨hentry, -⟩ j hj task htask
    obtain ⟨task', htask', -, -, hphase⟩ := hentry target _ hnew
    rw [Option.mem_def, hins] at hj
    rw [← Option.some.inj hj, Option.mem_def] at htask
    cases htask.symm.trans htask'
    exact hphase
  · intro hphase
    obtain ⟨-, own, hown, htarget, hsid⟩ := hinv.spawned _ _ _ hloop
    constructor
    · intro target' session hl
      by_cases ht : target' = target
      · subst ht
        cases hnew.symm.trans hl
        exact ⟨own, hown, htarget, hsid, hphase i hins own hown⟩
      · rw [hold target' ht] at hl
        exact h.entry target' session hl
    · intro _ j task htask hp hnot
      refine .inr ?_
      rcases h.task (by rw [aborted, hloop]) j task htask hp hnot with ⟨target', sid', hj⟩ | hl
      · rw [hloop] at hj
        cases hj
        cases hown.symm.trans htask
        rw [htarget, hsid]
        exact hnew
      · rw [hold task.target ?_]
        · exact hl
        · rintro rfl
          exact hroom.1 (AList.lookup_isSome.mp (by rw [hl]; rfl))

/-- The self-removal is right exactly if it does not take the entry of another task. -/
theorem owned_selfRemove_iff (h : s.Owned) (hinv : s.Inv) (htask : s.tasks[i]? = some task) :
    Owned { s.advance i { task with phase := .removed } with
      state := s.state.remove task.target } ↔ s.OwnRemoval (.selfRemove i) := by
  set t : UdpAssociate := { s.advance i { task with phase := .removed } with
    state := s.state.remove task.target }
  have htasks : ∀ j, j ≠ i → t.tasks[j]? = s.tasks[j]? := fun j hj => by
    rw [show t.tasks = s.tasks.set i { task with phase := .removed } from rfl,
      getElem?_set_some htask, if_neg hj]
  have hlookup : ∀ target session, t.state.sessions.lookup target = some session ↔
      target ≠ task.target ∧ s.state.sessions.lookup target = some session := fun _ _ =>
    AList.lookup_erase_eq_some
  constructor
  · intro hown task' htask' session hl
    rw [Option.mem_def] at htask' hl
    cases htask.symm.trans htask'
    by_contra hne
    -- the entry of another task: that task has lost it
    obtain ⟨hnot, other, hother, htarget, -⟩ := hinv.owner _ _ hl
    obtain ⟨other', hother', -, -, hphase⟩ := h.entry _ _ hl
    cases hother.symm.trans hother'
    have habort : s.aborted = false := by
      by_contra ha
      rw [hinv.aborted (by simpa using ha)] at hl
      cases hl
    rcases hown.task habort _ other ((htasks _ hne).trans hother) hphase hnot with
      ⟨target', sid', hins⟩ | hentry
    · obtain ⟨-, own, hown', htarget', -⟩ := hinv.spawned _ _ _ hins
      cases hother.symm.trans hown'
      have hroom := hinv.room
      rw [show s.loop = .inserting target' sid' session.uplink from hins] at hroom
      refine hroom.1 (AList.lookup_isSome.mp ?_)
      rw [← htarget', htarget, hl]
      rfl
    · exact ((hlookup _ _).mp hentry).1 htarget
  · intro hcond
    constructor
    · intro target session hl
      obtain ⟨hne, hl⟩ := (hlookup _ _).mp hl
      obtain ⟨other, hother, htarget, hsid, hphase⟩ := h.entry target session hl
      refine ⟨other, (htasks _ ?_).trans hother, htarget, hsid, hphase⟩
      intro hi
      rw [hi, htask] at hother
      cases hother
      exact hne htarget.symm
    · intro ha j other hother hphase hnot
      have hj : j ≠ i := by
        rintro rfl
        rw [show t.tasks = s.tasks.set j { task with phase := .removed } from rfl,
          getElem?_set_some htask, if_pos rfl] at hother
        cases hother
        exact hphase rfl
      rw [htasks j hj] at hother
      refine (h.task ha j other hother hphase hnot).imp_right fun hl => ?_
      refine (hlookup _ _).mpr ⟨fun heq => hj ?_, hl⟩
      rw [heq] at hl
      exact hcond task htask _ hl

theorem owned_loopStep_iff {e : UdpEvent} (h : s.Owned) (hinv : s.Inv)
    (ht : s.loopStep e = some t) : t.Owned ↔ s.OwnRemoval e := by
  unfold loopStep at ht
  split at ht <;> cases ht <;> rename_i hloop
  case h_6 => exact owned_insert_iff h hinv hloop
  all_goals
    -- these are right in any case
    refine iff_of_true ?_ trivial
  · rename_i peer packet
    rcases recv_cases s peer packet with ⟨addr, heq⟩ | ⟨addr, target, payload, heq⟩
    · rw [heq]
      exact h.goto rfl rfl rfl (fun ha => ha) fun _ _ _ hl => hl
    · rw [heq]
      exact h.gotoNext rfl rfl rfl (by rw [aborted, hloop]) (by rw [hloop]; rfl)
  · exact h.gotoNext rfl rfl rfl (by rw [aborted, hloop]) (by rw [hloop]; rfl)
  · rename_i target payload
    unfold UdpAssociate.lookup
    split
    · rename_i uplink _
      obtain ⟨-, hevicted, hstate⟩ := trySend_frame (s := s) uplink payload
      exact h.gotoNext (trySend_map_key s uplink payload) hevicted hstate (by rw [aborted, hloop])
        (by rw [hloop]; rfl)
    · exact h.gotoNext rfl rfl rfl (by rw [aborted, hloop]) (by rw [hloop]; rfl)
  · exact h.evict hinv hloop
  · exact h.afterOpen hloop _
  · -- the map is cleared
    exact ⟨fun _ _ hl => (by cases hl), fun ha => (by cases ha)⟩
  all_goals
    refine ⟨h.entry, fun ha => ?_⟩
    cases ha

theorem owned_step_iff {e : UdpEvent} (hinv : s.Inv) (h : s.Owned) (ht : s.step e = some t) :
    t.Owned ↔ s.OwnRemoval e := by
  unfold step at ht
  split at ht
  · exact owned_loopStep_iff h hinv ht
  · rename_i i he
    obtain ⟨task, htask, hstep⟩ := Option.bind_eq_some_iff.mp ht
    rcases taskStep_cases hstep with ⟨hne, task', rfl, hadv⟩ | ⟨j, rfl, -, rfl⟩
    · refine iff_of_true (h.advance htask hadv) ?_
      cases e with
      | selfRemove j => exact absurd rfl (hne j)
      | insert => cases he
      | _ => trivial
    · cases he
      exact owned_selfRemove_iff h hinv htask

/-! ## Runs -/

theorem tidy_run (config : UdpConfig) (es : List UdpEvent) :
    StepRun.AllStates step Tidy (init config) es :=
  StepRun.allStates_of_inv (fun _ _ _ h ht => h.step ht) (fun _ h => h.tidy) (inv_init config) es

/-- The entries are those of their tasks exactly as long as the self-removals are the tasks' own. -/
theorem owned_run_iff (config : UdpConfig) (es : List UdpEvent) :
    StepRun.AllStates step Owned (init config) es ↔
      StepRun.AllSteps step OwnRemoval (init config) es :=
  StepRun.allStates_iff_allSteps_of_inv (I := Inv) (fun _ _ _ h ht => h.step ht)
    (fun _ _ _ hinv h ht => owned_step_iff hinv h ht) (inv_init config) (owned_init config) es

/-- **A map entry belongs to its task**: map and order stay in step and within the cap, and as long
as the self-removals are the tasks' own, an entry is that of a task that has yet to remove itself.
-/
theorem sessions_owned (config : UdpConfig) (es : List UdpEvent) :
    StepRun.AllStates step Tidy (init config) es ∧
      (StepRun.AllSteps step OwnRemoval (init config) es →
        StepRun.AllStates step Owned (init config) es) :=
  ⟨tidy_run config es, (owned_run_iff config es).mpr⟩

/-- A loopback client and one session, up to the spawning of its task. -/
def loopback : UdpConfig := ⟨[127, 0, 0, 1], false, false⟩

def dnsTarget : SocksUdpTarget := ⟨"a", 53, 3, [97]⟩

def openDns : List UdpEvent :=
  [.recv ⟨[127, 0, 0, 1], 5000⟩ (some (dnsTarget, [1])), .lookup, .evict,
    .opened (.ok ⟨some "s", none, none, none, none, none, none⟩)]

/-- The task polls once, and gets an error. -/
def pollDns : List UdpEvent :=
  [.start 0 0, .wake 0 udpInitialPollDelay, .response 0 (.error "mux channel closed") 600000000,
    .closeDone 0]

/-- A session from its opening to its end. -/
theorem sessions_owned_dns :
    (StepRun.run step (init loopback) (openDns ++ [.insert] ++ pollDns ++ [.selfRemove 0])).isSome ∧
      StepRun.AllStates step Owned (init loopback)
        (openDns ++ [.insert] ++ pollDns ++ [.selfRemove 0]) :=
  ⟨by decide +kernel, (sessions_owned loopback _).2 (by decide +kernel)⟩

/-- At its select the loop finds every entry to be that of a task still in `udp_session_task`. -/
def LiveEntries (s : UdpAssociate) : Prop :=
  s.loop = .select → s.Tidy ∧ ∀ target session,
    s.state.sessions.lookup target = some session →
    ∃ task, s.tasks[session.uplink]? = some task ∧ task.target = target ∧
      task.sid = session.sid ∧ task.phase.finished = false

/-- An entry with a task that has finished, and the loop at its select. -/
def deadEntry (s : UdpAssociate) (target : SocksUdpTarget) : Bool :=
  decide (s.loop = .select) && (s.state.sessions.lookup target).any fun session =>
    (s.tasks[session.uplink]?).any fun task => task.phase.finished

theorem not_liveEntries_of_run {config : UdpConfig} {es : List UdpEvent} (target : SocksUdpTarget)
    (h : (StepRun.run step (init config) es).any (fun s => s.deadEntry target) = true) :
    ¬ StepRun.AllStates step LiveEntries (init config) es := by
  intro hall
  obtain ⟨s, hrun, hdead⟩ := (Option.any_eq_true _ _).mp h
  rw [deadEntry, Bool.and_eq_true, decide_eq_true_iff] at hdead
  obtain ⟨session, hsession, hfinished⟩ := (Option.any_eq_true _ _).mp hdead.2
  obtain ⟨task, htask, hphase⟩ := (Option.any_eq_true _ _).mp hfinished
  obtain ⟨-, hlive⟩ := StepRun.allStates_last hall hrun hdead.1
  obtain ⟨task', htask', -, -, hrunning⟩ := hlive _ _ hsession
  rw [htask] at htask'
  cases htask'
  rw [hphase] at hrunning
  cases hrunning

/-- Between the end of `udp_session_task` and the self-removal the entry has no live task; and a
self-removal before the insertion leaves such an entry for good. -/
theorem entry_without_live_task :
    ¬ StepRun.AllStates step LiveEntries (init loopback) (openDns ++ [.insert] ++ pollDns) ∧
      ¬ StepRun.AllStates step LiveEntries (init loopback)
        (openDns ++ pollDns ++ [.selfRemove 0, .insert]) :=
  ⟨not_liveEntries_of_run dnsTarget (by decide +kernel),
    not_liveEntries_of_run dnsTarget (by decide +kernel)⟩

end UdpAssociate

end Rahgozar.Proxy
