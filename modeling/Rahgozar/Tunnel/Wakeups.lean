import Rahgozar.Tunnel.LongPoll

set_option autoImplicit false

/-! # Wake-ups of a long poll

A wait that sleeps beside data is woken, and a wait that is woken has had data. The first needs that
no watcher of another wait is left at the sessions when the wait begins: a watcher that has taken
the permit and is dropped before it looks takes the wake-up with it.
-/

namespace Rahgozar.Tunnel

/-! ## What a wait is told -/

/-- What a wait waits for. -/
inductive PollSign where
  | atEnd
  | data

def PolledInner.Shows (r : PolledInner) : PollSign → Prop
  | .atEnd => r.eof = true
  | .data => r.buffered ≠ 0

/-- A watcher in this phase will look for the sign before it sleeps. -/
def WatcherPhase.Heeds (p : WatcherPhase) : PollSign → Prop
  | .atEnd => p = .notified ∨ p = .readsEof ∨ p = .signals
  | .data => p = .notified ∨ p = .readsEof ∨ p = .locksBuffer ∨ p = .signals

/-- The sessions where the wait itself has not looked for the sign yet. -/
def PollWait.ahead (W : PollWait) (c : PollSign) : List Nat :=
  match W.phase, c with
  | .checksEof k, _ => W.inners.drop k
  | .checksBuffer k, .atEnd => W.inners.drop (k + 1)
  | .checksBuffer k, .data => W.inners.drop k
  | .sleeps, _ | .returned, _ => []

/-- The watchers of the sessions are the wait's own, there is one for each, and what a session shows
is still looked for: by the wait, by its reader, or by a watcher that is up. -/
structure Told (inner : Nat → PolledInner) (watchers : List PollWatcher) (w : Nat)
    (W : PollWait) : Prop where
  own : ∀ v ∈ watchers, v.phase ≠ .finished → v.inner ∈ W.inners → v.wait = w
  present : ∀ i ∈ W.inners, ∃ v ∈ watchers, v.inner = i ∧ v.phase ≠ .finished
  told : ∀ i ∈ W.inners, ∀ c, (inner i).Shows c →
    i ∈ W.ahead c ∨ (inner i).telling = true ∨ (inner i).permit = true ∨
      ∃ v ∈ watchers, v.inner = i ∧ v.phase.Heeds c

variable {inner : Nat → PolledInner} {watchers : List PollWatcher} {w k i : Nat} {W : PollWait}
  {v : PollWatcher} {p : WatcherPhase}

theorem heeds_notified (c : PollSign) : WatcherPhase.notified.Heeds c := by
  cases c <;> exact Or.inl rfl

theorem heeds_readsEof (c : PollSign) : WatcherPhase.readsEof.Heeds c := by
  cases c <;> exact Or.inr (Or.inl rfl)

theorem heeds_signals (c : PollSign) : WatcherPhase.signals.Heeds c := by
  cases c
  · exact Or.inr (Or.inr rfl)
  · exact Or.inr (Or.inr (Or.inr rfl))

theorem mem_modify_self (hk : watchers[k]? = some v) :
    v.setPhase p ∈ watchers.modify k (PollWatcher.setPhase p) := by
  refine List.mem_iff_getElem?.mpr ⟨k, ?_⟩
  rw [List.getElem?_modify_eq, hk]
  rfl

theorem mem_modify_or (hk : watchers[k]? = some v) {u : PollWatcher} (hu : u ∈ watchers) :
    u = v ∨ u ∈ watchers.modify k (PollWatcher.setPhase p) := by
  obtain ⟨j, hj⟩ := List.mem_iff_getElem?.mp hu
  by_cases hkj : k = j
  · subst hkj
    exact Or.inl (Option.some.inj (hj.symm.trans hk))
  · refine Or.inr (List.mem_iff_getElem?.mpr ⟨j, ?_⟩)
    rw [List.getElem?_modify_ne _ _ hkj, hj]

theorem of_mem_modify (hk : watchers[k]? = some v) {u : PollWatcher}
    (hu : u ∈ watchers.modify k (PollWatcher.setPhase p)) : u = v.setPhase p ∨ u ∈ watchers := by
  obtain ⟨j, hj⟩ := List.mem_iff_getElem?.mp hu
  by_cases hkj : k = j
  · subst hkj
    rw [List.getElem?_modify_eq, hk] at hj
    exact Or.inl (Option.some.inj hj).symm
  · rw [List.getElem?_modify_ne _ _ hkj] at hj
    exact Or.inr (List.mem_iff_getElem?.mpr ⟨j, hj⟩)

/-- A watcher moves, and still looks for what it has to look for. -/
theorem Told.setPhase (h : Told inner watchers w W) (hk : watchers[k]? = some v)
    (hup : v.phase ≠ .finished) (hend : p = .finished → v.inner ∉ W.inners)
    (hheeds : ∀ c, v.phase.Heeds c → v.inner ∈ W.inners → (inner v.inner).Shows c → p.Heeds c) :
    Told inner (watchers.modify k (PollWatcher.setPhase p)) w W := by
  refine ⟨fun u hu hfin hin => ?_, fun i hi => ?_, fun i hi c hc => ?_⟩
  · rcases of_mem_modify hk hu with rfl | hu
    · exact h.own v (List.mem_of_getElem? hk) hup hin
    · exact h.own u hu hfin hin
  · obtain ⟨u, hu, rfl, hfin⟩ := h.present i hi
    rcases mem_modify_or (p := p) hk hu with rfl | hu
    · exact ⟨_, mem_modify_self hk, rfl, fun hp => hend hp hi⟩
    · exact ⟨u, hu, rfl, hfin⟩
  · rcases h.told i hi c hc with hahead | htelling | hpermit | ⟨u, hu, rfl, hlooks⟩
    · exact Or.inl hahead
    · exact Or.inr (Or.inl htelling)
    · exact Or.inr (Or.inr (Or.inl hpermit))
    · refine Or.inr (Or.inr (Or.inr ?_))
      rcases mem_modify_or (p := p) hk hu with rfl | hu
      · exact ⟨_, mem_modify_self hk, rfl, hheeds c hlooks hi hc⟩
      · exact ⟨u, hu, rfl, hlooks⟩

/-- A session changes, and what it shows then is looked for. -/
theorem Told.setInner (h : Told inner watchers w W) {r : PolledInner}
    (hr : ∀ c, r.Shows c → i ∈ W.inners → i ∈ W.ahead c ∨ r.telling = true ∨ r.permit = true ∨
      ∃ v ∈ watchers, v.inner = i ∧ v.phase.Heeds c) :
    Told (Function.update inner i r) watchers w W := by
  refine ⟨h.own, h.present, fun j hj c hc => ?_⟩
  by_cases hij : j = i
  · subst hij
    rw [Function.update_self] at hc ⊢
    exact hr c hc hj
  · rw [Function.update_of_ne hij] at hc ⊢
    exact h.told j hj c hc

/-- The wait itself goes on. -/
theorem Told.check (h : Told inner watchers w W) {phase : WaitPhase}
    (hahead : ∀ i c, i ∈ W.ahead c → i ∈ (W.setPhase phase).ahead c ∨ ¬ (inner i).Shows c) :
    Told inner watchers w (W.setPhase phase) := by
  refine ⟨h.own, h.present, fun i hi c hc => ?_⟩
  rcases h.told i hi c hc with hin | hrest
  · exact Or.inl ((hahead i c hin).resolve_right (not_not_intro hc))
  · exact Or.inr hrest

/-! ## The invariant -/

namespace LongPolls

variable {s t : LongPolls} {e : PollEvent}

/-- Every wait that has neither returned nor been signalled is told. -/
def Attended (s : LongPolls) : Prop :=
  ∀ w W, s.waits[w]? = some W → W.phase ≠ .returned → W.signal = false →
    Told s.inner s.watchers w W

/-- Nobody sleeps beside a permit. -/
def NoIdlePermit (s : LongPolls) : Prop :=
  ∀ v ∈ s.watchers, v.phase = .parked → (s.inner v.inner).permit = false

/-- No watcher is left at the sessions of a wait that begins. -/
def Alone (s : LongPolls) : PollEvent → Prop
  | .call inners => ∀ v ∈ s.watchers, v.phase = .finished ∨ v.inner ∉ inners
  | _ => True

theorem notifyOne_cases {woken : Option Nat} (h : s.notifyOne i woken = some t) :
    (∃ k v, s.watchers[k]? = some v ∧ v.inner = i ∧ v.phase = .parked ∧
      t = s.setPhase k .notified) ∨
    ((∀ v ∈ s.watchers, v.inner = i → v.phase ≠ .parked) ∧
      t = s.setInner i fun r => { r with permit := true }) := by
  cases woken with
  | some k =>
      obtain ⟨v, hk, h⟩ := Option.bind_eq_some_iff.mp h
      obtain ⟨⟨hi, hparked⟩, ht⟩ := Option.ite_none_right_eq_some.mp h
      exact Or.inl ⟨k, v, hk, hi, hparked, (Option.some.inj ht).symm⟩
  | none =>
      obtain ⟨hnone, ht⟩ := Option.ite_none_right_eq_some.mp h
      exact Or.inr ⟨hnone, (Option.some.inj ht).symm⟩

theorem check_eq_setWait (h : s.check w W = some t) : ∃ phase, t = s.setWait w phase := by
  unfold LongPolls.check at h
  split at h
  · split at h <;> exact ⟨_, (Option.some.inj h).symm⟩
  · obtain ⟨i, -, rfl⟩ := Option.map_eq_some_iff.mp h
    exact ⟨_, rfl⟩
  · cases h
  · cases h

/-- What an event can do. -/
inductive Stepped (s : LongPolls) : PollEvent → LongPolls → Prop
  | fill {i n : Nat} : Stepped s (.fill i n)
      (s.setInner i fun r => { r with buffered := r.buffered + n, telling := true })
  | close {i : Nat} : Stepped s (.close i)
      (s.setInner i fun r => { r with eof := true, telling := true })
  | notify {i : Nat} {woken : Option Nat} {u : LongPolls} (hu : s.notifyOne i woken = some u) :
      Stepped s (.notify i woken) (u.setInner i fun r => { r with telling := false })
  | drain {i n : Nat} : Stepped s (.drain i n)
      (s.setInner i fun r => { r with buffered := r.buffered - n })
  | call {inners : List Nat} : Stepped s (.call inners) (s.call inners)
  | watch {k : Nat} {v : PollWatcher} {t : LongPolls} (hk : s.watchers[k]? = some v)
      (ht : s.watch k v = some t) : Stepped s (.watch k) t
  | drop {k : Nat} {woken : Option Nat} {v : PollWatcher} {t : LongPolls}
      (hk : s.watchers[k]? = some v)
      (hreturned : (s.waits[v.wait]?).any (fun W => decide (W.phase = .returned)) = true)
      (ht : s.dropWatcher k v woken = some t) : Stepped s (.drop k woken) t
  | check {w : Nat} {W : PollWait} {t : LongPolls} (hW : s.waits[w]? = some W)
      (ht : s.check w W = some t) : Stepped s (.check w) t
  | recv {w : Nat} {W : PollWait} (hW : s.waits[w]? = some W) (hsignal : W.signal = true) :
      Stepped s (.recv w) (s.setWait w .returned)
  | leave {w : Nat} {W : PollWait} (hW : s.waits[w]? = some W) :
      Stepped s (.leave w) (s.setWait w .returned)

theorem Stepped.of_step (h : s.step e = some t) : Stepped s e t := by
  cases e with
  | fill i n =>
      obtain ⟨-, h⟩ := Option.ite_none_left_eq_some.mp h
      cases h
      exact .fill
  | close i =>
      obtain ⟨-, h⟩ := Option.ite_none_left_eq_some.mp h
      cases h
      exact .close
  | notify i woken =>
      obtain ⟨-, h⟩ := Option.ite_none_right_eq_some.mp h
      obtain ⟨u, hu, rfl⟩ := Option.map_eq_some_iff.mp h
      exact .notify hu
  | drain i n =>
      obtain ⟨-, h⟩ := Option.ite_none_right_eq_some.mp h
      cases h
      exact .drain
  | call inners =>
      cases h
      exact .call
  | watch k =>
      obtain ⟨v, hk, h⟩ := Option.bind_eq_some_iff.mp h
      exact .watch hk h
  | drop k woken =>
      obtain ⟨v, hk, h⟩ := Option.bind_eq_some_iff.mp h
      obtain ⟨hreturned, h⟩ := Option.ite_none_right_eq_some.mp h
      exact .drop hk hreturned h
  | check w =>
      obtain ⟨W, hW, h⟩ := Option.bind_eq_some_iff.mp h
      exact .check hW h
  | recv w =>
      obtain ⟨W, hW, h⟩ := Option.bind_eq_some_iff.mp h
      obtain ⟨⟨-, hsignal⟩, h⟩ := Option.ite_none_right_eq_some.mp h
      cases h
      exact .recv hW hsignal
  | leave w =>
      obtain ⟨W, hW, h⟩ := Option.bind_eq_some_iff.mp h
      obtain ⟨-, h⟩ := Option.ite_none_left_eq_some.mp h
      cases h
      exact .leave hW

/-! ### Permits -/

theorem NoIdlePermit.setPhase (h : s.NoIdlePermit) (hk : s.watchers[k]? = some v)
    (hp : p = .parked → (s.inner v.inner).permit = false) : (s.setPhase k p).NoIdlePermit := by
  intro u hu hparked
  rcases of_mem_modify hk hu with rfl | hu
  · exact hp hparked
  · exact h u hu hparked

theorem NoIdlePermit.setInner (h : s.NoIdlePermit) {f : PolledInner → PolledInner}
    (hf : (f (s.inner i)).permit = true → (s.inner i).permit = true ∨
      ∀ v ∈ s.watchers, v.inner = i → v.phase ≠ .parked) : (s.setInner i f).NoIdlePermit := by
  intro u hu hparked
  show (Function.update s.inner i _ u.inner).permit = false
  by_cases hi : u.inner = i
  · subst hi
    rw [Function.update_self, Bool.eq_false_iff]
    intro hpermit
    rcases hf hpermit with hold | hnone
    · exact absurd hold (Bool.eq_false_iff.mp (h u hu hparked))
    · exact hnone u hu rfl hparked
  · rw [Function.update_of_ne hi]
    exact h u hu hparked

theorem NoIdlePermit.notifyOne {woken : Option Nat} (h : s.NoIdlePermit)
    (ht : s.notifyOne i woken = some t) : t.NoIdlePermit := by
  rcases notifyOne_cases ht with ⟨k, v, hk, -, -, rfl⟩ | ⟨hnone, rfl⟩
  · exact h.setPhase hk nofun
  · exact h.setInner fun _ => Or.inr hnone

theorem NoIdlePermit.watch (h : s.NoIdlePermit) (hk : s.watchers[k]? = some v)
    (ht : s.watch k v = some t) : t.NoIdlePermit := by
  unfold LongPolls.watch at ht
  split at ht
  · split at ht
    next hpermit =>
      cases ht
      have hreads : (s.setPhase k .readsEof).NoIdlePermit := h.setPhase hk nofun
      exact hreads.setInner nofun
    next hpermit =>
      cases ht
      exact h.setPhase hk fun _ => by simpa using hpermit
  · cases ht
    exact h.setPhase hk nofun
  · cases ht
    exact h.setPhase hk fun hp => by split_ifs at hp
  · cases ht
    exact h.setPhase hk fun hp => by split_ifs at hp
  · cases ht
    exact h.setPhase hk nofun
  · cases ht
  · cases ht

theorem NoIdlePermit.dropWatcher {woken : Option Nat} (h : s.NoIdlePermit)
    (hk : s.watchers[k]? = some v) (ht : s.dropWatcher k v woken = some t) : t.NoIdlePermit := by
  have hgone : (s.setPhase k .finished).NoIdlePermit := h.setPhase hk nofun
  unfold LongPolls.dropWatcher at ht
  split at ht
  · cases ht
  · split at ht
    · exact hgone.notifyOne ht
    · cases ht
      exact hgone

theorem step_noIdlePermit (h : s.NoIdlePermit) (ht : s.step e = some t) : t.NoIdlePermit := by
  cases Stepped.of_step ht with
  | fill => exact h.setInner Or.inl
  | close => exact h.setInner Or.inl
  | notify hu => exact (h.notifyOne hu).setInner Or.inl
  | drain => exact h.setInner Or.inl
  | call =>
      intro u hu hparked
      rcases List.mem_append.mp hu with hu | hu
      · exact h u hu hparked
      · obtain ⟨i, -, rfl⟩ := List.mem_map.mp hu
        cases hparked
  | watch hk ht => exact h.watch hk ht
  | drop hk hreturned ht => exact h.dropWatcher hk ht
  | check hW ht =>
      obtain ⟨phase, rfl⟩ := check_eq_setWait ht
      exact h
  | recv => exact h
  | leave => exact h

/-! ### What the waits are told -/

theorem Attended.notifyOne {woken : Option Nat} (h : s.Attended)
    (ht : s.notifyOne i woken = some t) : t.Attended := by
  intro w W hW hout hsignal
  rcases notifyOne_cases ht with ⟨k, v, hk, -, hparked, rfl⟩ | ⟨-, rfl⟩
  · refine (h w W hW hout hsignal).setPhase hk (by simp [hparked]) nofun fun c hheeds => ?_
    exact fun _ _ => heeds_notified c
  · exact (h w W hW hout hsignal).setInner fun c _ _ => Or.inr (Or.inr (Or.inl rfl))

/-- The reader is done with telling: somebody was woken, or there is a permit. -/
theorem Attended.notify {woken : Option Nat} (h : s.Attended)
    (ht : s.notifyOne i woken = some t) :
    (t.setInner i fun r => { r with telling := false }).Attended := by
  intro w W hW hout hsignal
  refine (h.notifyOne ht w W hW hout hsignal).setInner fun c _ _ => ?_
  rcases notifyOne_cases ht with ⟨k, v, hk, hi, -, rfl⟩ | ⟨-, rfl⟩
  · exact Or.inr (Or.inr (Or.inr ⟨_, mem_modify_self hk, hi, heeds_notified c⟩))
  · refine Or.inr (Or.inr (Or.inl ?_))
    show (Function.update s.inner i _ i).permit = true
    rw [Function.update_self]

theorem Attended.watch (h : s.Attended) (hk : s.watchers[k]? = some v)
    (ht : s.watch k v = some t) : t.Attended := by
  intro w W hW hout hsignal
  unfold LongPolls.watch at ht
  split at ht
  next hphase =>
    split at ht
    · cases ht
      have hreads : Told s.inner (s.setPhase k .readsEof).watchers w W :=
        (h w W hW hout hsignal).setPhase hk (by simp [hphase]) nofun
          fun c _ _ _ => heeds_readsEof c
      refine hreads.setInner fun c _ _ => ?_
      exact Or.inr (Or.inr (Or.inr ⟨_, mem_modify_self hk, rfl, heeds_readsEof c⟩))
    · cases ht
      refine (h w W hW hout hsignal).setPhase hk (by simp [hphase]) nofun fun c hheeds => ?_
      cases c <;> simp [WatcherPhase.Heeds, hphase] at hheeds
  next hphase =>
    cases ht
    exact (h w W hW hout hsignal).setPhase hk (by simp [hphase]) nofun
      fun c _ _ _ => heeds_readsEof c
  next hphase =>
    cases ht
    refine (h w W hW hout hsignal).setPhase hk (by simp [hphase])
      (fun hp => by split_ifs at hp) fun c _ _ hshows => ?_
    -- it has seen the end, or goes on to look at the data
    split_ifs with heof
    · exact heeds_signals c
    · cases c with
      | atEnd => exact absurd hshows heof
      | data => exact Or.inr (Or.inr (Or.inl rfl))
  next hphase =>
    cases ht
    refine (h w W hW hout hsignal).setPhase hk (by simp [hphase])
      (fun hp => by split_ifs at hp) fun c hheeds _ hshows => ?_
    split_ifs with hempty
    · cases c with
      | atEnd => simp [WatcherPhase.Heeds, hphase] at hheeds
      | data => exact absurd hempty hshows
    · exact heeds_signals c
  next hphase =>
    cases ht
    change (s.waits.modify v.wait PollWait.trySend)[w]? = some W at hW
    by_cases hw : v.wait = w
    · -- the wait of the watcher is signalled
      rw [hw, List.getElem?_modify_eq] at hW
      obtain ⟨W', -, rfl⟩ := Option.map_eq_some_iff.mp hW
      cases hsignal
    · rw [List.getElem?_modify_ne _ _ hw] at hW
      have htold := h w W hW hout hsignal
      have hforeign : v.inner ∉ W.inners := fun hin =>
        hw (htold.own v (List.mem_of_getElem? hk) (by simp [hphase]) hin)
      exact htold.setPhase hk (by simp [hphase]) (fun _ => hforeign)
        fun c _ hin => absurd hin hforeign
  · cases ht
  · cases ht

theorem Attended.dropWatcher {woken : Option Nat} (h : s.Attended)
    (hk : s.watchers[k]? = some v)
    (hreturned : (s.waits[v.wait]?).any (fun W => decide (W.phase = .returned)) = true)
    (ht : s.dropWatcher k v woken = some t) : t.Attended := by
  obtain ⟨hup, ht⟩ := Option.ite_none_left_eq_some.mp ht
  have hgone : (s.setPhase k .finished).Attended := by
    intro w W hW hout hsignal
    have htold := h w W hW hout hsignal
    have hforeign : v.inner ∉ W.inners := by
      intro hin
      have hw := htold.own v (List.mem_of_getElem? hk) hup hin
      have hW : s.waits[v.wait]? = some W := hw ▸ hW
      rw [hW] at hreturned
      exact hout (by simpa using hreturned)
    exact htold.setPhase hk hup (fun _ => hforeign) fun c _ hin => absurd hin hforeign
  split at ht
  · exact hgone.notifyOne ht
  · cases ht
    exact hgone

theorem Attended.call (h : s.Attended) {inners : List Nat} (halone : s.Alone (.call inners)) :
    (s.call inners).Attended := by
  intro w W hW hout hsignal
  change (s.waits ++ [_])[w]? = some W at hW
  rcases lt_or_ge w s.waits.length with hlt | hle
  · rw [List.getElem?_append_left hlt] at hW
    have htold := h w W hW hout hsignal
    refine ⟨fun u hu hfin hin => ?_, fun i hi => ?_, fun i hi c hc => ?_⟩
    · rcases List.mem_append.mp hu with hu | hu
      · exact htold.own u hu hfin hin
      · -- a session of a wait that is out has a watcher of its own
        obtain ⟨i, hi, rfl⟩ := List.mem_map.mp hu
        obtain ⟨v, hv, hvi, hup⟩ := htold.present i hin
        exact absurd (hvi ▸ hi) ((halone v hv).resolve_left hup)
    · obtain ⟨u, hu, hrest⟩ := htold.present i hi
      exact ⟨u, List.mem_append_left _ hu, hrest⟩
    · rcases htold.told i hi c hc with hahead | htelling | hpermit | ⟨u, hu, hrest⟩
      · exact Or.inl hahead
      · exact Or.inr (Or.inl htelling)
      · exact Or.inr (Or.inr (Or.inl hpermit))
      · exact Or.inr (Or.inr (Or.inr ⟨u, List.mem_append_left _ hu, hrest⟩))
  · rw [List.getElem?_append_right hle, List.getElem?_singleton] at hW
    obtain ⟨hw, hW⟩ := Option.ite_none_right_eq_some.mp hW
    cases hW
    have hphase : (if inners.isEmpty then WaitPhase.returned else .checksEof 0) = .checksEof 0 :=
      if_neg fun hnil => hout (if_pos hnil)
    refine ⟨fun u hu hfin hin => ?_, fun i hi => ?_, fun i hi c hc => Or.inl ?_⟩
    · rcases List.mem_append.mp hu with hu | hu
      · exact absurd hin ((halone u hu).resolve_left hfin)
      · obtain ⟨i, -, rfl⟩ := List.mem_map.mp hu
        show s.waits.length = w
        omega
    · exact ⟨⟨i, s.waits.length, .calling⟩, List.mem_append_right _ (List.mem_map.mpr ⟨i, hi, rfl⟩),
        rfl, nofun⟩
    · unfold PollWait.ahead
      simp only [hphase]
      exact hi

theorem Attended.setWait (h : s.Attended) {W : PollWait} (hW : s.waits[w]? = some W)
    {phase : WaitPhase} (hnext : phase ≠ .returned → W.phase ≠ .returned ∧
      ∀ i c, i ∈ W.ahead c → i ∈ (W.setPhase phase).ahead c ∨ ¬ (s.inner i).Shows c) :
    (s.setWait w phase).Attended := by
  intro w' W' hW' hout hsignal
  change (s.waits.modify w (PollWait.setPhase phase))[w']? = some W' at hW'
  by_cases hw : w = w'
  · subst hw
    rw [List.getElem?_modify_eq, hW] at hW'
    cases hW'
    obtain ⟨hbefore, hahead⟩ := hnext hout
    exact (h w W hW hbefore hsignal).check hahead
  · rw [List.getElem?_modify_ne _ _ hw] at hW'
    exact h w' W' hW' hout hsignal

theorem drop_of_getElem? {l : List Nat} {k i : Nat} (h : l[k]? = some i) :
    l.drop k = i :: l.drop (k + 1) := by
  obtain ⟨hlt, rfl⟩ := List.getElem?_eq_some_iff.mp h
  exact List.drop_eq_getElem_cons hlt

theorem Attended.check (h : s.Attended) (hW : s.waits[w]? = some W)
    (ht : s.check w W = some t) : t.Attended := by
  unfold LongPolls.check at ht
  split at ht
  next k hphase =>
    split at ht
    next hnone =>
      cases ht
      refine h.setWait hW fun _ => ⟨by simp [hphase], fun i c hi => ?_⟩
      -- no session is left to look at
      have hnil : W.inners.drop k = [] :=
        List.drop_eq_nil_of_le (List.getElem?_eq_none_iff.mp hnone)
      simp [PollWait.ahead, hphase, hnil] at hi
    next j hj =>
      cases ht
      refine h.setWait hW fun hout => ⟨by simp [hphase], fun i c hi => ?_⟩
      -- the session that was looked at is not at its end
      have heof : ¬ (s.inner j).eof = true := fun heof => hout (if_pos heof)
      rw [if_neg heof]
      cases c with
      | atEnd =>
          simp only [PollWait.ahead, hphase, drop_of_getElem? hj, PollWait.setPhase,
            List.mem_cons] at hi ⊢
          rcases hi with rfl | hi
          · exact Or.inr heof
          · exact Or.inl hi
      | data =>
          simp only [PollWait.ahead, hphase, PollWait.setPhase] at hi ⊢
          exact Or.inl hi
  next k hphase =>
    obtain ⟨j, hj, rfl⟩ := Option.map_eq_some_iff.mp ht
    refine h.setWait hW fun hout => ⟨by simp [hphase], fun i c hi => ?_⟩
    -- the session that was looked at has nothing to read
    have hempty : (s.inner j).buffered = 0 := by_contra fun hdata => hout (if_neg hdata)
    rw [if_pos hempty]
    cases c with
    | atEnd =>
        simp only [PollWait.ahead, hphase, PollWait.setPhase] at hi ⊢
        exact Or.inl hi
    | data =>
        simp only [PollWait.ahead, hphase, drop_of_getElem? hj, PollWait.setPhase,
          List.mem_cons] at hi ⊢
        rcases hi with rfl | hi
        · exact Or.inr (not_not_intro hempty)
        · exact Or.inl hi
  · cases ht
  · cases ht

/-- **Step lemma.** -/
theorem step_attended (h : s.Attended) (halone : s.Alone e) (ht : s.step e = some t) :
    t.Attended := by
  cases Stepped.of_step ht with
  | fill =>
      exact fun w W hW hout hsignal =>
        (h w W hW hout hsignal).setInner fun _ _ _ => Or.inr (Or.inl rfl)
  | close =>
      exact fun w W hW hout hsignal =>
        (h w W hW hout hsignal).setInner fun _ _ _ => Or.inr (Or.inl rfl)
  | notify hu => exact h.notify hu
  | @drain i n =>
      -- a buffer that is not empty now was not empty before
      intro w W hW hout hsignal
      refine (h w W hW hout hsignal).setInner fun c hc hin => ?_
      refine (h w W hW hout hsignal).told i hin c ?_
      cases c with
      | atEnd => exact hc
      | data => exact fun hempty => hc (by simp [hempty])
  | call => exact h.call halone
  | watch hk ht => exact h.watch hk ht
  | drop hk hreturned ht => exact h.dropWatcher hk hreturned ht
  | check hW ht => exact h.check hW ht
  | recv hW => exact h.setWait hW fun hout => absurd rfl hout
  | leave hW => exact h.setWait hW fun hout => absurd rfl hout

/-! ## Waking -/

/-- What the node does by itself: readers tell, watchers go on, the wait takes its signal. No data
comes, and no deadline. -/
def Own (w : Nat) : PollEvent → Prop
  | .notify _ _ | .watch _ => True
  | .recv w' => w' = w
  | _ => False

def Returns (s : LongPolls) (w : Nat) : Prop :=
  ∃ es t, StepRun.run step s es = some t ∧ (∀ e ∈ es, Own w e) ∧
    ∃ W, t.waits[w]? = some W ∧ W.phase = .returned

theorem Returns.cons (hstep : s.step e = some t) (hown : Own w e) (h : t.Returns w) :
    s.Returns w := by
  obtain ⟨es, u, hrun, hall, hreturned⟩ := h
  refine ⟨e :: es, u, ?_, List.forall_mem_cons.mpr ⟨hown, hall⟩, hreturned⟩
  rw [StepRun.run_cons, hstep]
  exact hrun

theorem returns_of_signal (hW : s.waits[w]? = some W) (hphase : W.phase = .sleeps)
    (hsignal : W.signal = true) : s.Returns w := by
  refine ⟨[.recv w], s.setWait w .returned, ?_, by simp [Own], W.setPhase .returned, ?_, rfl⟩
  · have hstep : s.step (.recv w) = some (s.setWait w .returned) := by
      show (s.waits[w]?).bind _ = _
      rw [hW]
      exact if_pos ⟨hphase, hsignal⟩
    rw [StepRun.run_cons, hstep]
    rfl
  · show (s.waits.modify w _)[w]? = _
    rw [List.getElem?_modify_eq, hW]
    rfl

section

variable (hW : s.waits[w]? = some W) (hsleeps : W.phase = .sleeps) (hk : s.watchers[k]? = some v)
  (hw : v.wait = w)

theorem watch_step {u : LongPolls} (hk : s.watchers[k]? = some v) (hphase : v.phase = p)
    (h : s.watch k { v with phase := p } = some u) : s.step (.watch k) = some u := by
  subst hphase
  show (s.watchers[k]?).bind (s.watch k) = some u
  rw [hk]
  exact h

theorem getElem?_setPhase (hk : s.watchers[k]? = some v) (p : WatcherPhase) :
    (s.setPhase k p).watchers[k]? = some (v.setPhase p) := by
  show (s.watchers.modify k _)[k]? = _
  rw [List.getElem?_modify_eq, hk]
  rfl

include hW hsleeps hk hw

theorem returns_of_signals (hphase : v.phase = .signals) : s.Returns w := by
  refine Returns.cons (watch_step hk hphase rfl) trivial ?_
  refine returns_of_signal (W := W.trySend) ?_ hsleeps rfl
  show (s.waits.modify v.wait _)[w]? = _
  rw [hw, List.getElem?_modify_eq, hW]
  rfl

theorem returns_of_locksBuffer (hphase : v.phase = .locksBuffer)
    (hdata : (s.inner v.inner).buffered ≠ 0) : s.Returns w := by
  refine Returns.cons (watch_step hk hphase rfl) trivial ?_
  rw [if_neg hdata]
  exact returns_of_signals (s := s.setPhase k .signals) hW hsleeps (getElem?_setPhase hk _) hw rfl

theorem returns_of_readsEof (hphase : v.phase = .readsEof) {c : PollSign}
    (hshows : (s.inner v.inner).Shows c) : s.Returns w := by
  refine Returns.cons (watch_step hk hphase rfl) trivial ?_
  split_ifs with heof
  · exact returns_of_signals (s := s.setPhase k .signals) hW hsleeps (getElem?_setPhase hk _) hw
      rfl
  · cases c with
    | atEnd => exact absurd hshows heof
    | data =>
        exact returns_of_locksBuffer (s := s.setPhase k .locksBuffer) hW hsleeps
          (getElem?_setPhase hk _) hw rfl hshows

theorem returns_of_notified (hphase : v.phase = .notified) {c : PollSign}
    (hshows : (s.inner v.inner).Shows c) : s.Returns w := by
  refine Returns.cons (watch_step hk hphase rfl) trivial ?_
  exact returns_of_readsEof (s := s.setPhase k .readsEof) hW hsleeps (getElem?_setPhase hk _) hw
    rfl hshows

theorem returns_of_heeds {c : PollSign} (hheeds : v.phase.Heeds c)
    (hshows : (s.inner v.inner).Shows c) : s.Returns w := by
  cases c with
  | atEnd =>
      rcases hheeds with hphase | hphase | hphase
      · exact returns_of_notified hW hsleeps hk hw hphase hshows
      · exact returns_of_readsEof hW hsleeps hk hw hphase hshows
      · exact returns_of_signals hW hsleeps hk hw hphase
  | data =>
      rcases hheeds with hphase | hphase | hphase | hphase
      · exact returns_of_notified hW hsleeps hk hw hphase hshows
      · exact returns_of_readsEof hW hsleeps hk hw hphase hshows
      · exact returns_of_locksBuffer hW hsleeps hk hw hphase hshows
      · exact returns_of_signals hW hsleeps hk hw hphase

theorem returns_of_calling (hphase : v.phase = .calling)
    (hpermit : (s.inner v.inner).permit = true) {c : PollSign}
    (hshows : (s.inner v.inner).Shows c) : s.Returns w := by
  refine Returns.cons (watch_step hk hphase (if_pos hpermit)) trivial ?_
  refine returns_of_readsEof (s := (s.setPhase k .readsEof).setInner v.inner _) hW hsleeps
    (getElem?_setPhase hk _) hw rfl (c := c) ?_
  show (Function.update s.inner v.inner _ v.inner).Shows c
  rw [Function.update_self]
  cases c <;> exact hshows

/-- A watcher that does not sleep beside a permit takes it, at the latest on its next round. -/
theorem returns_of_permit (hup : v.phase ≠ .finished) (hawake : v.phase ≠ .parked)
    (hpermit : (s.inner v.inner).permit = true) {c : PollSign}
    (hshows : (s.inner v.inner).Shows c) : s.Returns w := by
  cases hphase : v.phase with
  | calling => exact returns_of_calling hW hsleeps hk hw hphase hpermit hshows
  | parked => exact absurd hphase hawake
  | notified => exact returns_of_notified hW hsleeps hk hw hphase hshows
  | readsEof => exact returns_of_readsEof hW hsleeps hk hw hphase hshows
  | locksBuffer =>
      by_cases hdata : (s.inner v.inner).buffered = 0
      · refine Returns.cons (watch_step hk hphase rfl) trivial ?_
        rw [if_pos hdata]
        exact returns_of_calling (s := s.setPhase k .calling) hW hsleeps (getElem?_setPhase hk _)
          hw rfl hpermit hshows
      · exact returns_of_locksBuffer hW hsleeps hk hw hphase hdata
  | signals => exact returns_of_signals hW hsleeps hk hw hphase
  | finished => exact absurd hphase hup

end

theorem Shows.told {r : PolledInner} {c : PollSign} (h : r.Shows c) (permit : Bool) :
    PolledInner.Shows { r with telling := false, permit } c := by
  cases c <;> exact h

/-- A wait that sleeps beside a session with something to show is not left asleep. -/
theorem returns_of_told (h : Told s.inner s.watchers w W) (hidle : s.NoIdlePermit)
    (hW : s.waits[w]? = some W) (hsleeps : W.phase = .sleeps) (hi : i ∈ W.inners) {c : PollSign}
    (hshows : (s.inner i).Shows c) : s.Returns w := by
  obtain ⟨v, hv, rfl, hup⟩ := h.present i hi
  obtain ⟨k, hk⟩ := List.mem_iff_getElem?.mp hv
  rcases h.told v.inner hi c hshows with hahead | htelling | hpermit | ⟨u, hu, hui, hheeds⟩
  · simp [PollWait.ahead, hsleeps] at hahead
  · by_cases hparked : ∀ u ∈ s.watchers, u.inner = v.inner → u.phase ≠ .parked
    · -- nobody sleeps there: the permit stays for the watcher of the wait
      have hstep : s.step (.notify v.inner none) = some ((s.setInner v.inner fun r =>
          { r with permit := true }).setInner v.inner fun r => { r with telling := false }) := by
        simp only [step, if_pos htelling, notifyOne, if_pos hparked, Option.map_some]
      refine Returns.cons hstep trivial ?_
      refine returns_of_permit (v := v) hW hsleeps hk (h.own v hv hup hi) hup (hparked v hv rfl)
        ?_ (c := c) ?_
      · simp [LongPolls.setInner]
      · simp only [LongPolls.setInner, Function.update_self]
        exact Shows.told hshows true
    · push Not at hparked
      obtain ⟨u, hu, hui, hasleep⟩ := hparked
      obtain ⟨j, hj⟩ := List.mem_iff_getElem?.mp hu
      have hstep : s.step (.notify v.inner (some j)) = some ((s.setPhase j .notified).setInner
          v.inner fun r => { r with telling := false }) := by
        simp [step, htelling, notifyOne, hj, hui, hasleep]
      refine Returns.cons hstep trivial ?_
      refine returns_of_notified (s := (s.setPhase j .notified).setInner v.inner _) hW hsleeps
        (getElem?_setPhase hj _) (h.own u hu (by simp [hasleep]) (hui ▸ hi)) rfl (c := c) ?_
      show (Function.update s.inner v.inner _ u.inner).Shows c
      rw [hui, Function.update_self]
      exact Shows.told hshows _
  · have hawake : v.phase ≠ .parked := fun hasleep =>
      absurd hpermit (Bool.eq_false_iff.mp (hidle v hv hasleep))
    exact returns_of_permit hW hsleeps hk (h.own v hv hup hi) hup hawake hpermit hshows
  · obtain ⟨j, hj⟩ := List.mem_iff_getElem?.mp hu
    have hlooks : u.phase ≠ .finished := by
      intro hfin
      rw [hfin] at hheeds
      cases c <;> simp [WatcherPhase.Heeds] at hheeds
    exact returns_of_heeds hW hsleeps hj (h.own u hu hlooks (hui ▸ hi)) hheeds (hui ▸ hshows)

/-- A wait that sleeps while one of its sessions has data, or is at its end, returns without new
data and before its deadline. -/
def Wakes (s : LongPolls) : Prop :=
  ∀ w W, s.waits[w]? = some W → W.phase = .sleeps →
    ∀ i ∈ W.inners, ((s.inner i).eof = true ∨ (s.inner i).buffered ≠ 0) → s.Returns w

/-- **No wake-up is lost**, as long as every wait begins with sessions that no other watcher is left
at. -/
theorem wait_for_any_drainable_wakes {es : List PollEvent}
    (h : StepRun.AllSteps step Alone start es) : StepRun.AllStates step Wakes start es := by
  refine StepRun.allStates_of_allSteps (I := fun s => s.Attended ∧ s.NoIdlePermit)
    (fun s e t hs halone ht => ⟨step_attended hs.1 halone ht, step_noIdlePermit hs.2 ht⟩)
    (fun s hs w W hW hsleeps i hi hshown => ?_) ⟨nofun, nofun⟩ h
  cases hsignal : W.signal with
  | true => exact returns_of_signal hW hsleeps hsignal
  | false =>
      have htold := hs.1 w W hW (by simp [hsleeps]) hsignal
      rcases hshown with heof | hdata
      · exact returns_of_told htold hs.2 hW hsleeps hi (c := .atEnd) heof
      · exact returns_of_told htold hs.2 hW hsleeps hi (c := .data) hdata

/-- Data that comes just before the watcher sleeps. -/
theorem wait_for_any_drainable_wakes_one : StepRun.AllStates step Wakes start
    [.call [1], .check 0, .check 0, .check 0, .fill 1 5, .watch 0, .notify 1 (some 0)] :=
  wait_for_any_drainable_wakes (by simp [StepRun.AllSteps, Alone, start])

/-- Of two waits at one session the first takes the wake-up and leaves: the second sleeps on beside
the data. -/
example : ∃ s, StepRun.run step start [.call [1], .call [1], .watch 0, .watch 1, .check 0, .check 0,
      .check 0, .check 1, .check 1, .check 1, .fill 1 5, .notify 1 (some 0), .watch 0, .leave 0,
      .drop 0 none] = some s ∧
    s.inner 1 = ⟨false, 5, false, false⟩ ∧ s.watchers[1]? = some ⟨1, 1, .parked⟩ ∧
    s.waits[1]? = some ⟨[1], false, .sleeps⟩ :=
  ⟨_, rfl, rfl, rfl, rfl⟩

/-! ## Stale permits -/

/-- At some point behind the call of the wait, one of its sessions had data or was at its end. -/
def Shown (es : List PollEvent) (w : Nat) (W : PollWait) : Prop :=
  ∃ fs gs u, es = fs ++ gs ∧ StepRun.run step start fs = some u ∧ w < u.waits.length ∧
    ∃ i ∈ W.inners, (u.inner i).eof = true ∨ (u.inner i).buffered ≠ 0

/-- Every signal, and every one that a watcher is about to send, comes from something shown. -/
structure Justified (es : List PollEvent) (watchers : List PollWatcher) (waits : List PollWait) :
    Prop where
  placed : ∀ v ∈ watchers, ∃ W, waits[v.wait]? = some W ∧ v.inner ∈ W.inners
  signalling : ∀ v ∈ watchers, v.phase = .signals →
    ∀ W, waits[v.wait]? = some W → Shown es v.wait W
  signalled : ∀ w W, waits[w]? = some W → W.signal = true → Shown es w W

variable {es : List PollEvent} {waits : List PollWait}

theorem Shown.mono (h : Shown es w W) (e : PollEvent) : Shown (es ++ [e]) w W := by
  obtain ⟨fs, gs, u, rfl, hrest⟩ := h
  exact ⟨fs, gs ++ [e], u, List.append_assoc fs gs [e], hrest⟩

theorem Justified.mono (h : Justified es watchers waits) (e : PollEvent) :
    Justified (es ++ [e]) watchers waits :=
  ⟨h.placed, fun v hv hphase W hW => (h.signalling v hv hphase W hW).mono e,
    fun w W hW hsignal => (h.signalled w W hW hsignal).mono e⟩

theorem Justified.setPhase (h : Justified es watchers waits) (hk : watchers[k]? = some v)
    (hp : p = .signals → ∀ W, waits[v.wait]? = some W → Shown es v.wait W) :
    Justified es (watchers.modify k (PollWatcher.setPhase p)) waits := by
  refine ⟨fun u hu => ?_, fun u hu hphase => ?_, h.signalled⟩
  · rcases of_mem_modify hk hu with rfl | hu
    · exact h.placed v (List.mem_of_getElem? hk)
    · exact h.placed u hu
  · rcases of_mem_modify hk hu with rfl | hu
    · exact hp hphase
    · exact h.signalling u hu hphase

/-- A wait changes, but not what it waits for; what it is signalled was shown. -/
theorem Justified.modifyWait (h : Justified es watchers waits) {f : PollWait → PollWait}
    (hinners : ∀ W, (f W).inners = W.inners)
    (hf : ∀ W, waits[w]? = some W → (f W).signal = true → Shown es w W) :
    Justified es watchers (waits.modify w f) := by
  have hshown : ∀ {j W}, Shown es j W → Shown es j (f W) := by
    rintro j W ⟨fs, gs, u, hes, hrun, hlen, i, hi, hdrainable⟩
    exact ⟨fs, gs, u, hes, hrun, hlen, i, hinners W ▸ hi, hdrainable⟩
  refine ⟨fun v hv => ?_, fun v hv hphase W hW => ?_, fun j W hW hsignal => ?_⟩
  · obtain ⟨W, hW, hin⟩ := h.placed v hv
    by_cases hw : w = v.wait
    · refine ⟨f W, ?_, (hinners W).symm ▸ hin⟩
      rw [hw, List.getElem?_modify_eq, hW]
      rfl
    · exact ⟨W, (List.getElem?_modify_ne _ _ hw).trans hW, hin⟩
  · by_cases hw : w = v.wait
    · rw [hw, List.getElem?_modify_eq] at hW
      obtain ⟨W, hold, rfl⟩ := Option.map_eq_some_iff.mp hW
      exact hshown (h.signalling v hv hphase W hold)
    · rw [List.getElem?_modify_ne _ _ hw] at hW
      exact h.signalling v hv hphase W hW
  · by_cases hw : w = j
    · subst hw
      rw [List.getElem?_modify_eq] at hW
      obtain ⟨W, hold, rfl⟩ := Option.map_eq_some_iff.mp hW
      exact hshown (hf W hold hsignal)
    · rw [List.getElem?_modify_ne _ _ hw] at hW
      exact h.signalled j W hW hsignal

theorem Justified.setWait (h : Justified es watchers waits) (w : Nat) (phase : WaitPhase) :
    Justified es watchers (waits.modify w (PollWait.setPhase phase)) :=
  h.modifyWait (fun _ => rfl) fun W hW hsignal => h.signalled w W hW hsignal

theorem Justified.notifyOne {woken : Option Nat} (h : Justified es s.watchers s.waits)
    (ht : s.notifyOne i woken = some t) : Justified es t.watchers t.waits := by
  rcases notifyOne_cases ht with ⟨k, v, hk, -, -, rfl⟩ | ⟨-, rfl⟩
  · exact h.setPhase hk nofun
  · exact h

theorem Justified.call (h : Justified es s.watchers s.waits) (inners : List Nat) :
    Justified es (s.call inners).watchers (s.call inners).waits := by
  have hold : ∀ {j W}, s.waits[j]? = some W → (s.call inners).waits[j]? = some W := fun hW =>
    (List.getElem?_append_left (List.getElem?_eq_some_iff.mp hW).1).trans hW
  refine ⟨fun v hv => ?_, fun v hv hphase W hW => ?_, fun j W hW hsignal => ?_⟩
  · rcases List.mem_append.mp hv with hv | hv
    · obtain ⟨W, hW, hin⟩ := h.placed v hv
      exact ⟨W, hold hW, hin⟩
    · obtain ⟨i, hi, rfl⟩ := List.mem_map.mp hv
      exact ⟨_, List.getElem?_concat_length, hi⟩
  · rcases List.mem_append.mp hv with hv | hv
    · obtain ⟨W', hW', -⟩ := h.placed v hv
      cases (hold hW').symm.trans hW
      exact h.signalling v hv hphase W hW'
    · obtain ⟨i, -, rfl⟩ := List.mem_map.mp hv
      cases hphase
  · change (s.waits ++ [_])[j]? = some W at hW
    rcases lt_or_ge j s.waits.length with hlt | hle
    · rw [List.getElem?_append_left hlt] at hW
      exact h.signalled j W hW hsignal
    · rw [List.getElem?_append_right hle, List.getElem?_singleton] at hW
      obtain ⟨-, hW⟩ := Option.ite_none_right_eq_some.mp hW
      cases hW
      cases hsignal

/-- A watcher is about to signal only if it sees data or the end now. -/
theorem Justified.watch (hrun : StepRun.run step start es = some s)
    (h : Justified (es ++ [e]) s.watchers s.waits) (hk : s.watchers[k]? = some v)
    (ht : s.watch k v = some t) : Justified (es ++ [e]) t.watchers t.waits := by
  have hnow : (s.inner v.inner).eof = true ∨ (s.inner v.inner).buffered ≠ 0 →
      ∀ W, s.waits[v.wait]? = some W → Shown (es ++ [e]) v.wait W := by
    intro hdrainable W hW
    obtain ⟨W', hW', hin⟩ := h.placed v (List.mem_of_getElem? hk)
    cases hW'.symm.trans hW
    exact ⟨es, [e], s, rfl, hrun, (List.getElem?_eq_some_iff.mp hW).1, v.inner, hin, hdrainable⟩
  unfold LongPolls.watch at ht
  split at ht
  · split at ht
    · cases ht
      exact h.setPhase (p := .readsEof) hk nofun
    · cases ht
      exact h.setPhase hk nofun
  · cases ht
    exact h.setPhase hk nofun
  · cases ht
    refine h.setPhase hk fun hp => hnow (Or.inl ?_)
    by_contra heof
    rw [if_neg heof] at hp
    cases hp
  · cases ht
    refine h.setPhase hk fun hp => hnow (Or.inr fun hempty => ?_)
    rw [if_pos hempty] at hp
    cases hp
  next hphase =>
    cases ht
    exact (h.setPhase (p := .finished) hk nofun).modifyWait (fun _ => rfl) fun W hW _ =>
      h.signalling v (List.mem_of_getElem? hk) hphase W hW
  · cases ht
  · cases ht

theorem step_justified (hrun : StepRun.run step start es = some s)
    (hs : Justified es s.watchers s.waits) (ht : s.step e = some t) :
    Justified (es ++ [e]) t.watchers t.waits := by
  have h := hs.mono e
  cases Stepped.of_step ht with
  | fill => exact h
  | close => exact h
  | @notify i woken u hu =>
      have hwoken : Justified (es ++ [.notify i woken]) u.watchers u.waits := h.notifyOne hu
      exact hwoken
  | drain => exact h
  | @call inners => exact h.call inners
  | watch hk ht => exact h.watch hrun hk ht
  | drop hk hreturned ht =>
      obtain ⟨-, ht⟩ := Option.ite_none_left_eq_some.mp ht
      have hgone := h.setPhase (p := .finished) hk nofun
      split at ht
      · exact Justified.notifyOne (s := s.setPhase _ .finished) hgone ht
      · cases ht
        exact hgone
  | check hW ht =>
      obtain ⟨phase, rfl⟩ := check_eq_setWait ht
      exact h.setWait _ phase
  | recv => exact h.setWait _ .returned
  | leave => exact h.setWait _ .returned

theorem justified_of_run (hrun : StepRun.run step start es = some s) :
    Justified es s.watchers s.waits := by
  induction es using List.reverseRecOn generalizing s with
  | nil =>
      cases hrun
      exact ⟨nofun, nofun, nofun⟩
  | append_singleton es e ih =>
      rw [StepRun.run_append] at hrun
      obtain ⟨u, hu, hlast⟩ := Option.bind_eq_some_iff.mp hrun
      obtain ⟨t, ht, hend⟩ := Option.bind_eq_some_iff.mp hlast
      cases hend
      exact step_justified hu (ih hu) ht

/-- **No stale permit ends a wait**: whatever other waits leave behind, a wait that takes a signal
has had a session with data, or at its end, since its call. -/
theorem wait_for_any_drainable_shown (hrun : StepRun.run step start es = some s)
    (ht : s.step (.recv w) = some t) : ∃ W, s.waits[w]? = some W ∧ Shown es w W := by
  cases Stepped.of_step ht with
  | recv hW hsignal => exact ⟨_, hW, (justified_of_run hrun).signalled w _ hW hsignal⟩

/-- A permit that an earlier drain has left behind, and new data after it. -/
def staleThenFresh : List PollEvent :=
  [.fill 1 5, .notify 1 none, .drain 1 5, .call [1], .watch 0, .watch 0, .watch 0, .watch 0,
    .check 0, .check 0, .check 0, .fill 1 2, .notify 1 (some 0), .watch 0, .watch 0, .watch 0,
    .watch 0]

theorem wait_for_any_drainable_shown_fresh : ∃ s, StepRun.run step start staleThenFresh = some s ∧
    ∃ W, s.waits[0]? = some W ∧ Shown staleThenFresh 0 W :=
  ⟨_, rfl, wait_for_any_drainable_shown rfl rfl⟩

end LongPolls

end Rahgozar.Tunnel
