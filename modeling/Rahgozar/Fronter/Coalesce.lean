import Rahgozar.Lib.Run
import Rahgozar.Fronter.Cache

set_option autoImplicit false

/-! # Caching and coalescing of relay calls (`relay` in `src/domain_fronter.rs`)

All calls of `relay` on one fronter, with the state they share: the cache and the map `inflight`
from keys to the senders of broadcast channels. A call goes through the phases below, one step
for each stretch of code between two awaits, and may be dropped (cancelled, or unwound by a
panic) at every await. The channel in an entry of `inflight` belongs to the call that inserted
it, so it is named by that call's number; what was sent on it is in `channels`.
-/

namespace Rahgozar.Fronter

/-- Where a call stands. -/
inductive Phase where
  /-- Past the cache, at the lock of `inflight`. -/
  | checked
  /-- Receiving from the channel of the call `leader`. -/
  | waiting (leader : Nat)
  /-- In `relay_uncoalesced`. -/
  | leading
  /-- Back from `relay_uncoalesced`, at the lock of `inflight`. -/
  | relayed (a : Answer)
  | returned (a : Answer)
  | dropped
deriving DecidableEq

/-- The call has not ended. -/
def Phase.running : Phase → Bool
  | .returned _ => false
  | .dropped => false
  | _ => true

structure Call where
  request : Request
  phase : Phase
deriving DecidableEq

/-- The key of a call, if it takes part in caching and coalescing. -/
def Request.key (q : Request) : Option String :=
  if coalescible q.method q.headers q.body then some (cacheKey q.method q.url) else none

/-- The calls on one fronter and what they share; `produced` is the history of what
`relay_uncoalesced` returned. -/
structure Relays where
  cache : ResponseCache
  inflight : AList fun _ : String => Nat
  channels : AList fun _ : Nat => Answer
  calls : AList fun _ : Nat => Call
  produced : List Answer

inductive RelayEvent where
  /-- A new call, as far as the lock of `inflight` or a cache hit. -/
  | start (i : Nat) (q : Request) (now : Nat)
  /-- The call has the lock: it subscribes, or inserts an entry and leads. -/
  | enter (i : Nat)
  /-- `relay_uncoalesced` returns these bytes; `ok` tells a relayed response from an
  `error_response`. -/
  | relay (i : Nat) (bytes : Bytes) (ok : Bool) (now : Nat)
  /-- The call has the lock again: it removes its entry, sends, and returns. -/
  | publish (i : Nat)
  | receive (i : Nat)
  | drop (i : Nat)

namespace Relays

def init (maxBytes : Nat) : Relays := ⟨.empty maxBytes, ∅, ∅, ∅, []⟩

def setPhase (s : Relays) (i : Nat) (c : Call) (p : Phase) : Relays :=
  { s with calls := s.calls.insert i { c with phase := p } }

/-- `relay` up to its first await: the exit node left aside, a call looks into the cache; one
without a key goes straight to `relay_uncoalesced`. -/
def start (s : Relays) (i : Nat) (q : Request) (now : Nat) : Relays :=
  match q.key with
  | none => s.setPhase i ⟨q, .leading⟩ .leading
  | some k =>
      let s' := { s with cache := (s.cache.get k now).2 }
      match (s.cache.get k now).1 with
      | some hit => s'.setPhase i ⟨q, .checked⟩ (.returned hit)
      | none => s'.setPhase i ⟨q, .checked⟩ .checked

/-- Under the lock: subscribe to the channel of the entry, or insert one. -/
def enter (s : Relays) (i : Nat) (c : Call) (k : String) : Relays :=
  match s.inflight.lookup k with
  | some leader => s.setPhase i c (.waiting leader)
  | none => { s.setPhase i c .leading with inflight := s.inflight.insert k i }

/-- The end of `relay_uncoalesced`: a relayed response may go into the cache. -/
def finish (s : Relays) (i : Nat) (c : Call) (bytes : Bytes) (ok : Bool) (now : Nat) : Relays :=
  let a : Answer := ⟨bytes, c.request⟩
  let s' := { s with produced := s.produced ++ [a] }
  match c.request.key with
  | none => s'.setPhase i c (.returned a)
  | some k =>
      match ok, parseTtl bytes c.request.url with
      | true, some ttl => { s'.setPhase i c (.relayed a) with cache := s.cache.put k a ttl now }
      | _, _ => s'.setPhase i c (.relayed a)

/-- Under the lock: `if let Some(tx) = inflight.remove(k)`, send on the channel that was there. -/
def publish (s : Relays) (i : Nat) (c : Call) (k : String) (a : Answer) : Relays :=
  match s.inflight.lookup k with
  | none => s.setPhase i c (.returned a)
  | some leader =>
      { s.setPhase i c (.returned a) with
        inflight := s.inflight.erase k
        channels := s.channels.insert leader a }

def step (s : Relays) : RelayEvent → Option Relays
  | .start i q now => if i ∈ s.calls then none else some (s.start i q now)
  | .enter i => do
      let c ← s.calls.lookup i
      let k ← c.request.key
      if c.phase = .checked then some (s.enter i c k) else none
  | .relay i bytes ok now => do
      let c ← s.calls.lookup i
      if c.phase = .leading then some (s.finish i c bytes ok now) else none
  | .publish i => do
      let c ← s.calls.lookup i
      let k ← c.request.key
      match c.phase with
      | .relayed a => some (s.publish i c k a)
      | _ => none
  | .receive i => do
      let c ← s.calls.lookup i
      match c.phase with
      | .waiting leader => (s.channels.lookup leader).map fun a => s.setPhase i c (.returned a)
      | _ => none
  | .drop i => do
      let c ← s.calls.lookup i
      if c.phase.running then some (s.setPhase i c .dropped) else none

/-- What a step finds and does. -/
inductive Stepped (s : Relays) : RelayEvent → Relays → Prop
  | start {i : Nat} {q : Request} {now : Nat} (hi : i ∉ s.calls) :
      Stepped s (.start i q now) (s.start i q now)
  | enter {i : Nat} {c : Call} {k : String} (hc : s.calls.lookup i = some c)
      (hk : c.request.key = some k) (hp : c.phase = .checked) :
      Stepped s (.enter i) (s.enter i c k)
  | relay {i : Nat} {c : Call} {bytes : Bytes} {ok : Bool} {now : Nat}
      (hc : s.calls.lookup i = some c) (hp : c.phase = .leading) :
      Stepped s (.relay i bytes ok now) (s.finish i c bytes ok now)
  | publish {i : Nat} {c : Call} {k : String} {a : Answer} (hc : s.calls.lookup i = some c)
      (hk : c.request.key = some k) (hp : c.phase = .relayed a) :
      Stepped s (.publish i) (s.publish i c k a)
  | receive {i leader : Nat} {c : Call} {a : Answer} (hc : s.calls.lookup i = some c)
      (hp : c.phase = .waiting leader) (ha : s.channels.lookup leader = some a) :
      Stepped s (.receive i) (s.setPhase i c (.returned a))
  | drop {i : Nat} {c : Call} (hc : s.calls.lookup i = some c) (hp : c.phase.running = true) :
      Stepped s (.drop i) (s.setPhase i c .dropped)

theorem stepped {s t : Relays} {e : RelayEvent} (h : s.step e = some t) : Stepped s e t := by
  cases e with
  | start i q now =>
      simp only [step] at h
      split_ifs at h with hi
      cases h
      exact .start hi
  | enter i =>
      simp only [step, Option.bind_eq_bind, Option.bind_eq_some_iff] at h
      obtain ⟨c, hc, k, hk, h⟩ := h
      split_ifs at h with hp
      cases h
      exact .enter hc hk hp
  | relay i bytes ok now =>
      simp only [step, Option.bind_eq_bind, Option.bind_eq_some_iff] at h
      obtain ⟨c, hc, h⟩ := h
      split_ifs at h with hp
      cases h
      exact .relay hc hp
  | publish i =>
      simp only [step, Option.bind_eq_bind, Option.bind_eq_some_iff] at h
      obtain ⟨c, hc, k, hk, h⟩ := h
      split at h
      · rename_i a hp
        cases h
        exact .publish hc hk hp
      · cases h
  | receive i =>
      simp only [step, Option.bind_eq_bind, Option.bind_eq_some_iff] at h
      obtain ⟨c, hc, h⟩ := h
      split at h
      · rename_i leader hp
        obtain ⟨a, ha, rfl⟩ := Option.map_eq_some_iff.mp h
        exact .receive hc hp ha
      · cases h
  | drop i =>
      simp only [step, Option.bind_eq_bind, Option.bind_eq_some_iff] at h
      obtain ⟨c, hc, h⟩ := h
      split_ifs at h with hp
      cases h
      exact .drop hc hp

/-! ## Leaders -/

end Relays

/-- The phases between the insertion of an entry and its removal. -/
def Phase.leads : Phase → Bool
  | .leading => true
  | .relayed _ => true
  | _ => false

/-- The call has inserted the entry for `k` and has the code that removes it before it. -/
def Call.Leads (c : Call) (k : String) : Prop :=
  c.request.key = some k ∧ c.phase.leads = true

namespace Relays

variable {s t : Relays} {i : Nat} {c : Call} {k : String}

/-- Every entry of `inflight` has a running call that leads it. -/
def Live (s : Relays) : Prop :=
  ∀ k leader, s.inflight.lookup k = some leader →
    ∃ c, s.calls.lookup leader = some c ∧ c.Leads k

/-- The own steps of the call `i`, whatever it gets from `relay_uncoalesced`, send on its channel
and take the entry for `k` out. -/
def Publishes (s : Relays) (i : Nat) (k : String) : Prop :=
  ∀ bytes ok now, ∃ es u, (∀ e ∈ es, e = .relay i bytes ok now ∨ e = .publish i) ∧
    StepRun.run step s es = some u ∧ u.inflight.lookup k = none ∧
    (u.channels.lookup i).isSome = true

/-- Every entry of `inflight` has a running call that leads it, and that will remove it. -/
def Led (s : Relays) : Prop :=
  ∀ k leader, s.inflight.lookup k = some leader →
    ∃ c, s.calls.lookup leader = some c ∧ c.Leads k ∧ s.Publishes leader k

/-- Every leader has its entry in `inflight`. -/
def Owned (s : Relays) : Prop :=
  ∀ k i c, s.calls.lookup i = some c → c.Leads k → s.inflight.lookup k = some i

/-- No call is dropped while it leads. -/
def NoLeaderDropped (s : Relays) : RelayEvent → Prop
  | .drop i => ∀ c k, s.calls.lookup i = some c → ¬ c.Leads k
  | _ => True

@[simp] theorem lookup_setPhase_self (s : Relays) (i : Nat) (c : Call) (p : Phase) :
    (s.setPhase i c p).calls.lookup i = some { c with phase := p } :=
  AList.lookup_insert _

@[simp] theorem lookup_setPhase_ne (s : Relays) {i j : Nat} (c : Call) (p : Phase) (h : j ≠ i) :
    (s.setPhase i c p).calls.lookup j = s.calls.lookup j :=
  AList.lookup_insert_ne h

/-- Every entry has a leader still, if the call that changes its phase keeps its lead. -/
theorem live_setPhase {p : Phase} (hs : s.Live)
    (hkeep : ∀ c', s.calls.lookup i = some c' → c'.phase.leads = true →
      c'.request = c.request ∧ p.leads = true) : (s.setPhase i c p).Live := by
  intro k leader hk
  obtain ⟨c', hc', hkey, hlead⟩ := hs k leader hk
  by_cases hi : leader = i
  · subst hi
    obtain ⟨hreq, hp⟩ := hkeep c' hc' hlead
    exact ⟨_, lookup_setPhase_self .., by rwa [← hreq], hp⟩
  · exact ⟨c', by rwa [lookup_setPhase_ne _ _ _ hi], hkey, hlead⟩

/-- Every leader has its entry still, if the call that changes its phase gets no lead. -/
theorem owned_setPhase {p : Phase} (hs : s.Owned)
    (hkeep : ∀ k, c.request.key = some k → p.leads = true → s.inflight.lookup k = some i) :
    (s.setPhase i c p).Owned := by
  intro k j c' hc' hlead
  by_cases hj : j = i
  · subst hj
    rw [lookup_setPhase_self] at hc'
    cases hc'
    exact hkeep k hlead.1 hlead.2
  · rw [lookup_setPhase_ne _ _ _ hj] at hc'
    exact hs k j c' hc' hlead

/-- A call that does not lead may change its phase to one without a lead. -/
theorem live_setPhase_of_not_leads {p : Phase}
    (hc : ∀ c', s.calls.lookup i = some c' → c'.phase.leads = false) (hs : s.Live) :
    (s.setPhase i c p).Live :=
  live_setPhase hs fun c' hc' hlead => by
    rw [hc c' hc'] at hlead
    cases hlead

theorem owned_setPhase_of_not_leads {p : Phase} (hp : p.leads = false) (hs : s.Owned) :
    (s.setPhase i c p).Owned :=
  owned_setPhase hs fun k _ hlead => by
    rw [hp] at hlead
    cases hlead

/-! ## One step -/

theorem start_owned {q : Request} {now : Nat} (ho : s.Owned) : (s.start i q now).Owned := by
  unfold start
  cases hq : q.key with
  | none => exact owned_setPhase ho fun k hk _ => by rw [hq] at hk; cases hk
  | some k =>
      simp only
      cases (s.cache.get k now).1 with
      | some hit => exact owned_setPhase_of_not_leads rfl ho
      | none => exact owned_setPhase_of_not_leads rfl ho

theorem start_live {q : Request} {now : Nat} (hi : i ∉ s.calls) (hl : s.Live) :
    (s.start i q now).Live := by
  have hnew : ∀ c', s.calls.lookup i = some c' → c'.phase.leads = false := by
    intro c' hc'
    rw [AList.lookup_eq_none.mpr hi] at hc'
    cases hc'
  unfold start
  cases q.key with
  | none => exact live_setPhase_of_not_leads hnew hl
  | some k =>
      simp only
      cases (s.cache.get k now).1 with
      | some hit => exact live_setPhase_of_not_leads hnew hl
      | none => exact live_setPhase_of_not_leads hnew hl

theorem enter_owned (hk : c.request.key = some k) (ho : s.Owned) : (s.enter i c k).Owned := by
  unfold enter
  cases hlookup : s.inflight.lookup k with
  | some leader => exact owned_setPhase_of_not_leads rfl ho
  | none =>
      intro k' j c' hc' hlead
      by_cases hj : j = i
      · subst hj
        rw [lookup_setPhase_self] at hc'
        cases hc'
        have : k' = k := Option.some.inj (hlead.1.symm.trans hk)
        rw [this]
        exact AList.lookup_insert _
      · rw [lookup_setPhase_ne _ _ _ hj] at hc'
        have howned := ho k' j c' hc' hlead
        have hne : k' ≠ k := by
          rintro rfl
          rw [hlookup] at howned
          cases howned
        exact (AList.lookup_insert_ne hne).trans howned

theorem enter_live (hc : s.calls.lookup i = some c) (hk : c.request.key = some k)
    (hp : c.phase = .checked) (hl : s.Live) : (s.enter i c k).Live := by
  have hnot : ∀ c', s.calls.lookup i = some c' → c'.phase.leads = false := by
    intro c' hc'
    rw [hc] at hc'
    cases hc'
    rw [hp]
    rfl
  unfold enter
  cases s.inflight.lookup k with
  | some leader => exact live_setPhase_of_not_leads hnot hl
  | none =>
      intro k' leader hleader
      by_cases hne : k' = k
      · subst hne
        have : leader = i := by
          rw [AList.lookup_insert] at hleader
          exact (Option.some.inj hleader).symm
        subst this
        exact ⟨_, lookup_setPhase_self .., hk, rfl⟩
      · rw [AList.lookup_insert_ne hne] at hleader
        exact live_setPhase_of_not_leads (c := c) (p := .leading) hnot hl k' leader hleader

theorem finish_owned {bytes : Bytes} {ok : Bool} {now : Nat} (hc : s.calls.lookup i = some c)
    (hp : c.phase = .leading) (ho : s.Owned) : (s.finish i c bytes ok now).Owned := by
  have hown : ∀ k, c.request.key = some k → s.inflight.lookup k = some i := fun k hk =>
    ho k i c hc ⟨hk, by rw [hp]; rfl⟩
  unfold finish
  cases hkey : c.request.key with
  | none => exact owned_setPhase_of_not_leads rfl ho
  | some k =>
      cases ok <;> cases parseTtl bytes c.request.url <;>
        exact owned_setPhase ho fun k hk _ => hown k hk

theorem finish_live {bytes : Bytes} {ok : Bool} {now : Nat} (hc : s.calls.lookup i = some c)
    (hl : s.Live) : (s.finish i c bytes ok now).Live := by
  have hkeep : ∀ p : Phase, p.leads = true → (s.setPhase i c p).Live := fun p hp =>
    live_setPhase hl fun c' hc' _ => by
      rw [hc] at hc'
      cases hc'
      exact ⟨rfl, hp⟩
  unfold finish
  cases hkey : c.request.key with
  | some k => cases ok <;> cases parseTtl bytes c.request.url <;> exact hkeep _ rfl
  | none =>
      -- A call without a key leads no entry.
      intro k leader hleader
      obtain ⟨c', hc', hlead⟩ := hl k leader hleader
      have hne : leader ≠ i := by
        rintro rfl
        rw [hc] at hc'
        cases hc'
        rw [Call.Leads, hkey] at hlead
        cases hlead.1
      exact ⟨c', by rwa [lookup_setPhase_ne _ _ _ hne], hlead⟩

theorem publish_owned {a : Answer} (hc : s.calls.lookup i = some c)
    (hk : c.request.key = some k) (hp : c.phase = .relayed a) (ho : s.Owned) :
    (s.publish i c k a).Owned := by
  have hown : s.inflight.lookup k = some i := ho k i c hc ⟨hk, by rw [hp]; rfl⟩
  rw [publish, hown]
  intro k' j c' hc' hlead
  by_cases hj : j = i
  · subst hj
    rw [lookup_setPhase_self] at hc'
    cases hc'
    cases hlead.2
  · rw [lookup_setPhase_ne _ _ _ hj] at hc'
    have howned := ho k' j c' hc' hlead
    have hne : k' ≠ k := by
      rintro rfl
      rw [hown] at howned
      exact hj (Option.some.inj howned).symm
    exact (AList.lookup_erase_ne hne).trans howned

theorem publish_live {a : Answer} (hc : s.calls.lookup i = some c)
    (hk : c.request.key = some k) (hp : c.phase = .relayed a) (ho : s.Owned) (hl : s.Live) :
    (s.publish i c k a).Live := by
  have hown : s.inflight.lookup k = some i := ho k i c hc ⟨hk, by rw [hp]; rfl⟩
  rw [publish, hown]
  intro k' leader hleader
  have hne : k' ≠ k := by
    rintro rfl
    rw [AList.lookup_erase] at hleader
    cases hleader
  rw [AList.lookup_erase_ne hne] at hleader
  obtain ⟨c', hc', hlead⟩ := hl k' leader hleader
  have hi : leader ≠ i := by
    rintro rfl
    rw [hc] at hc'
    cases hc'
    exact hne (Option.some.inj (hlead.1.symm.trans hk))
  exact ⟨c', by rwa [lookup_setPhase_ne _ _ _ hi], hlead⟩

theorem step_owned {e : RelayEvent} (ho : s.Owned) (h : s.step e = some t) : t.Owned := by
  cases stepped h with
  | start hi => exact start_owned ho
  | enter hc hk hp => exact enter_owned hk ho
  | relay hc hp => exact finish_owned hc hp ho
  | publish hc hk hp => exact publish_owned hc hk hp ho
  | receive hc hp ha => exact owned_setPhase_of_not_leads rfl ho
  | drop hc hp => exact owned_setPhase_of_not_leads rfl ho

/-- A step keeps every entry alive exactly if it does not drop a leader. -/
theorem step_live_iff {e : RelayEvent} (ho : s.Owned) (hl : s.Live) (h : s.step e = some t) :
    t.Live ↔ s.NoLeaderDropped e := by
  cases stepped h with
  | start hi => exact iff_of_true (start_live hi hl) trivial
  | enter hc hk hp => exact iff_of_true (enter_live hc hk hp hl) trivial
  | relay hc hp => exact iff_of_true (finish_live hc hl) trivial
  | publish hc hk hp => exact iff_of_true (publish_live hc hk hp ho hl) trivial
  | receive hc hp ha =>
      refine iff_of_true (live_setPhase_of_not_leads (fun c' hc' => ?_) hl) trivial
      rw [hc] at hc'
      cases hc'
      rw [hp]
      rfl
  | @drop i c hc hp =>
      constructor
      · intro ht c' k hc' hlead
        rw [hc] at hc'
        cases hc'
        -- The entry is still there, and its leader is the call that was dropped.
        obtain ⟨d, hd, hleads⟩ := ht k i (ho k i c hc hlead)
        rw [lookup_setPhase_self] at hd
        cases hd
        cases hleads.2
      · intro hno k leader hleader
        obtain ⟨c', hc', hlead⟩ := hl k leader hleader
        have hne : leader ≠ i := by
          rintro rfl
          exact hno c' k hc' hlead
        exact ⟨c', by rwa [lookup_setPhase_ne _ _ _ hne], hlead⟩

theorem init_owned (maxBytes : Nat) : (init maxBytes).Owned := fun k i c hc _ => by
  simp [init] at hc

theorem init_live (maxBytes : Nat) : (init maxBytes).Live := fun k leader h => by
  simp [init] at h

theorem publish_of_relayed {a : Answer} (ho : s.Owned) (hc : s.calls.lookup i = some c)
    (hk : c.request.key = some k) (hp : c.phase = .relayed a) :
    ∃ u, s.step (.publish i) = some u ∧ u.inflight.lookup k = none ∧
      (u.channels.lookup i).isSome = true := by
  have hown : s.inflight.lookup k = some i := ho k i c hc ⟨hk, by rw [hp]; rfl⟩
  refine ⟨s.publish i c k a, by simp [step, hc, hk, hp], ?_⟩
  simp [publish, hown]

/-- What a leader's own steps lead to. -/
theorem publishes_of_leads (ho : s.Owned) (hc : s.calls.lookup i = some c) (hlead : c.Leads k) :
    s.Publishes i k := by
  intro bytes ok now
  obtain ⟨hk, hphase⟩ := hlead
  cases hp : c.phase with
  | leading =>
      have hstep : s.step (.relay i bytes ok now) = some (s.finish i c bytes ok now) := by
        simp [step, hc, hp]
      have hrelayed : (s.finish i c bytes ok now).calls.lookup i =
          some { c with phase := .relayed ⟨bytes, c.request⟩ } := by
        simp only [finish, hk]
        split <;> exact lookup_setPhase_self _ _ _ _
      obtain ⟨u, hu, hrest⟩ := publish_of_relayed (step_owned ho hstep) hrelayed hk rfl
      exact ⟨[.relay i bytes ok now, .publish i], u, by simp, by simp [StepRun.run, hstep, hu],
        hrest⟩
  | relayed a =>
      obtain ⟨u, hu, hrest⟩ := publish_of_relayed ho hc hk hp
      exact ⟨[.publish i], u, by simp, by simp [StepRun.run, hu], hrest⟩
  | checked => simp [hp, Phase.leads] at hphase
  | waiting leader => simp [hp, Phase.leads] at hphase
  | returned a => simp [hp, Phase.leads] at hphase
  | dropped => simp [hp, Phase.leads] at hphase

theorem Led.live (h : s.Led) : s.Live := by
  intro k leader hleader
  obtain ⟨c, hc, hlead, -⟩ := h k leader hleader
  exact ⟨c, hc, hlead⟩

theorem led_iff_live (ho : s.Owned) : s.Led ↔ s.Live := by
  refine ⟨Led.live, fun h k leader hleader => ?_⟩
  obtain ⟨c, hc, hlead⟩ := h k leader hleader
  exact ⟨c, hc, hlead, publishes_of_leads ho hc hlead⟩

/-- **Inflight entries.** In a run of relay calls every entry of `inflight` has, in every state, a
running leader that will remove it, exactly when no leader is dropped, by cancellation or by a
panic, between the insertion of its entry and its removal. -/
theorem inflight_led_iff (maxBytes : Nat) (es : List RelayEvent) :
    StepRun.AllStates step Led (init maxBytes) es ↔
      StepRun.AllSteps step NoLeaderDropped (init maxBytes) es := by
  refine StepRun.allStates_iff_allSteps_of_inv (fun _ _ _ ho h => step_owned ho h) ?_
    (init_owned maxBytes) ?_ es
  · intro s e t ho hled h
    exact (led_iff_live (step_owned ho h)).trans (step_live_iff ho hled.live h)
  · exact (led_iff_live (init_owned maxBytes)).mpr (init_live maxBytes)

/-- A dropped leader leaves its entry behind. -/
theorem not_led_of_drop {q : Request} (hk : q.key = some k) :
    ¬ StepRun.AllStates step Led (init 0) [.start 0 q 0, .enter 0, .drop 0] := by
  intro h
  obtain ⟨-, h⟩ := h.2 _ rfl
  have hstart : (init 0).start 0 q 0 = (init 0).setPhase 0 ⟨q, .checked⟩ .checked := by
    simp [start, hk, init, ResponseCache.get, ResponseCache.empty]
  rw [hstart] at h
  have hin : ((init 0).setPhase 0 ⟨q, .checked⟩ .checked).inflight.lookup k = none := by
    simp [init, setPhase]
  have henter : ((init 0).setPhase 0 ⟨q, .checked⟩ .checked).step (.enter 0) =
      some (((init 0).setPhase 0 ⟨q, .checked⟩ .checked).enter 0 ⟨q, .checked⟩ k) := by
    simp [step, hk]
  obtain ⟨-, h⟩ := h _ henter
  rw [enter, hin] at h
  have hlive := h _ (by simp [step, Phase.running]; rfl)
  obtain ⟨c, hc, hlead, -⟩ := hlive k 0 (AList.lookup_insert _)
  rw [lookup_setPhase_self] at hc
  cases hc
  cases hlead.2

/-- A GET whose future is dropped while it leads. -/
theorem inflight_entry_without_leader :
    ¬ StepRun.AllStates step Led (init 0)
      [.start 0 ⟨"GET", "http://example.com/", [], [], "http://example.com/"⟩ 0, .enter 0,
        .drop 0] := by
  have hkey : (⟨"GET", "http://example.com/", [], [], "http://example.com/"⟩ : Request).key =
      some "GET:http://example.com/" := by
    decide +kernel
  exact not_led_of_drop hkey

end Relays

end Rahgozar.Fronter
