import Rahgozar.Tunnel.Replay

set_option autoImplicit false

/-! # How old a replayed body can be (`tunnel-node/src/main.rs`)

`expire` takes due entries off the front of `order` and stops at the first one that is not due.
The queue is in the order of the claims, while a Ready entry's time to live runs from its
completion, so an entry that is due can stand behind one that is not. The file says which claims
are answered with a body that is past `REPLAY_TTL`.
-/

namespace Rahgozar.Tunnel.ReplayRegistry

/-! ## What one expiry removes -/

/-- The loop of `expire` gets as far as `key`: it is in the queue, and everything before it is due.
-/
def reached (r : ReplayRegistry) (now : Nat) (keys : List Fingerprint) (key : Fingerprint) : Bool :=
  decide (key ∈ keys) && (keys.takeWhile (· != key)).all fun k => expired now (r.entries.lookup k)

theorem lookup_removeEntry_self (r : ReplayRegistry) (key : Fingerprint) :
    (r.removeEntry key).entries.lookup key = none :=
  AList.lookup_erase key _

theorem lookup_removeEntry_of_ne (r : ReplayRegistry) {key k : Fingerprint} (h : k ≠ key) :
    (r.removeEntry key).entries.lookup k = r.entries.lookup k :=
  AList.lookup_erase_ne h

/-- A key that is due stays due when its entry is gone, so taking it out does not change how far
the loop gets. -/
theorem expired_removeEntry {r : ReplayRegistry} {now : Nat} {key : Fingerprint}
    (h : expired now (r.entries.lookup key)) (k : Fingerprint) :
    expired now ((r.removeEntry key).entries.lookup k) = expired now (r.entries.lookup k) := by
  by_cases hk : k = key
  · rw [hk, lookup_removeEntry_self, h]
    rfl
  · rw [lookup_removeEntry_of_ne r hk]

theorem reached_removeEntry {r : ReplayRegistry} {now : Nat} {key k : Fingerprint}
    {keys : List Fingerprint} (h : expired now (r.entries.lookup k)) (hk : k ≠ key) :
    (r.removeEntry k).reached now keys key = r.reached now (k :: keys) key := by
  have hne : (k != key) = true := by simpa using hk
  simp only [reached, List.takeWhile_cons, hne, if_true, List.all_cons, h, Bool.true_and,
    expired_removeEntry h, List.mem_cons, hk.symm, false_or]

/-- **What `expire` does to one key.** Its entry is removed exactly when it is due and the loop gets
as far as it. -/
theorem lookup_expireLoop (now : Nat) (key : Fingerprint) (keys : List Fingerprint)
    (r : ReplayRegistry) :
    (expireLoop now keys r).entries.lookup key
      = if r.reached now keys key && expired now (r.entries.lookup key) then none
        else r.entries.lookup key := by
  induction keys generalizing r with
  | nil => simp [expireLoop, reached]
  | cons k keys ih =>
      rw [expireLoop]
      by_cases hdue : expired now (r.entries.lookup k)
      · rw [if_pos hdue, ih]
        by_cases hk : k = key
        · rw [hk] at hdue ⊢
          rw [lookup_removeEntry_self, ite_self]
          simp [reached, hdue]
        · rw [lookup_removeEntry_of_ne r (Ne.symm hk), reached_removeEntry hdue hk]
      · rw [if_neg hdue]
        by_cases hk : k = key
        · rw [hk] at hdue
          simp [hdue]
        · have hne : (k != key) = true := by simpa using hk
          simp [reached, hne, hdue]

theorem lookup_expire (r : ReplayRegistry) (now : Nat) (key : Fingerprint) :
    (r.expire now).entries.lookup key
      = if r.reached now r.order key && expired now (r.entries.lookup key) then none
        else r.entries.lookup key :=
  lookup_expireLoop now key r.order r

/-- A claim is answered from the registry exactly when a Ready entry is left after the expiry. -/
theorem claim_eq_hit {r : ReplayRegistry} {key : Fingerprint} {now : Nat} {body : Body} :
    (r.claim key now).2 = .hit body
      ↔ ∃ c, (r.expire now).entries.lookup key = some (.ready body c) := by
  rw [claim]
  cases he : (r.expire now).entries.lookup key with
  | none => simp
  | some e =>
      cases e with
      | ready b c => simp
      | pending tx c => simp

/-! ## Runs with a clock -/

/-- The registry, the clock, and every `complete` so far with its instant. -/
structure Timeline where
  registry : ReplayRegistry
  now : Nat
  completions : List (Fingerprint × Body × Nat)

namespace Timeline

def start : Timeline := ⟨empty, 0, []⟩

inductive Event where
  | pass (n : Nat)
  | claim (key : Fingerprint)
  | complete (key : Fingerprint) (body : Body)

def step (s : Timeline) : Event → Option Timeline
  | .pass n => some { s with now := s.now + n }
  | .claim key => some { s with registry := (s.registry.claim key s.now).1 }
  | .complete key body =>
      some { s with
        registry := s.registry.complete key body s.now
        completions := (key, body, s.now) :: s.completions }

/-- A claim is answered only with a body that was completed for its key less than `REPLAY_TTL`
ago. -/
def Fresh (s : Timeline) : Event → Prop
  | .claim key => ∀ body, (s.registry.claim key s.now).2 = .hit body →
      ∃ t, (key, body, t) ∈ s.completions ∧ s.now - t < replayTtl
  | _ => True

/-- If the claimed key has a Ready entry that is due, then the key is in `order` and every key
before it is due as well. -/
def Unshielded (s : Timeline) : Event → Prop
  | .claim key => ∀ body c, s.registry.entries.lookup key = some (.ready body c) →
      replayTtl ≤ s.now - c → s.registry.reached s.now s.registry.order key
  | _ => True

/-- A Ready entry is the last completion of its key. -/
def Recorded (s : Timeline) : Prop :=
  (∀ key body c, s.registry.entries.lookup key = some (.ready body c) →
    (key, body, c) ∈ s.completions ∧ ∀ b t, (key, b, t) ∈ s.completions → t ≤ c) ∧
  ∀ key body t, (key, body, t) ∈ s.completions → t ≤ s.now

theorem recorded_start : Recorded start :=
  ⟨fun _ _ _ h => absurd h (by simp [start, empty]), fun _ _ _ h => absurd h (by simp [start])⟩

theorem recorded_claim {s : Timeline} (h : Recorded s) (key : Fingerprint) :
    Recorded { s with registry := (s.registry.claim key s.now).1 } := by
  refine ⟨fun k body c hk => h.1 k body c ((expire_shrinks s.registry s.now).of_some ?_), h.2⟩
  -- a claim adds a Pending entry at most
  change (s.registry.claim key s.now).1.entries.lookup k = some (.ready body c) at hk
  rw [claim] at hk
  cases he : (s.registry.expire s.now).entries.lookup key with
  | some e =>
      cases e with
      | ready b t => simpa [he] using hk
      | pending tx t => simpa [he] using hk
  | none =>
      simp only [he] at hk
      by_cases hkey : k = key
      · rw [hkey, AList.lookup_insert] at hk
        cases hk
      · rwa [AList.lookup_insert_ne hkey] at hk

theorem recorded_complete {s : Timeline} (h : Recorded s) (key : Fingerprint) (body : Body) :
    Recorded { s with
      registry := s.registry.complete key body s.now
      completions := (key, body, s.now) :: s.completions } := by
  constructor
  · intro k b c hk
    have hk' : (s.registry.completed key body s.now).entries.lookup k = some (.ready b c) :=
      (evict_shrinks _).of_some hk
    change AList.lookup k (AList.insert key _ (s.registry.entries.erase key)) = _ at hk'
    by_cases hkey : k = key
    · rw [hkey, AList.lookup_insert] at hk'
      cases hk'
      rw [hkey]
      refine ⟨List.mem_cons_self, fun b' t ht => ?_⟩
      rcases List.mem_cons.mp ht with heq | ht'
      · cases heq
        exact le_rfl
      · exact h.2 key b' t ht'
    · rw [AList.lookup_insert_ne hkey, AList.lookup_erase_ne hkey] at hk'
      obtain ⟨hmem, hmax⟩ := h.1 k b c hk'
      refine ⟨List.mem_cons_of_mem _ hmem, fun b' t ht => ?_⟩
      rcases List.mem_cons.mp ht with heq | ht'
      · cases heq
        exact absurd rfl hkey
      · exact hmax b' t ht'
  · intro k b t ht
    rcases List.mem_cons.mp ht with heq | ht'
    · cases heq
      exact le_rfl
    · exact h.2 k b t ht'

theorem recorded_step {s t : Timeline} {e : Event} (h : Recorded s) (hstep : s.step e = some t) :
    Recorded t := by
  cases e with
  | pass n =>
      cases hstep
      exact ⟨h.1, fun k b t ht => (h.2 k b t ht).trans (Nat.le_add_right _ _)⟩
  | claim key =>
      cases hstep
      exact recorded_claim h key
  | complete key body =>
      cases hstep
      exact recorded_complete h key body

/-- One claim: the body it is answered with is fresh exactly when no due entry is shielded. -/
theorem fresh_iff_unshielded {s : Timeline} (h : Recorded s) (e : Event) :
    s.Fresh e ↔ s.Unshielded e := by
  cases e with
  | pass n => exact Iff.rfl
  | complete key body => exact Iff.rfl
  | claim key =>
      constructor
      · intro hfresh body c hk hdue
        -- an entry the loop does not reach is served, and its completion is the last one
        by_contra hreach
        have hkept : (s.registry.expire s.now).entries.lookup key = some (.ready body c) := by
          rw [lookup_expire, if_neg (by simp [hreach]), hk]
        obtain ⟨t, ht, hlt⟩ := hfresh body (claim_eq_hit.mpr ⟨c, hkept⟩)
        have hle : t ≤ c := (h.1 key body c hk).2 body t ht
        omega
      · intro hunsh body hhit
        obtain ⟨c, hc⟩ := claim_eq_hit.mp hhit
        have hk : s.registry.entries.lookup key = some (.ready body c) :=
          (expire_shrinks s.registry s.now).of_some hc
        refine ⟨c, (h.1 key body c hk).1, ?_⟩
        by_contra hdue
        have hdue' : replayTtl ≤ s.now - c := by omega
        have hexp : expired s.now (s.registry.entries.lookup key) := by
          rw [hk]
          exact decide_eq_true hdue'
        rw [lookup_expire, if_pos (by simp [hunsh body c hk hdue', hexp])] at hc
        cases hc

/-- **Replay hits are fresh in a run exactly when no claim of it finds a due Ready entry behind a
queued entry that is not due, or outside the queue.** -/
theorem hits_fresh_iff (es : List Event) :
    StepRun.AllSteps step Fresh start es ↔ StepRun.AllSteps step Unshielded start es :=
  StepRun.allSteps_congr (fun _ _ _ => recorded_step) (fun _ e h => fresh_iff_unshielded h e)
    recorded_start es

/-- Two owners: the second finishes at once, the first after 50 s. Ten seconds later the first
one's entry is at the front and not due, and the second one's is answered at the age of 60 s. -/
theorem stale_hit : ¬ ∀ es : List Event, StepRun.AllSteps step Fresh start es := by
  intro h
  let slow : Fingerprint := ⟨List.replicate 32 0, rfl⟩
  let quick : Fingerprint := ⟨List.replicate 32 1, rfl⟩
  have hrun := h [.claim slow, .claim quick, .complete quick [7], .pass (secs 50),
    .complete slow [8], .pass (secs 10), .claim quick]
  have hlast := ((((((hrun _ rfl).2 _ rfl).2 _ rfl).2 _ rfl).2 _ rfl).2 _ rfl).2 _ rfl
  obtain ⟨t, ht, hlt⟩ := hlast.1 [7] (by decide)
  have hmem : (quick, ([7] : Body), t) ∈ [(slow, ([8] : Body), 0 + secs 50), (quick, [7], 0)] := ht
  have ht0 : t = 0 := by
    rcases List.mem_cons.mp hmem with heq | hmem'
    · have hsame : quick = slow := congrArg Prod.fst heq
      exact absurd hsame (by decide)
    · exact congrArg (fun p => p.2.2) (List.mem_singleton.mp hmem')
  rw [ht0] at hlt
  exact absurd hlt (by decide)

end Timeline

end Rahgozar.Tunnel.ReplayRegistry
