import Rahgozar.Drive.Stream

set_option autoImplicit false

/-! # The nonces of the relay

The whole relay: sessions are bootstrapped from `c2r_<sid>_0` files, polled, driven, and removed by
the reaper (`drive-relay/src/orphan_gc.rs`) when they have finished or gone idle. A driver numbers
its batches upwards from 0, and the keys are a function of the relay's secret, the `Hello` and the
session. The table forgets a session that is removed, so a copy of its first file bootstraps the
same keys again, and the numbers start again at 0.
-/

namespace Rahgozar.Drive

/-- Every session the relay has spawned, in order. The table has the ones that are not evicted. -/
structure Relay where
  sessions : List RelaySession

namespace Relay

def new : Relay := ⟨[]⟩

def containsKey (s : Relay) (sid : SessionId) : Bool :=
  s.sessions.any fun r => !r.evicted && decide (r.keys.sid = sid)

/-- A listing has the first file of a session that is not in the table; a poll cycle for the session
spawned `i`-th; a step of its driver, which may still end its turn after an eviction; the reaper
finds that it has finished, or that it is idle. -/
inductive Event where
  | bootstrap (sid : SessionId) (listing : List DriveFile)
  | cycle (i : Nat) (listing : List DriveFile) (joined : List PreparedBatch) (sends : Option Nat)
  | driver (i : Nat) (e : Driver.Event)
  | reap (i : Nat) (idle : Bool)

/-- What an event does to the session it is about. -/
def sessionStep (env : Env) (r : RelaySession) : Event → Option RelaySession
  | .bootstrap _ _ => none
  | .cycle _ listing joined sends =>
      if r.evicted then none
      else (processGroup env.prims relaySide r.keys.kC2r r.keys.sid listing joined
        { r.inbox with sends := sends }).map fun inbox => { r with inbox := inbox }
  | .driver _ e =>
      (r.driver.step env.destinationAllowed r.inbox.mailbox e).map fun d => { r with driver := d }
  | .reap _ idle =>
      if r.evicted ∨ (r.driver.phase ≠ .returned ∧ idle = false) then none
      else some { r with evicted := true }

def step (env : Env) (s : Relay) (e : Event) : Option Relay :=
  match e with
  | .bootstrap sid listing =>
      if s.containsKey sid then none
      else (Drive.bootstrap env sid listing).map fun r => ⟨s.sessions ++ [r]⟩
  | .cycle i _ _ _ | .driver i _ | .reap i _ =>
      match s.sessions[i]? with
      | none => none
      | some r => (sessionStep env r e).map fun r' => ⟨s.sessions.set i r'⟩

/-- Every call of `seal` on the relay so far. -/
def sealed (s : Relay) : List SealCall := s.sessions.flatMap fun r => r.driver.out.sealed

/-- No two calls have the same key and number and different plaintexts. -/
abbrev NoNonceReuse (s : Relay) : Prop :=
  ∀ c ∈ s.sealed, ∀ c' ∈ s.sealed, c.key = c'.key → c.seq = c'.seq → c.plaintext = c'.plaintext

/-- A bootstrap brings a key that no session of the relay has had. -/
def freshKey (env : Env) (s : Relay) : Event → Bool
  | .bootstrap sid listing =>
      match Drive.bootstrap env sid listing with
      | none => true
      | some r => s.sessions.all fun r' => decide (r'.keys.kR2c ≠ r.keys.kR2c)
  | _ => true

abbrev FreshKey (env : Env) (s : Relay) (e : Event) : Prop := freshKey env s e = true

/-! ## The invariant -/

/-- A driver seals under its own key. -/
structure SessionInv (r : RelaySession) : Prop where
  driver : Driver.Inv r.inbox.mailbox r.driver
  key : r.driver.out.key = r.keys.kR2c

structure Inv (s : Relay) : Prop where
  session : ∀ r ∈ s.sessions, SessionInv r
  fresh : (s.sessions.map fun r => r.keys.kR2c).Nodup

variable {env : Env} {s t : Relay}

theorem sessionStep_inv {r r' : RelaySession} {e : Event} (h : SessionInv r)
    (hs : sessionStep env r e = some r') : SessionInv r' ∧ r'.keys = r.keys := by
  cases e with
  | bootstrap sid listing => cases hs
  | cycle i listing joined sends =>
      simp only [sessionStep] at hs
      split_ifs at hs
      obtain ⟨inbox, hg, rfl⟩ := Option.map_eq_some_iff.mp hs
      have hgrows := processGroup_grows hg
      exact ⟨⟨h.driver.extend hgrows, h.key⟩, rfl⟩
  | driver i e =>
      obtain ⟨d, hd, rfl⟩ := Option.map_eq_some_iff.mp hs
      have hstep := Driver.step_step h.driver hd
      exact ⟨⟨hstep.inv, hstep.ext.key.trans h.key⟩, rfl⟩
  | reap i idle =>
      simp only [sessionStep] at hs
      split_ifs at hs
      cases hs
      exact ⟨⟨h.driver, h.key⟩, rfl⟩

/-- A step of one session, which keeps its keys. -/
theorem set_inv (h : Inv s) {i : Nat} {r r' : RelaySession} (hr : s.sessions[i]? = some r)
    (hr' : SessionInv r') (hkeys : r'.keys = r.keys) : Inv ⟨s.sessions.set i r'⟩ := by
  refine ⟨fun q hq => ?_, ?_⟩
  · rcases List.mem_or_eq_of_mem_set hq with hq | rfl
    · exact h.session q hq
    · exact hr'
  · show ((s.sessions.set i r').map fun r => r.keys.kR2c).Nodup
    have hsame : (s.sessions.set i r').map (fun r => r.keys.kR2c)
        = s.sessions.map fun r => r.keys.kR2c := by
      have hkey : (s.sessions.map fun r => r.keys.kR2c)[i]? = some r'.keys.kR2c := by
        rw [List.getElem?_map, hr, hkeys]
        rfl
      obtain ⟨hlt, hget⟩ := List.getElem?_eq_some_iff.mp hkey
      rw [List.map_set, ← hget, List.set_getElem_self]
    rw [hsame]
    exact h.fresh

/-- **One step of the relay.** -/
theorem step_inv {e : Event} (h : Inv s) (hfresh : FreshKey env s e) (hs : s.step env e = some t) :
    Inv t := by
  cases e with
  | bootstrap sid listing =>
      simp only [step] at hs
      split_ifs at hs
      obtain ⟨r, hr, rfl⟩ := Option.map_eq_some_iff.mp hs
      simp only [FreshKey, freshKey, hr, List.all_eq_true, decide_eq_true_eq] at hfresh
      obtain ⟨-, keys, -, rfl⟩ := bootstrap_spawns hr
      refine ⟨fun q hq => ?_, ?_⟩
      · rcases List.mem_append.mp hq with hq | hq
        · exact h.session q hq
        · rw [List.mem_singleton.mp hq]
          exact ⟨Driver.spawn_inv sid _, rfl⟩
      · -- the new key is none of the old ones
        show ((s.sessions ++ [_]).map fun r : RelaySession => r.keys.kR2c).Nodup
        rw [List.map_append]
        refine List.nodup_append.mpr ⟨h.fresh, List.nodup_singleton _, fun a ha b hb => ?_⟩
        obtain ⟨q, hq, rfl⟩ := List.mem_map.mp ha
        rw [List.map_singleton, List.mem_singleton] at hb
        rw [hb]
        exact hfresh q hq
  | cycle i listing joined sends => exact session_case h hs
  | driver i e => exact session_case h hs
  | reap i idle => exact session_case h hs
where
  session_case {i : Nat} {e : Event} (h : Inv s)
      (hs : (match s.sessions[i]? with
        | none => none
        | some r => (sessionStep env r e).map fun r' => (⟨s.sessions.set i r'⟩ : Relay)) = some t) :
      Inv t := by
    cases hr : s.sessions[i]? with
    | none => simp [hr] at hs
    | some r =>
        simp only [hr] at hs
        obtain ⟨r', hstep, rfl⟩ := Option.map_eq_some_iff.mp hs
        obtain ⟨hinv, hkeys⟩ := sessionStep_inv (h.session r (List.mem_of_getElem? hr)) hstep
        exact set_inv h hr hinv hkeys

/-- Within a session the numbers go up, and the sessions have different keys. -/
theorem Inv.noNonceReuse (h : Inv s) : NoNonceReuse s := by
  intro c hc c' hc' hkey hseq
  obtain ⟨r, hr, hcr⟩ := List.mem_flatMap.mp hc
  obtain ⟨r', hr', hcr'⟩ := List.mem_flatMap.mp hc'
  have hinv := h.session r hr
  have hinv' := h.session r' hr'
  have hkeys : r.keys.kR2c = r'.keys.kR2c := by
    rw [← hinv.key, ← hinv'.key, ← (hinv.driver.out.sealed c hcr).1, hkey]
    exact (hinv'.driver.out.sealed c' hcr').1
  -- one key means one session, and there one number means one call
  have hsame : r = r' := List.inj_on_of_nodup_map h.fresh hr hr' hkeys
  subst hsame
  have hnodup : (r.driver.out.sealed.map SealCall.seq).Nodup :=
    hinv.driver.out.increasing.imp fun hlt => hlt.ne
  rw [List.inj_on_of_nodup_map hnodup hcr hcr' hseq]

theorem new_inv : Inv new := ⟨fun _ hr => absurd hr List.not_mem_nil, List.nodup_nil⟩

/-- **No nonce is used twice** along a run in which every bootstrap brings a new key. -/
theorem no_nonce_reuse {es : List Event}
    (hfresh : StepRun.AllSteps (step env) (FreshKey env) new es)
    (hrun : StepRun.run (step env) new es = some s) : NoNonceReuse s :=
  Inv.noNonceReuse <| StepRun.run_invariant (fun _ _ _ hinv hc hs => step_inv hinv hc hs)
    new_inv hfresh hrun

/-! ## A copied first file -/

/-- A session that gets the first file, dials, answers with one byte and ends; then it is removed.
-/
def answers (i : Nat) (file : DriveFile) (byte : UInt8) : List Event :=
  [.bootstrap Sample.sid [file],
    .cycle i [file] [Sample.prepared .clientToRelay Sample.connect] none,
    .driver i (.recv true), .driver i (.dial .connected),
    .driver i (.read (.data ⟨[byte], by simp [localSocketReadBuffer]⟩)), .driver i (.read .err),
    .reap i false]

/-- The same `Connect` behind another `Hello`. -/
def otherFile : DriveFile :=
  let cookie : List UInt8 := List.replicate 16 6
  let keys := Sample.env.prims.deriveDirectionalKeys Sample.shared cookie Sample.sid
  Sample.file prefixC2r '0' (Sample.hello.clientEphemeralPubkey ++ cookie ++ Sample.sid.val) keys.1
    Sample.connect

theorem no_nonce_reuse_otherHello : ∃ s : Relay,
    StepRun.run (step Sample.env) new (answers 0 Sample.connectFile 7 ++ answers 1 otherFile 8)
      = some s ∧ s.sealed.length = 2 ∧ NoNonceReuse s := by
  have hlen : (StepRun.run (step Sample.env) new
      (answers 0 Sample.connectFile 7 ++ answers 1 otherFile 8)).map (fun s => s.sealed.length)
      = some 2 := by
    decide +kernel
  obtain ⟨s, hrun, hs⟩ := Option.map_eq_some_iff.mp hlen
  exact ⟨s, hrun, hs, no_nonce_reuse (by decide +kernel) hrun⟩

/-- The first file of a session that has been removed is in the folder again. -/
theorem nonce_reused : ¬ ∀ (env : Env) (es : List Event) (s : Relay),
    StepRun.run (step env) new es = some s → NoNonceReuse s := by
  intro h
  have hreuse : (StepRun.run (step Sample.env) new
      (answers 0 Sample.connectFile 7 ++ answers 1 Sample.connectFile 8)).map
        (fun s => decide (NoNonceReuse s)) = some false := by
    decide +kernel
  obtain ⟨s, hrun, hs⟩ := Option.map_eq_some_iff.mp hreuse
  exact of_decide_eq_false hs (h _ _ s hrun)

end Relay

end Rahgozar.Drive
