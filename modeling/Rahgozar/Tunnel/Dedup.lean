import Rahgozar.Tunnel.Replay

set_option autoImplicit false

/-! # Duplicate batches at the node (`handle_batch`)

Any number of requests are in `handle_batch` at once. A request whose batch has a fingerprint
takes the registry's lock and claims the fingerprint: the owner executes the operations, takes
the lock again and completes the fingerprint with the body it answers; a duplicate is answered
from the registry or waits on the owner's channel. The guard of the first lock is a temporary of
the `match` on the claim, so that a duplicate holds the lock for as long as it waits.

The model carries two histories the code does not keep: which request's claim created the
registry entry of a key, and which one created each channel.
-/

namespace Rahgozar.Tunnel

/-- Where a request stands: `claiming` and `completing` await the registry's lock. `cancelled` is
the answer `replay owner cancelled`; a request whose connection goes away is dropped wherever it
stands. -/
inductive Phase where
  | claiming
  | executing
  | completing (body : Body)
  | waiting (rx : Nat)
  | answered (body : Body)
  | cancelled
  | dropped
deriving DecidableEq

/-- One request of the run. `saw` is the request whose claim created the entry this one found
under its key; `executed` says that this request went on to execute its operations. -/
structure Request where
  key : Option Fingerprint
  saw : Option Nat
  phase : Phase
  executed : Bool
deriving DecidableEq

/-- The requests are numbered in the order of their arrival; `lock` is the request that holds
the registry's lock across an `await`. -/
structure Node where
  replay : ReplayRegistry
  lock : Option Nat
  requests : List Request
  creator : Fingerprint → Option Nat
  owners : List Nat

namespace Node

def init : Node := ⟨.empty, none, [], fun _ => none, []⟩

inductive Event where
  | arrive (ops : List BatchOp) (clientZstd : Bool)
  | claim (r : Nat) (now : Nat)
  | wake (r : Nat)
  | waitFails (r : Nat)
  | finish (r : Nat) (body : Body)
  | complete (r : Nat) (now : Nat)
  | disconnect (r : Nat)

/-- The creators of the entries that are still in the registry. -/
def live (creator : Fingerprint → Option Nat) (replay : ReplayRegistry) :
    Fingerprint → Option Nat :=
  fun key => if key ∈ replay.entries then creator key else none

/-- `handle_batch` up to its first `await`: a batch without a fingerprint is executed at once. -/
def arrive (blake3 : List UInt8 → Fingerprint) (s : Node) (ops : List BatchOp)
    (clientZstd : Bool) : Node :=
  match replayFingerprint blake3 ops clientZstd with
  | none => { s with requests := s.requests ++ [⟨none, none, .executing, true⟩] }
  | some key => { s with requests := s.requests ++ [⟨some key, none, .claiming, false⟩] }

/-- Request `r` has the lock and claims `key`. An owner and a hit release the lock at the end of
the `match`; a duplicate goes on to wait with the guard alive. -/
def claimed (s : Node) (r : Nat) (req : Request) (key : Fingerprint) (now : Nat) : Node :=
  let creator := live s.creator (s.replay.expire now)
  let (replay, claim) := s.replay.claim key now
  match claim with
  | .owner _ =>
      ⟨replay, none,
        s.requests.set r { req with saw := creator key, phase := .executing, executed := true },
        Function.update creator key (some r), s.owners ++ [r]⟩
  | .wait rx =>
      ⟨replay, some r, s.requests.set r { req with saw := creator key, phase := .waiting rx },
        creator, s.owners⟩
  | .hit body =>
      ⟨replay, none, s.requests.set r { req with saw := creator key, phase := .answered body },
        creator, s.owners⟩

/-- A request that awaits the lock with its fingerprint gets it. -/
def claim (s : Node) (r now : Nat) : Option Node :=
  match s.lock, s.requests[r]? with
  | none, some req =>
      match req.phase, req.key with
      | .claiming, some key => some (s.claimed r req key now)
      | _, _ => none
  | _, _ => none

/-- Request `r` moves to `phase`. -/
def setPhase (requests : List Request) (r : Nat) (req : Request) (phase : Phase) : List Request :=
  requests.set r { req with phase := phase }

/-- A waiting request finds a body in its channel. It returns, and with it goes the guard. -/
def wake (s : Node) (r : Nat) : Option Node :=
  match s.requests[r]? with
  | none => none
  | some req =>
      match req.phase with
      | .waiting rx =>
          match s.replay.channels[rx]? with
          | some (some body) =>
              some { s with lock := none, requests := setPhase s.requests r req (.answered body) }
          | _ => none
      | _ => none

/-- The wait of a request times out or its channel is closed. -/
def waitFails (s : Node) (r : Nat) : Option Node :=
  match s.requests[r]? with
  | none => none
  | some req =>
      match req.phase with
      | .waiting _ =>
          some { s with lock := none, requests := setPhase s.requests r req .cancelled }
      | _ => none

/-- `handle_batch` from the end of its operations: `body` is the response it has built. -/
def finish (s : Node) (r : Nat) (body : Body) : Option Node :=
  match s.requests[r]? with
  | none => none
  | some req =>
      if req.phase = .executing then
        match req.key with
        | none => some { s with requests := setPhase s.requests r req (.answered body) }
        | some _ => some { s with requests := setPhase s.requests r req (.completing body) }
      else none

/-- An owner that awaits the lock with its response gets it. -/
def complete (s : Node) (r now : Nat) : Option Node :=
  match s.lock, s.requests[r]? with
  | none, some req =>
      match req.phase, req.key with
      | .completing body, some key =>
          let replay := s.replay.complete key body now
          some ⟨replay, none, setPhase s.requests r req (.answered body), live s.creator replay,
            s.owners⟩
      | _, _ => none
  | _, _ => none

/-- The future of an unfinished request is dropped, with the guard it may hold. -/
def disconnect (s : Node) (r : Nat) : Option Node :=
  match s.requests[r]? with
  | none => none
  | some req =>
      match req.phase with
      | .answered _ => none
      | _ => some { s with
          lock := if s.lock = some r then none else s.lock
          requests := setPhase s.requests r req .dropped }

def step (blake3 : List UInt8 → Fingerprint) (s : Node) : Event → Option Node
  | .arrive ops clientZstd => some (s.arrive blake3 ops clientZstd)
  | .claim r now => s.claim r now
  | .wake r => s.wake r
  | .waitFails r => s.waitFails r
  | .finish r body => s.finish r body
  | .complete r now => s.complete r now
  | .disconnect r => s.disconnect r

/-! ## Histories of requests -/

/-- Request `o` executed its operations and answered `body`. -/
def Completed (requests : List Request) (o : Nat) (body : Body) : Prop :=
  ∃ req, requests[o]? = some req ∧ req.executed = true ∧ req.phase = .answered body

/-- Request `o` executes the batch with fingerprint `key`. -/
def Executes (requests : List Request) (o : Nat) (key : Option Fingerprint) : Prop :=
  ∃ req, requests[o]? = some req ∧ req.executed = true ∧ req.key = key

/-- `req'` is `req` some steps later: the key, the role once taken and the answer once given
stay. -/
structure Later (req req' : Request) : Prop where
  key : req'.key = req.key
  executed : req.executed = true → req'.executed = true
  answered : ∀ body, req.phase = .answered body → req'.phase = .answered body

/-- What no step takes back. -/
def Extends (reqs reqs' : List Request) : Prop :=
  ∀ (o : Nat) (req : Request), reqs[o]? = some req → ∃ req', reqs'[o]? = some req' ∧
    Later req req'

variable {reqs reqs' : List Request} {o r : Nat} {req : Request} {body : Body}

theorem Extends.completed (h : Extends reqs reqs') (hc : Completed reqs o body) :
    Completed reqs' o body := by
  obtain ⟨req, hreq, hex, hph⟩ := hc
  obtain ⟨req', hreq', hl⟩ := h o req hreq
  exact ⟨req', hreq', hl.executed hex, hl.answered body hph⟩

theorem Extends.executes (h : Extends reqs reqs') {key : Option Fingerprint}
    (he : Executes reqs o key) : Executes reqs' o key := by
  obtain ⟨req, hreq, hex, hkey⟩ := he
  obtain ⟨req', hreq', hl⟩ := h o req hreq
  exact ⟨req', hreq', hl.executed hex, hl.key.trans hkey⟩

theorem extends_append (reqs new : List Request) : Extends reqs (reqs ++ new) := by
  intro o req h
  have hlt : o < reqs.length := (List.getElem?_eq_some_iff.mp h).1
  exact ⟨req, by rw [List.getElem?_append_left hlt, h], rfl, id, fun _ hb => hb⟩

theorem extends_set (hreq : reqs[r]? = some req) {new : Request} (hnew : Later req new) :
    Extends reqs (reqs.set r new) := by
  intro o q hq
  have hlt : r < reqs.length := (List.getElem?_eq_some_iff.mp hreq).1
  by_cases ho : r = o
  · subst ho
    rw [hreq] at hq
    cases hq
    exact ⟨_, List.getElem?_set_self hlt, hnew⟩
  · exact ⟨q, by rw [List.getElem?_set_ne ho, hq], rfl, id, fun _ hb => hb⟩

/-! ## The invariant -/

/-- What holds of each request. -/
structure RequestInv (owners : List Nat) (reqs : List Request) (req : Request) : Prop where
  claiming : req.phase = .claiming → req.executed = false ∧ req.saw = none
  executing : req.phase = .executing → req.executed = true ∧ req.saw = none
  completing : ∀ body, req.phase = .completing body → req.executed = true ∧ req.saw = none
  waiting : ∀ rx, req.phase = .waiting rx → ∃ o, req.saw = some o ∧ owners[rx]? = some o
  saw : ∀ o, req.saw = some o → req.executed = false ∧ Executes reqs o req.key ∧
    ∀ b, req.phase = .answered b → Completed reqs o b

theorem RequestInv.mono {owners owners' : List Nat} (h : RequestInv owners reqs req)
    (hext : Extends reqs reqs')
    (hown : ∀ (rx o : Nat), owners[rx]? = some o → owners'[rx]? = some o) :
    RequestInv owners' reqs' req := by
  refine ⟨h.claiming, h.executing, h.completing, fun rx hph => ?_, fun o hs => ?_⟩
  · obtain ⟨o, hs, ho⟩ := h.waiting rx hph
    exact ⟨o, hs, hown rx o ho⟩
  · obtain ⟨hex, he, hb⟩ := h.saw o hs
    exact ⟨hex, hext.executes he, fun b hph => hext.completed (hb b hph)⟩

structure DedupInv (s : Node) : Prop where
  owners_length : s.owners.length = s.replay.channels.length
  creator_mem : ∀ key o, s.creator key = some o → key ∈ s.replay.entries
  creator_executes : ∀ key o, s.creator key = some o → Executes s.requests o (some key)
  pending : ∀ key tx c, s.replay.entries.lookup key = some (.pending tx c) →
    ∃ o, s.creator key = some o ∧ s.owners[tx]? = some o ∧ s.replay.channels[tx]? = some none
  ready : ∀ key b c o, s.replay.entries.lookup key = some (.ready b c) →
    s.creator key = some o → Completed s.requests o b
  sent : ∀ (tx : Nat) (b : Body), s.replay.channels[tx]? = some (some b) →
    ∃ o, s.owners[tx]? = some o ∧ Completed s.requests o b
  requests : ∀ req ∈ s.requests, RequestInv s.owners s.requests req

variable {s : Node} {key : Fingerprint}

theorem live_eq_some {creator : Fingerprint → Option Nat} {replay : ReplayRegistry}
    (h : live creator replay key = some o) : key ∈ replay.entries ∧ creator key = some o := by
  rw [live] at h
  split_ifs at h with hk
  exact ⟨hk, h⟩

theorem live_of_lookup {creator : Fingerprint → Option Nat} {replay : ReplayRegistry}
    {e : ReplayEntry} (h : replay.entries.lookup key = some e) :
    live creator replay key = creator key :=
  if_pos (AList.lookup_isSome.mp (h ▸ rfl))

/-- Entries may leave the registry at any time. -/
theorem DedupInv.shrink {replay : ReplayRegistry} (h : DedupInv s)
    (hr : ReplayRegistry.Shrinks s.replay replay) :
    DedupInv { s with replay := replay, creator := live s.creator replay } where
  owners_length := hr.channels ▸ h.owners_length
  creator_mem := fun _ _ hc => (live_eq_some hc).1
  creator_executes := fun key o hc => h.creator_executes key o (live_eq_some hc).2
  pending := by
    intro key tx c he
    obtain ⟨o, ho, hown, hch⟩ := h.pending key tx c (hr.of_some he)
    exact ⟨o, (live_of_lookup he).trans ho, hown, hr.channels ▸ hch⟩
  ready := fun key b c o he hc => h.ready key b c o (hr.of_some he) (live_eq_some hc).2
  sent := fun tx b hb => h.sent tx b (hr.channels ▸ hb)
  requests := h.requests

/-- The requests change to later ones; the lock may change hands. -/
theorem DedupInv.extend (h : DedupInv s) (lock : Option Nat) (hext : Extends s.requests reqs)
    (hreqs : ∀ req ∈ reqs, RequestInv s.owners reqs req) :
    DedupInv { s with lock := lock, requests := reqs } where
  owners_length := h.owners_length
  creator_mem := h.creator_mem
  creator_executes := fun key o hc => hext.executes (h.creator_executes key o hc)
  pending := h.pending
  ready := fun key b c o he hc => hext.completed (h.ready key b c o he hc)
  sent := by
    intro tx b hb
    obtain ⟨o, ho, hc⟩ := h.sent tx b hb
    exact ⟨o, ho, hext.completed hc⟩
  requests := hreqs

/-- A request moves on to `new`; what that answers must be the answer of the request whose entry
it saw. -/
theorem DedupInv.move (h : DedupInv s) (lock : Option Nat) (hreq : s.requests[r]? = some req)
    {new : Request} (hlater : Later req new) (hnew : RequestInv s.owners s.requests new) :
    DedupInv { s with lock := lock, requests := s.requests.set r new } := by
  have hext := extends_set hreq hlater
  refine h.extend lock hext fun x hx => ?_
  rcases List.mem_or_eq_of_mem_set hx with hx | rfl
  · exact (h.requests x hx).mono hext fun _ _ ho => ho
  · exact hnew.mono hext fun _ _ ho => ho

/-- A new request joins. -/
theorem DedupInv.join (h : DedupInv s) {new : Request}
    (hnew : RequestInv s.owners s.requests new) :
    DedupInv { s with requests := s.requests ++ [new] } := by
  have hext := extends_append s.requests [new]
  refine h.extend s.lock hext fun x hx => ?_
  rcases List.mem_append.mp hx with hx | hx
  · exact (h.requests x hx).mono hext fun _ _ ho => ho
  · cases List.mem_singleton.mp hx
    exact hnew.mono hext fun _ _ ho => ho

/-- An owner's claim adds a Pending entry with a channel of its own. -/
theorem DedupInv.own (h : DedupInv s) (hreq : s.requests[r]? = some req)
    (hph : req.phase = .claiming) (hk : req.key = some key) (hkey : key ∉ s.replay.entries)
    (now : Nat) (order : List Fingerprint) :
    DedupInv ⟨{ s.replay with
        entries := s.replay.entries.insert key (.pending s.replay.channels.length now)
        order := order
        channels := s.replay.channels ++ [none] }, none,
      s.requests.set r { req with saw := none, phase := .executing, executed := true },
      Function.update s.creator key (some r), s.owners ++ [r]⟩ := by
  have hr : r < s.requests.length := (List.getElem?_eq_some_iff.mp hreq).1
  have hj : DedupInv { s with
      lock := none
      requests := s.requests.set r
        { req with saw := none, phase := .executing, executed := true } } :=
    h.move none hreq ⟨rfl, fun _ => rfl, fun b hb => by simp [hph] at hb⟩
      ⟨nofun, fun _ => ⟨rfl, rfl⟩, nofun, nofun, nofun⟩
  have hlt : ∀ {tx o : Nat}, s.owners[tx]? = some o → (s.owners ++ [r])[tx]? = some o :=
    fun ho => by rw [List.getElem?_append_left (List.getElem?_eq_some_iff.mp ho).1, ho]
  -- the creators of the other keys are the old ones
  have hup : ∀ {k o}, k ≠ key →
      Function.update s.creator key (some r) k = some o → s.creator k = some o :=
    fun hk hc => by rwa [Function.update_of_ne hk] at hc
  refine ⟨by simp [h.owners_length], ?_, ?_, ?_, ?_, ?_,
    fun x hx => (hj.requests x hx).mono (fun _ y hy => ⟨y, hy, rfl, id, fun _ hb => hb⟩)
      fun _ _ ho => hlt ho⟩
  · intro k o hc
    rw [AList.mem_insert]
    by_cases hk : k = key
    · exact .inl hk
    · exact .inr (h.creator_mem k o (hup hk hc))
  · intro k o hc
    by_cases hk' : k = key
    · subst hk'
      replace hc := (Function.update_self k _ s.creator).symm.trans hc
      cases hc
      exact ⟨_, List.getElem?_set_self hr, rfl, hk⟩
    · exact hj.creator_executes k o (hup hk' hc)
  · intro k tx c he
    change AList.lookup k (AList.insert key _ _) = _ at he
    by_cases hk : k = key
    · subst hk
      rw [AList.lookup_insert] at he
      cases he
      -- the new entry's channel and its owner are both the last ones
      exact ⟨r, Function.update_self .., by simp [← h.owners_length], by simp⟩
    · rw [AList.lookup_insert_ne hk] at he
      obtain ⟨o, hc, ho, hch⟩ := h.pending k tx c he
      refine ⟨o, (Function.update_of_ne hk ..).trans hc, hlt ho, ?_⟩
      rw [List.getElem?_append_left (List.getElem?_eq_some_iff.mp hch).1, hch]
  · intro k b c o he hc
    change AList.lookup k (AList.insert key _ _) = _ at he
    by_cases hk : k = key
    · subst hk
      rw [AList.lookup_insert] at he
      cases he
    · rw [AList.lookup_insert_ne hk] at he
      exact hj.ready k b c o he (hup hk hc)
  · intro tx b hb
    have hold : s.replay.channels[tx]? = some (some b) := by
      rw [List.getElem?_append] at hb
      split_ifs at hb with hlen
      · exact hb
      · exact absurd (List.mem_singleton.mp (List.mem_of_getElem? hb)) nofun
    obtain ⟨o, ho, hc⟩ := hj.sent tx b hold
    exact ⟨o, hlt ho, hc⟩

theorem length_send (channels : List (Option Body)) (body : Body) (old : Option ReplayEntry) :
    (ReplayRegistry.send channels body old).length = channels.length := by
  rcases old with _ | ⟨tx, c⟩ | ⟨b, c⟩
  · rfl
  · exact List.length_set
  · rfl

/-- A completion that agrees with the creator of the entry it replaces. -/
theorem DedupInv.complete (h : DedupInv s) (now : Nat)
    (hown : ∀ o, s.creator key = some o → Completed s.requests o body) :
    DedupInv { s with replay := s.replay.completed key body now } := by
  have hlookup : ∀ k, k ≠ key →
      (s.replay.completed key body now).entries.lookup k = s.replay.entries.lookup k := by
    intro k hk
    exact (AList.lookup_insert_ne hk).trans (AList.lookup_erase_ne hk)
  have hself : (s.replay.completed key body now).entries.lookup key = some (.ready body now) :=
    AList.lookup_insert _
  refine ⟨h.owners_length.trans (length_send ..).symm, ?_, h.creator_executes, ?_, ?_, ?_,
    h.requests⟩
  · intro k o hc
    refine (AList.mem_insert _).mpr ?_
    by_cases hk : k = key
    · exact .inl hk
    · exact .inr (AList.mem_erase.mpr ⟨hk, h.creator_mem k o hc⟩)
  · intro k tx c he
    by_cases hk : k = key
    · subst hk
      rw [hself] at he
      cases he
    · rw [hlookup k hk] at he
      obtain ⟨o, hc, ho, hch⟩ := h.pending k tx c he
      refine ⟨o, hc, ho, ?_⟩
      change (ReplayRegistry.send s.replay.channels body _)[tx]? = _
      rcases hold : s.replay.entries.lookup key with _ | ⟨tx', c'⟩ | ⟨b, c'⟩
      · exact hch
      · -- the channel that gets the body is not the one of another key's entry
        have htx : tx' ≠ tx := by
          rintro rfl
          obtain ⟨o', hc', ho', -⟩ := h.pending key tx' c' hold
          rw [ho] at ho'
          cases ho'
          obtain ⟨req₁, hr₁, -, hk₁⟩ := h.creator_executes k o hc
          obtain ⟨req₂, hr₂, -, hk₂⟩ := h.creator_executes key o hc'
          rw [hr₁] at hr₂
          cases hr₂
          exact hk (Option.some.inj (hk₁.symm.trans hk₂))
        exact (List.getElem?_set_ne htx).trans hch
      · exact hch
  · intro k b c o he hc
    by_cases hk : k = key
    · subst hk
      rw [hself] at he
      cases he
      exact hown o hc
    · rw [hlookup k hk] at he
      exact h.ready k b c o he hc
  · intro tx b hb
    change (ReplayRegistry.send s.replay.channels body _)[tx]? = _ at hb
    rcases hold : s.replay.entries.lookup key with _ | ⟨tx', c'⟩ | ⟨b', c'⟩
    · rw [hold] at hb
      exact h.sent tx b hb
    · obtain ⟨o, hc, ho, hch⟩ := h.pending key tx' c' hold
      rw [hold] at hb
      -- the waiters of the replaced entry get the body, and it is its creator's
      by_cases htx : tx' = tx
      · subst htx
        rw [ReplayRegistry.send, List.getElem?_set_self (List.getElem?_eq_some_iff.mp hch).1] at hb
        cases hb
        exact ⟨o, ho, hown o hc⟩
      · exact h.sent tx b ((List.getElem?_set_ne htx).symm.trans hb)
    · rw [hold] at hb
      exact h.sent tx b hb

/-! ## Runs -/

/-- A request that completes finds under its key no entry, or one its own claim created, or one
that no claim created (left by a completion that came too late). -/
def CompletesOwn (s : Node) : Event → Prop
  | .complete r _ => ∀ req key o, s.requests[r]? = some req → req.key = some key →
      s.creator key = some o → o = r
  | _ => True

instance decidableCompletesOwn (s : Node) : (e : Event) → Decidable (s.CompletesOwn e)
  | .complete r _ =>
      decidable_of_iff (∀ o ∈ s.requests[r]?.bind fun req => req.key.bind s.creator, o = r) <| by
        constructor
        · exact fun h req key o hreq hkey ho => h o (by simp [hreq, hkey, ho])
        · intro h o ho
          obtain ⟨req, hreq, ho⟩ := Option.bind_eq_some_iff.mp ho
          obtain ⟨key, hkey, ho⟩ := Option.bind_eq_some_iff.mp ho
          exact h req key o hreq hkey ho
  | .arrive .. | .claim .. | .wake _ | .waitFails _ | .finish .. | .disconnect _ => isTrue trivial

/-- A request that waits holds the lock, and no body is in its channel. -/
structure LockInv (s : Node) : Prop where
  open_channels : s.replay.OpenChannels
  waiting : ∀ (r : Nat) (req : Request) (rx : Nat), s.requests[r]? = some req →
    req.phase = .waiting rx → s.lock = some r ∧ s.replay.channels[rx]? = some none

theorem init_lockInv : LockInv init := ⟨⟨nofun, nofun⟩, nofun⟩

/-- A request changes and is not waiting afterwards; the lock is released if it was held by it. -/
theorem LockInv.set (h : LockInv s) {new : Request} (hnew : ∀ rx, new.phase ≠ .waiting rx)
    {lock : Option Nat} (hlock : ∀ q, q ≠ r → s.lock = some q → lock = some q) :
    LockInv { s with lock := lock, requests := s.requests.set r new } := by
  refine ⟨h.open_channels, fun q x rx hx hph => ?_⟩
  by_cases hq : r = q
  · subst hq
    rw [List.getElem?_set_self'] at hx
    obtain ⟨_, -, rfl⟩ := Option.map_eq_some_iff.mp hx
    exact absurd hph (hnew rx)
  · rw [List.getElem?_set_ne hq] at hx
    obtain ⟨hl, hch⟩ := h.waiting q x rx hx hph
    exact ⟨hlock q (Ne.symm hq) hl, hch⟩

/-- While nobody holds the lock, nobody waits, and the registry may change. -/
theorem LockInv.free (h : LockInv s) (hlock : s.lock = none) {replay : ReplayRegistry}
    (hr : replay.OpenChannels) (creator : Fingerprint → Option Nat) (owners : List Nat) :
    LockInv ⟨replay, none, s.requests, creator, owners⟩ := by
  refine ⟨hr, fun r req rx hreq hph => ?_⟩
  have hheld := (h.waiting r req rx hreq hph).1
  rw [hlock] at hheld
  cases hheld

theorem LockInv.join (h : LockInv s) {new : Request} (hnew : ∀ rx, new.phase ≠ .waiting rx) :
    LockInv { s with requests := s.requests ++ [new] } := by
  refine ⟨h.open_channels, fun q x rx hx hph => ?_⟩
  rw [List.getElem?_append] at hx
  split_ifs at hx
  · exact h.waiting q x rx hx hph
  · cases List.mem_singleton.mp (List.mem_of_getElem? hx)
    exact absurd hph (hnew rx)

theorem claimed_lockInv (h : LockInv s) (hlock : s.lock = none)
    (hreq : s.requests[r]? = some req) (key : Fingerprint) (now : Nat) :
    LockInv (s.claimed r req key now) := by
  have hr := h.open_channels.claim key now
  rcases hclaim : s.replay.claim key now with ⟨replay, tx | rx | body⟩ <;>
    rw [hclaim] at hr <;> simp only [claimed, hclaim]
  · exact (h.free hlock hr _ _).set (by simp) (by simp)
  · refine ⟨hr, fun q x rx' hx hph => ?_⟩
    by_cases hq : r = q
    · subst hq
      rw [List.getElem?_set_self (List.getElem?_eq_some_iff.mp hreq).1] at hx
      cases hx
      cases hph
      exact ⟨rfl, ReplayRegistry.channel_of_wait h.open_channels hclaim⟩
    · rw [List.getElem?_set_ne hq] at hx
      have hheld := (h.waiting q x rx' hx hph).1
      rw [hlock] at hheld
      cases hheld
  · exact (h.free hlock hr _ _).set (by simp) (by simp)

theorem step_lockInv (blake3 : List UInt8 → Fingerprint) {t : Node} {e : Event} (h : LockInv s)
    (hstep : s.step blake3 e = some t) : LockInv t := by
  cases e with
  | arrive ops clientZstd =>
      cases hstep
      rw [arrive]
      split
      · exact h.join nofun
      · exact h.join nofun
  | claim r now =>
      simp only [step, claim] at hstep
      split at hstep <;> try cases hstep
      rename_i req hlock hreq
      split at hstep <;> cases hstep
      rename_i key hph hkey
      exact claimed_lockInv h hlock hreq key now
  | wake r =>
      simp only [step, wake] at hstep
      split at hstep <;> try cases hstep
      rename_i req hreq
      split at hstep <;> try cases hstep
      rename_i rx hph
      split at hstep <;> cases hstep
      rename_i body hch
      -- the channel would have to hold a body
      have hnone := (h.waiting r req rx hreq hph).2
      rw [hch] at hnone
      cases hnone
  | waitFails r =>
      simp only [step, waitFails] at hstep
      split at hstep <;> try cases hstep
      rename_i req hreq
      split at hstep <;> cases hstep
      rename_i rx hph
      have hheld := (h.waiting r req rx hreq hph).1
      exact h.set (by simp) fun q hq hl => absurd (Option.some.inj (hl.symm.trans hheld)) hq
  | finish r body =>
      simp only [step, finish] at hstep
      split at hstep <;> try cases hstep
      split_ifs at hstep
      split at hstep <;> cases hstep
      · exact h.set (by simp) fun _ _ hl => hl
      · exact h.set (by simp) fun _ _ hl => hl
  | complete r now =>
      simp only [step, complete] at hstep
      split at hstep <;> try cases hstep
      rename_i req hlock hreq
      split at hstep <;> cases hstep
      rename_i body key hph hkey
      exact (h.free hlock (h.open_channels.complete key body now) _ _).set (by simp) (by simp)
  | disconnect r =>
      simp only [step, disconnect] at hstep
      split at hstep <;> try cases hstep
      split at hstep <;> cases hstep
      refine h.set (by simp) fun q hq hl => ?_
      rw [if_neg (fun hr => hq (Option.some.inj (hl.symm.trans hr)))]
      exact hl

/-- **A duplicate that waits stops the registry and is never answered with a body.** In every
state of every run in which a request waits, its channel is empty and no other request, its
owner included, gets to claim or complete. -/
theorem waiting_blocks_registry (blake3 : List UInt8 → Fingerprint) (es : List Event) :
    StepRun.AllStates (step blake3) (fun t => ∀ (r : Nat) (req : Request) (rx : Nat),
      t.requests[r]? = some req → req.phase = .waiting rx →
        t.wake r = none ∧ ∀ q now, t.claim q now = none ∧ t.complete q now = none) init es := by
  refine StepRun.allStates_of_inv (fun _ _ _ h hs => step_lockInv blake3 h hs) ?_ init_lockInv es
  intro t h r req rx hreq hph
  obtain ⟨hlock, hch⟩ := h.waiting r req rx hreq hph
  refine ⟨by simp [wake, hreq, hph, hch], fun q now => ?_⟩
  exact ⟨by simp [claim, hlock], by simp [complete, hlock]⟩

end Node

end Rahgozar.Tunnel
