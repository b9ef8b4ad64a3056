import Rahgozar.Lib.Maps
import Rahgozar.Lib.Run
import Rahgozar.Tunnel.Protocol

set_option autoImplicit false

/-! # The replay registry (`tunnel-node/src/main.rs`)

A client that does not know the outcome of a replay-safe batch sends it again. The node keeps
the first request for a fingerprint as the owner of a `Pending` entry, lets duplicates wait on
the owner's watch channel and serves later ones from the `Ready` body. The registry is a map
with a queue of its keys and a byte counter beside it; entries leave it after 60 s or when it
is over its limits.
-/

namespace Rahgozar.Tunnel

abbrev Body := List UInt8

/-- Instants and durations are in nanoseconds. -/
def secs (n : Nat) : Nat := n * 1000000000

def replayTtl : Nat := secs 60
def replayMaxEntries : Nat := 4096
def replayMaxBytes : Nat := 64 * 1024 * 1024

/-- An entry; `tx` is the number of the owner's watch channel. -/
inductive ReplayEntry where
  | pending (tx : Nat) (created : Nat)
  | ready (body : Body) (completed : Nat)
deriving DecidableEq

namespace ReplayEntry

def isPending : ReplayEntry → Bool
  | pending _ _ => true
  | ready _ _ => false

/-- The bytes an entry accounts for. -/
def bodyLen : ReplayEntry → Nat
  | pending _ _ => 0
  | ready body _ => body.length

/-- The instant from which the entry's time to live runs. -/
def since : ReplayEntry → Nat
  | pending _ created => created
  | ready _ completed => completed

end ReplayEntry

/-- The registry, with the values of the watch channels its claims have created so far. -/
structure ReplayRegistry where
  entries : AList fun _ : Fingerprint => ReplayEntry
  order : List Fingerprint
  readyBytes : Nat
  hits : Nat
  coalesced : Nat
  evictions : Nat
  channels : List (Option Body)

inductive ReplayClaim where
  | owner (tx : Nat)
  | wait (rx : Nat)
  | hit (body : Body)
deriving DecidableEq

namespace ReplayRegistry

def empty : ReplayRegistry := ⟨∅, [], 0, 0, 0, 0, []⟩

/-! ## Operations -/

/-- `entries.remove(&key)`, with the removed entry's bytes taken off the counter. -/
def removeEntry (r : ReplayRegistry) (key : Fingerprint) : ReplayRegistry :=
  { r with
    entries := r.entries.erase key
    readyBytes := r.readyBytes - ((r.entries.lookup key).map ReplayEntry.bodyLen).getD 0 }

/-- Is what `order` holds a key for due at `now`? A key without an entry always is. -/
def expired (now : Nat) : Option ReplayEntry → Bool
  | some e => decide (replayTtl ≤ now - e.since)
  | none => true

/-- The loop of `expire` over the keys of `order`, oldest first. -/
def expireLoop (now : Nat) : List Fingerprint → ReplayRegistry → ReplayRegistry
  | [], r => { r with order := [] }
  | key :: keys, r =>
      if expired now (r.entries.lookup key) then expireLoop now keys (r.removeEntry key)
      else { r with order := key :: keys }

def expire (r : ReplayRegistry) (now : Nat) : ReplayRegistry := expireLoop now r.order r

def overLimits (r : ReplayRegistry) : Bool :=
  decide (replayMaxEntries < r.entries.keys.length) || decide (replayMaxBytes < r.readyBytes)

def holdsPending (r : ReplayRegistry) (key : Fingerprint) : Bool :=
  (r.entries.lookup key).any ReplayEntry.isPending

/-- A Ready entry at the front of `order` is dropped. -/
def evictFront (r : ReplayRegistry) (key : Fingerprint) (keys : List Fingerprint) :
    ReplayRegistry :=
  { r.removeEntry key with order := keys, evictions := r.evictions + 1 }

/-- A Pending entry at the front of `order` goes to its back; it is taken out of the map and put
back, which leaves the map as it is. -/
def rotate (r : ReplayRegistry) (key : Fingerprint) (keys : List Fingerprint) : ReplayRegistry :=
  { r with order := keys ++ [key] }

theorem findIdx_rotate {r : ReplayRegistry} {key : Fingerprint} {keys : List Fingerprint}
    (hkey : r.holdsPending key) (hall : (keys ++ [key]).all r.holdsPending = false) :
    (keys ++ [key]).findIdx (fun k => !r.holdsPending k)
      < (key :: keys).findIdx (fun k => !r.holdsPending k) := by
  have hex : ∃ k ∈ keys, r.holdsPending k = false := by
    simpa [hkey] using hall
  have hlt : keys.findIdx (fun k => !r.holdsPending k) < keys.length := by
    obtain ⟨k, hk, hpk⟩ := hex
    exact List.findIdx_lt_length_of_exists ⟨k, hk, by simp [hpk]⟩
  rw [List.findIdx_append, if_pos hlt, List.findIdx_cons]
  simp [hkey]

/-- The loop of `evict`. Each turn shortens `order` or brings its first entry that is not
Pending closer to the front. -/
def evictLoop (r : ReplayRegistry) : ReplayRegistry :=
  if r.overLimits then
    match _h : r.order with
    | [] => r
    | key :: keys =>
        match _he : r.entries.lookup key with
        | some (.ready _ _) => evictLoop (r.evictFront key keys)
        | some (.pending _ _) =>
            if _hall : (keys ++ [key]).all r.holdsPending then r.rotate key keys
            else evictLoop (r.rotate key keys)
        | none => evictLoop { r with order := keys }
  else r
termination_by (r.order.length, r.order.findIdx fun k => !r.holdsPending k)
decreasing_by
  · rw [_h]
    exact Prod.Lex.left _ _ (Nat.lt_succ_self _)
  · rw [_h]
    have hkey : r.holdsPending key := by simp [holdsPending, _he, ReplayEntry.isPending]
    have hlen : (r.rotate key keys).order.length = (key :: keys).length := by simp [rotate]
    rw [hlen]
    have hall : (keys ++ [key]).all r.holdsPending = false := Bool.not_eq_true _ ▸ _hall
    exact Prod.Lex.right _ (findIdx_rotate hkey hall)
  · rw [_h]
    exact Prod.Lex.left _ _ (Nat.lt_succ_self _)

/-- The loop's first test is written out here, so that a registry within its limits evaluates
without the loop. -/
def evict (r : ReplayRegistry) : ReplayRegistry := if r.overLimits then r.evictLoop else r

def claim (r : ReplayRegistry) (key : Fingerprint) (now : Nat) : ReplayRegistry × ReplayClaim :=
  let r := r.expire now
  match r.entries.lookup key with
  | some (.ready body _) => ({ r with hits := r.hits + 1 }, .hit body)
  | some (.pending tx _) => ({ r with coalesced := r.coalesced + 1 }, .wait tx)
  | none =>
      ({ r with
          entries := r.entries.insert key (.pending r.channels.length now)
          order := r.order ++ [key]
          channels := r.channels ++ [none] }, .owner r.channels.length)

/-- The value of channel `tx` becomes `body`; without a channel nothing is sent. -/
def send (channels : List (Option Body)) (body : Body) : Option ReplayEntry → List (Option Body)
  | some (.pending tx _) => channels.set tx (some body)
  | _ => channels

def complete (r : ReplayRegistry) (key : Fingerprint) (body : Body) (now : Nat) :
    ReplayRegistry :=
  let old := r.entries.lookup key
  let r := r.removeEntry key
  evict { r with
    readyBytes := r.readyBytes + body.length
    entries := r.entries.insert key (.ready body now)
    channels := send r.channels body old }

/-! ## Rules for the two loops -/

variable {P : ReplayRegistry → Prop} {r : ReplayRegistry}

/-- What taking the front key with its entry preserves, `expire` preserves. -/
theorem expire_rule (now : Nat) (h0 : P r)
    (hpop : ∀ r key keys, r.order = key :: keys → P r →
      P { r.removeEntry key with order := keys }) :
    P (r.expire now) := by
  -- on the keys still to be looked at, which are the `order` of the registry so far
  have hloop : ∀ (keys : List Fingerprint) (r : ReplayRegistry), P { r with order := keys } →
      P (expireLoop now keys r) := by
    intro keys
    induction keys with
    | nil => exact fun r h => h
    | cons key keys ih =>
        intro r h
        rw [expireLoop]
        split_ifs
        · exact ih _ (hpop { r with order := key :: keys } key keys rfl h)
        · exact h
  exact hloop r.order r h0

/-- What the three things `evict` does with the front key preserve, `evict` preserves. -/
theorem evict_rule (h0 : P r)
    (hready : ∀ r key keys body c, r.order = key :: keys →
      r.entries.lookup key = some (.ready body c) → P r → P (r.evictFront key keys))
    (hpending : ∀ r key keys tx c, r.order = key :: keys →
      r.entries.lookup key = some (.pending tx c) → P r → P (r.rotate key keys))
    (hnone : ∀ r key keys, r.order = key :: keys → r.entries.lookup key = none → P r →
      P { r with order := keys }) : P r.evict := by
  have hloop : ∀ r : ReplayRegistry, P r → P r.evictLoop := by
    intro r
    -- on the turns of the loop; in each the measure of `evictLoop` goes down
    induction r using evictLoop.induct with
    | case1 r hover hnil =>
        rw [evictLoop, if_pos hover]
        split
        · exact id
        · simp_all
    | case2 r hover key keys hord body c he ih =>
        intro h
        have := ih (hready r key keys body c hord he h)
        rw [evictLoop, if_pos hover]
        grind
    | case3 r hover key keys hord tx c he hall =>
        intro h
        have := hpending r key keys tx c hord he h
        rw [evictLoop, if_pos hover]
        grind
    | case4 r hover key keys hord tx c he hall ih =>
        intro h
        have := ih (hpending r key keys tx c hord he h)
        rw [evictLoop, if_pos hover]
        grind
    | case5 r hover key keys hord he ih =>
        intro h
        have := ih (hnone r key keys hord he h)
        rw [evictLoop, if_pos hover]
        grind
    | case6 r hover =>
        rw [evictLoop, if_neg hover]
        exact id
  rw [evict]
  split_ifs
  · exact hloop r h0
  · exact h0

/-- `r'` has no entries but those of `r`, and the same channels. -/
structure Shrinks (r r' : ReplayRegistry) : Prop where
  lookup : ∀ key, r'.entries.lookup key = none ∨ r'.entries.lookup key = r.entries.lookup key
  channels : r'.channels = r.channels

namespace Shrinks

variable {r r' : ReplayRegistry}

protected theorem refl (r : ReplayRegistry) : Shrinks r r := ⟨fun _ => .inr rfl, rfl⟩

theorem of_some (h : Shrinks r r') {key : Fingerprint} {e : ReplayEntry}
    (he : r'.entries.lookup key = some e) : r.entries.lookup key = some e :=
  (h.lookup key).elim (fun hn => absurd (hn ▸ he) nofun) fun heq => heq ▸ he

theorem removeEntry (h : Shrinks r r') (key : Fingerprint) : Shrinks r (r'.removeEntry key) := by
  refine ⟨fun k => ?_, h.channels⟩
  change AList.lookup k (r'.entries.erase key) = none ∨ AList.lookup k (r'.entries.erase key) = _
  by_cases hk : k = key
  · exact .inl (hk ▸ AList.lookup_erase key _)
  · rw [AList.lookup_erase_ne hk]
    exact h.lookup k

end Shrinks

theorem expire_shrinks (r : ReplayRegistry) (now : Nat) : Shrinks r (r.expire now) := by
  refine expire_rule (P := Shrinks r) now (.refl r) fun r' key keys _ h => ?_
  have hrem := h.removeEntry key
  exact ⟨hrem.lookup, hrem.channels⟩

theorem evict_shrinks (r : ReplayRegistry) : Shrinks r r.evict := by
  refine evict_rule (P := Shrinks r) (.refl r) ?_ ?_ ?_
  · intro r' key keys _ _ _ _ h
    have hrem := h.removeEntry key
    exact ⟨hrem.lookup, hrem.channels⟩
  · exact fun r' key keys _ _ _ _ h => ⟨h.lookup, h.channels⟩
  · exact fun r' key keys _ _ h => ⟨h.lookup, h.channels⟩

/-! ## The representation invariant -/

/-- `order` lists the keys of `entries`, each once, and `readyBytes` is the total length of the
Ready bodies. -/
structure Inv (r : ReplayRegistry) : Prop where
  nodup : r.order.Nodup
  mem_order : ∀ key, key ∈ r.order ↔ key ∈ r.entries
  bytes : r.readyBytes = r.entries.weight ReplayEntry.bodyLen

theorem empty_inv : Inv empty := ⟨List.nodup_nil, fun _ => by simp [empty], rfl⟩

/-- The byte counter follows the removal of an entry. -/
theorem removeEntry_bytes (hb : r.readyBytes = r.entries.weight ReplayEntry.bodyLen)
    (key : Fingerprint) :
    (r.removeEntry key).readyBytes = (r.removeEntry key).entries.weight ReplayEntry.bodyLen := by
  change r.readyBytes - _ = (r.entries.erase key).weight _
  rw [hb]
  cases he : r.entries.lookup key with
  | none => rw [AList.erase_of_notMem (AList.lookup_eq_none.mp he)]; rfl
  | some e =>
      rw [AList.weight_erase he]
      exact Nat.add_sub_cancel_left _ _

theorem removeEntry_inv {key : Fingerprint} {keys : List Fingerprint} (h : Inv r)
    (hord : r.order = key :: keys) : Inv { r.removeEntry key with order := keys } := by
  have hnodup : key ∉ keys ∧ keys.Nodup := List.nodup_cons.mp (hord ▸ h.nodup)
  refine ⟨hnodup.2, fun k => ?_, removeEntry_bytes h.bytes key⟩
  change k ∈ keys ↔ k ∈ r.entries.erase key
  rw [AList.mem_erase, ← h.mem_order k, hord, List.mem_cons]
  constructor
  · exact fun hk => ⟨fun heq => hnodup.1 (heq ▸ hk), .inr hk⟩
  · exact fun hk => hk.2.resolve_left hk.1

theorem expire_inv (h : Inv r) (now : Nat) : Inv (r.expire now) :=
  expire_rule now h fun _ _ _ hord h => removeEntry_inv h hord

theorem evict_inv (h : Inv r) : Inv r.evict := by
  refine evict_rule h ?_ ?_ ?_
  · intro r key keys body c hord _ h
    obtain ⟨hn, hm, hb⟩ := removeEntry_inv h hord
    exact ⟨hn, hm, hb⟩
  · intro r key keys tx c hord _ h
    refine ⟨?_, fun k => ?_, h.bytes⟩
    · have hn := List.nodup_cons.mp (hord ▸ h.nodup)
      exact List.nodup_append_comm.mp (List.nodup_cons.mpr hn)
    · change k ∈ keys ++ [key] ↔ k ∈ r.entries
      rw [← h.mem_order k, hord]
      simp [or_comm]
  · intro r key keys hord he h
    -- this branch is dead: every key of `order` has an entry
    have hkey : key ∈ r.entries := (h.mem_order key).mp (hord ▸ List.mem_cons_self)
    exact absurd hkey (AList.lookup_eq_none.mp he)

theorem claim_inv (h : Inv r) (key : Fingerprint) (now : Nat) : Inv (r.claim key now).1 := by
  have hx := expire_inv h now
  rw [claim]
  cases he : (r.expire now).entries.lookup key with
  | some e =>
      cases e with
      | ready body c => exact ⟨hx.nodup, hx.mem_order, hx.bytes⟩
      | pending tx c => exact ⟨hx.nodup, hx.mem_order, hx.bytes⟩
  | none =>
      have hnot := AList.lookup_eq_none.mp he
      refine ⟨?_, fun k => ?_, ?_⟩
      · refine List.nodup_append_comm.mp (List.nodup_cons.mpr ⟨?_, hx.nodup⟩)
        exact fun hk => hnot ((hx.mem_order key).mp hk)
      · change k ∈ (r.expire now).order ++ [key] ↔ k ∈ AList.insert key _ _
        rw [AList.mem_insert, ← hx.mem_order k]
        simp [or_comm]
      · change (r.expire now).readyBytes = _
        rw [AList.weight_insert, AList.erase_of_notMem hnot, hx.bytes]
        exact (Nat.zero_add _).symm

/-- The registry of `complete` before its `evict`. -/
def completed (r : ReplayRegistry) (key : Fingerprint) (body : Body) (now : Nat) :
    ReplayRegistry :=
  { r.removeEntry key with
    readyBytes := (r.removeEntry key).readyBytes + body.length
    entries := (r.removeEntry key).entries.insert key (.ready body now)
    channels := send r.channels body (r.entries.lookup key) }

theorem complete_eq (r : ReplayRegistry) (key : Fingerprint) (body : Body) (now : Nat) :
    r.complete key body now = (r.completed key body now).evict := rfl

theorem completed_inv (h : Inv r) {key : Fingerprint} (hkey : key ∈ r.entries) (body : Body)
    (now : Nat) : Inv (r.completed key body now) := by
  refine ⟨h.nodup, fun k => ?_, ?_⟩
  · change k ∈ r.order ↔ k ∈ AList.insert key _ (r.entries.erase key)
    rw [h.mem_order k, AList.mem_insert, AList.mem_erase]
    by_cases hk : k = key
    · simp [hk, hkey]
    · simp [hk]
  · change (r.removeEntry key).readyBytes + body.length
      = ((r.entries.erase key).insert key (.ready body now)).weight _
    rw [AList.weight_insert, AList.erase_of_notMem (by simp), removeEntry_bytes h.bytes]
    exact Nat.add_comm _ _

/-- An entry whose key is not in `order` is out of `evict`'s reach. -/
theorem evict_frame {key : Fingerprint} (hkey : key ∈ r.entries) (hord : key ∉ r.order) :
    key ∈ r.evict.entries ∧ key ∉ r.evict.order := by
  refine evict_rule (P := fun r => key ∈ r.entries ∧ key ∉ r.order) ⟨hkey, hord⟩ ?_ ?_ ?_
  · rintro r k ks _ _ hks - ⟨hmem, hnot⟩
    rw [hks, List.mem_cons, not_or] at hnot
    exact ⟨AList.mem_erase.mpr ⟨hnot.1, hmem⟩, hnot.2⟩
  · rintro r k ks _ _ hks - ⟨hmem, hnot⟩
    rw [hks, List.mem_cons, not_or] at hnot
    exact ⟨hmem, by simpa [rotate, not_or] using hnot.symm⟩
  · rintro r k ks hks - ⟨hmem, hnot⟩
    rw [hks, List.mem_cons, not_or] at hnot
    exact ⟨hmem, hnot.2⟩

/-- `complete` keeps the invariant exactly when it finds an entry to replace: it inserts into
`entries` without a look at `order`. -/
theorem complete_inv_iff (h : Inv r) (key : Fingerprint) (body : Body) (now : Nat) :
    Inv (r.complete key body now) ↔ key ∈ r.entries := by
  rw [complete_eq]
  constructor
  · intro hinv
    -- the new entry is in no `order`, and `evict` does not reach it
    by_contra hkey
    have hord : key ∉ r.order := fun hk => hkey ((h.mem_order key).mp hk)
    have hframe := evict_frame (r := r.completed key body now)
      (AList.mem_insert _ |>.mpr (.inl rfl)) hord
    exact hframe.2 ((hinv.mem_order key).mpr hframe.1)
  · exact fun hkey => evict_inv (completed_inv h hkey body now)

/-! ## The channels of the entries -/

/-- No body is in the channel of a Pending entry, and each entry has a channel of its own. -/
structure OpenChannels (r : ReplayRegistry) : Prop where
  pending : ∀ key tx c, r.entries.lookup key = some (.pending tx c) →
    r.channels[tx]? = some none
  distinct : ∀ key key' tx c c', r.entries.lookup key = some (.pending tx c) →
    r.entries.lookup key' = some (.pending tx c') → key = key'

theorem OpenChannels.shrink {r' : ReplayRegistry} (h : OpenChannels r) (hr : Shrinks r r') :
    OpenChannels r' where
  pending := fun key tx c he => hr.channels ▸ h.pending key tx c (hr.of_some he)
  distinct := fun key key' tx c c' he he' =>
    h.distinct key key' tx c c' (hr.of_some he) (hr.of_some he')

theorem OpenChannels.claim (h : OpenChannels r) (key : Fingerprint) (now : Nat) :
    OpenChannels (r.claim key now).1 := by
  have hx := h.shrink (expire_shrinks r now)
  rw [ReplayRegistry.claim]
  cases he : (r.expire now).entries.lookup key with
  | some e =>
      cases e with
      | ready body c => exact ⟨hx.pending, hx.distinct⟩
      | pending tx c => exact ⟨hx.pending, hx.distinct⟩
  | none =>
      -- the new entry's channel is behind those of the old entries
      have hlt : ∀ k tx c, (r.expire now).entries.lookup k = some (.pending tx c) →
          tx < (r.expire now).channels.length :=
        fun k tx c hk => (List.getElem?_eq_some_iff.mp (hx.pending k tx c hk)).1
      have hnew : ∀ k tx c, AList.lookup k (AList.insert key
          (.pending (r.expire now).channels.length now) (r.expire now).entries)
            = some (.pending tx c) → k = key ∧ tx = (r.expire now).channels.length ∨
              k ≠ key ∧ (r.expire now).entries.lookup k = some (.pending tx c) := by
        intro k tx c hk
        by_cases heq : k = key
        · subst heq
          rw [AList.lookup_insert] at hk
          cases hk
          exact .inl ⟨rfl, rfl⟩
        · rw [AList.lookup_insert_ne heq] at hk
          exact .inr ⟨heq, hk⟩
      refine ⟨fun k tx c hk => ?_, fun k k' tx c c' hk hk' => ?_⟩
      · rcases hnew k tx c hk with ⟨-, rfl⟩ | ⟨-, hk⟩
        · exact List.getElem?_concat_length
        · exact (List.getElem?_append_left (hlt k tx c hk)).trans (hx.pending k tx c hk)
      · rcases hnew k tx c hk with ⟨hkey, htx⟩ | ⟨-, hold⟩ <;>
          rcases hnew k' tx c' hk' with ⟨hkey', htx'⟩ | ⟨-, hold'⟩
        · exact hkey.trans hkey'.symm
        · exact absurd htx (hlt k' tx c' hold').ne
        · exact absurd htx' (hlt k tx c hold).ne
        · exact hx.distinct k k' tx c c' hold hold'

theorem OpenChannels.complete (h : OpenChannels r) (key : Fingerprint) (body : Body)
    (now : Nat) : OpenChannels (r.complete key body now) := by
  rw [complete_eq]
  refine OpenChannels.shrink ?_ (evict_shrinks _)
  -- a Pending entry left behind is an old one, of another key
  have hold : ∀ k tx c, (r.completed key body now).entries.lookup k = some (.pending tx c) →
      k ≠ key ∧ r.entries.lookup k = some (.pending tx c) := by
    intro k tx c hk
    change AList.lookup k (AList.insert key _ (r.entries.erase key)) = _ at hk
    by_cases heq : k = key
    · subst heq
      rw [AList.lookup_insert] at hk
      cases hk
    · rw [AList.lookup_insert_ne heq, AList.lookup_erase_ne heq] at hk
      exact ⟨heq, hk⟩
  refine ⟨fun k tx c hk => ?_, fun k k' tx c c' hk hk' =>
    h.distinct k k' tx c c' (hold k tx c hk).2 (hold k' tx c' hk').2⟩
  obtain ⟨hne, hk⟩ := hold k tx c hk
  change (send r.channels body (r.entries.lookup key))[tx]? = _
  rcases he : r.entries.lookup key with _ | ⟨tx', c'⟩ | ⟨b, c'⟩
  · exact h.pending k tx c hk
  · have htx : tx' ≠ tx := fun heq => hne (h.distinct k key tx c c' hk (heq ▸ he))
    exact (List.getElem?_set_ne htx).trans (h.pending k tx c hk)
  · exact h.pending k tx c hk

/-- The channel a duplicate is given is open. -/
theorem channel_of_wait {r' : ReplayRegistry} (h : OpenChannels r) {key : Fingerprint}
    {now rx : Nat} (hclaim : r.claim key now = (r', .wait rx)) :
    r'.channels[rx]? = some none := by
  have hx := h.shrink (expire_shrinks r now)
  rw [claim] at hclaim
  cases he : (r.expire now).entries.lookup key with
  | none => simp [he] at hclaim
  | some e =>
      cases e with
      | ready body c => simp [he] at hclaim
      | pending tx c =>
          simp only [he, Prod.mk.injEq, ReplayClaim.wait.injEq] at hclaim
          obtain ⟨rfl, rfl⟩ := hclaim
          exact hx.pending key tx c he

/-! ## Sequences of calls -/

inductive Call where
  | claim (key : Fingerprint) (now : Nat)
  | complete (key : Fingerprint) (body : Body) (now : Nat)
  | expire (now : Nat)
  | evict

def call (r : ReplayRegistry) : Call → Option ReplayRegistry
  | .claim key now => some (r.claim key now).1
  | .complete key body now => some (r.complete key body now)
  | .expire now => some (r.expire now)
  | .evict => some r.evict

/-- A `complete` finds its key in the registry; the other calls are free. -/
def CompletesPresent (r : ReplayRegistry) : Call → Prop
  | .complete key _ _ => key ∈ r.entries
  | _ => True

/-- **The representation invariant holds after every call exactly when each `complete` finds its
key in the registry.** -/
theorem inv_iff_completesPresent (calls : List Call) :
    StepRun.AllStates call Inv empty calls
      ↔ StepRun.AllSteps call CompletesPresent empty calls := by
  refine StepRun.allStates_iff_allSteps (fun r c t h hstep => ?_) empty_inv calls
  cases c with
  | claim key now =>
      cases hstep
      exact iff_of_true (claim_inv h key now) trivial
  | complete key body now =>
      cases hstep
      exact complete_inv_iff h key body now
  | expire now =>
      cases hstep
      exact iff_of_true (expire_inv h now) trivial
  | evict =>
      cases hstep
      exact iff_of_true (evict_inv h) trivial

/-- An owner that takes longer than 60 s: its Pending entry has expired when it completes, and
the Ready entry it leaves behind is in `entries` but not in `order`. -/
theorem inv_fails_after_late_complete :
    ¬ ∀ calls : List Call, StepRun.AllStates call Inv empty calls := by
  intro h
  let key : Fingerprint := ⟨List.replicate 32 0, rfl⟩
  have hlate := h [.claim key 0, .expire (secs 60), .complete key [1] (secs 61)]
  have hinv : Inv ((((empty.claim key 0).1).expire (secs 60)).complete key [1] (secs 61)) :=
    ((hlate.2 _ rfl).2 _ rfl).2 _ rfl
  have hmem :
      key ∈ ((((empty.claim key 0).1).expire (secs 60)).complete key [1] (secs 61)).entries := by
    decide
  have hord :
      ((((empty.claim key 0).1).expire (secs 60)).complete key [1] (secs 61)).order = [] := by
    decide
  simpa [hord] using (hinv.mem_order key).mpr hmem

end ReplayRegistry

end Rahgozar.Tunnel
