import Rahgozar.Fronter.Coalesce

set_option autoImplicit false

/-! # Whose response a request gets

The key of the cache and of `inflight` is the method and the URL, which may have been rewritten; no
request header takes part in it. A call may therefore be answered with the response to another
client's request. The file says when a response is one the request could have got itself (`Agree`),
and that the requests of the clients are answered with such, in whatever order their calls go, when
and only when those of them that share a key agree.
-/

namespace Rahgozar.Fronter

/-! ## Agreement -/

/-- `normalize_x_graphql_url`: a GraphQL URL of x.com keeps the first parameter of its query. -/
def normalizeXGraphqlUrl (url : String) : String :=
  let text := url.toList
  let scheme := if "https://".toList.isPrefixOf text then "https://".toList else "http://".toList
  let rest := text.drop scheme.length
  let host := rest.takeWhile (· ≠ '/')
  let pathAndQuery := rest.dropWhile (· ≠ '/')
  let path := pathAndQuery.takeWhile (· ≠ '?')
  let query := (pathAndQuery.dropWhile (· ≠ '?')).drop 1
  if !scheme.isPrefixOf text || !rest.contains '/' then url
  else if host.takeWhile (· ≠ ':') ≠ "x.com".toList then url
  else if !pathAndQuery.contains '?' then url
  else if !"/i/api/graphql/".toList.isPrefixOf path then url
  else if !"variables=".toList.isPrefixOf query then url
  else String.ofList (scheme ++ host ++ path ++ '?' :: query.takeWhile (· ≠ '&'))

example : normalizeXGraphqlUrl "https://x.com/i/api/graphql/a/Home?variables=1&features=2" =
    "https://x.com/i/api/graphql/a/Home?variables=1" := by decide +kernel

/-- The URL of the request is what `relay` makes of the one it is given. -/
def Request.Rewritten (normalizeXGraphql : Bool) (q : Request) : Prop :=
  q.url = if normalizeXGraphql then normalizeXGraphqlUrl q.asked else q.asked

/-- The values of a request header, in any case of its name. -/
def Request.values (q : Request) (name : String) : List String :=
  (q.headers.filter fun h => h.1.toList.map Char.toLower == name.toList.map Char.toLower).map
    Prod.snd

def credentialHeaders : List String :=
  ["authorization", "cookie", "if-none-match", "if-modified-since"]

def trim (text : List Char) : List Char :=
  ((text.dropWhile Char.isWhitespace).reverse.dropWhile Char.isWhitespace).reverse

/-- The names a header line lists if it is a `Vary` header. -/
def varyLine (line : List Char) : List String :=
  if (trim (line.takeWhile (· ≠ ':'))).map Char.toLower = "vary".toList then
    ((line.dropWhile (· ≠ ':')).tail.splitOn ',').map fun name => String.ofList (trim name)
  else []

/-- The headers named in the `Vary` headers of a raw response. -/
def varyNames (bytes : Bytes) : List String :=
  ((((headerSection bytes).getD []).map fun b => Char.ofNat b.toNat).splitOn '\n').flatMap varyLine

/-- A response with these bytes to the request `q'` will do for `q`. -/
def Agree (q q' : Request) (bytes : Bytes) : Prop :=
  q.method = q'.method ∧ q.asked = q'.asked ∧
    ∀ name ∈ credentialHeaders ++ varyNames bytes, q.values name = q'.values name

instance (q q' : Request) (bytes : Bytes) : Decidable (Agree q q' bytes) :=
  inferInstanceAs (Decidable (_ ∧ _ ∧ _))

namespace Relays

/-- Every coalescible request that has its answer has one that `relay_uncoalesced` produced for a
request that agrees with it. -/
def Isolated (s : Relays) : Prop :=
  ∀ i c a, s.calls.lookup i = some c → c.phase = .returned a → c.request.key.isSome = true →
    a ∈ s.produced ∧ Agree c.request a.producedFor a.bytes

section

variable (normalizeXGraphql : Bool) (Q : Set Request) (U : Request → Set Bytes)

/-- The calls of a run are for requests of `Q`, with their URLs as `relay` rewrites them, and
`relay_uncoalesced` returns for each of them a response that `U` has for it. -/
def RunsOn (s : Relays) : RelayEvent → Prop
  | .start _ q _ => q ∈ Q ∧ q.Rewritten normalizeXGraphql
  | .relay i bytes _ _ => ∀ c, s.calls.lookup i = some c → bytes ∈ U c.request
  | _ => True

instance decidableRunsOn [DecidablePred (· ∈ Q)] [∀ q, DecidablePred (· ∈ U q)] (s : Relays) :
    (e : RelayEvent) → Decidable (RunsOn normalizeXGraphql Q U s e)
  | .start _ q _ => inferInstanceAs (Decidable (q ∈ Q ∧ q.url = _))
  | .relay i bytes _ _ =>
      decidable_of_iff (∀ c ∈ s.calls.lookup i, bytes ∈ U c.request) Iff.rfl
  | .enter _ | .publish _ | .receive _ | .drop _ => isTrue trivial

/-- Two requests of `Q` that have the same key are for the same method and URL, and have the same
values of the credential headers and of those that a response to one of them varies on. -/
def Alike : Prop :=
  ∀ q ∈ Q, ∀ q' ∈ Q, q.Rewritten normalizeXGraphql → q'.Rewritten normalizeXGraphql →
    q.key.isSome = true → q.key = q'.key → ∀ bytes ∈ U q', Agree q q' bytes

end

/-! ## Where answers come from -/

variable {s t : Relays} {i : Nat} {c : Call} {k : String} {a : Answer}

/-- An answer is on record, for a request with this key. -/
def Recorded (s : Relays) (k : String) (a : Answer) : Prop :=
  a ∈ s.produced ∧ a.producedFor.key = some k

/-- Entries, channels and waiters meet under one key only. -/
structure Provenance (s : Relays) : Prop where
  cached : ∀ k e, s.cache.entries.lookup k = some e → s.Recorded k e.answer
  entered : ∀ k leader, s.inflight.lookup k = some leader →
    ∃ lead, s.calls.lookup leader = some lead ∧ lead.request.key = some k
  sent : ∀ leader a, s.channels.lookup leader = some a →
    ∃ lead k, s.calls.lookup leader = some lead ∧ lead.request.key = some k ∧ s.Recorded k a
  relayed : ∀ i c a, s.calls.lookup i = some c → c.phase = .relayed a →
    a ∈ s.produced ∧ a.producedFor = c.request
  waits : ∀ i c leader, s.calls.lookup i = some c → c.phase = .waiting leader →
    ∃ lead k, s.calls.lookup leader = some lead ∧ lead.request.key = some k ∧
      c.request.key = some k
  returned : ∀ i c a k, s.calls.lookup i = some c → c.phase = .returned a →
    c.request.key = some k → s.Recorded k a

theorem provenance_init (maxBytes : Nat) : (init maxBytes).Provenance where
  cached k e h := by simp [init, ResponseCache.empty] at h
  entered k leader h := by simp [init] at h
  sent leader a h := by simp [init] at h
  relayed i c a h := by simp [init] at h
  waits i c leader h := by simp [init] at h
  returned i c a k h := by simp [init] at h

/-- A call that changes its phase is still there, with its request. -/
theorem exists_setPhase {p : Phase} {leader : Nat} {lead : Call}
    (hreq : ∀ c', s.calls.lookup i = some c' → c'.request = c.request)
    (h : s.calls.lookup leader = some lead) :
    ∃ lead', (s.setPhase i c p).calls.lookup leader = some lead' ∧
      lead'.request = lead.request := by
  by_cases hl : leader = i
  · subst hl
    exact ⟨_, lookup_setPhase_self .., (hreq lead h).symm⟩
  · exact ⟨lead, by rwa [lookup_setPhase_ne _ _ _ hl], rfl⟩

/-- The part of a step that changes the phase of one call, which keeps its request. -/
theorem provenance_setPhase {p : Phase} (hs : s.Provenance)
    (hreq : ∀ c', s.calls.lookup i = some c' → c'.request = c.request)
    (hrel : ∀ a, p = .relayed a → a ∈ s.produced ∧ a.producedFor = c.request)
    (hwait : ∀ leader, p = .waiting leader → ∃ lead k, s.calls.lookup leader = some lead ∧
      lead.request.key = some k ∧ c.request.key = some k)
    (hret : ∀ a k, p = .returned a → c.request.key = some k → s.Recorded k a) :
    (s.setPhase i c p).Provenance where
  cached := hs.cached
  entered k leader h := by
    obtain ⟨lead, hlead, hkey⟩ := hs.entered k leader h
    obtain ⟨lead', hlead', hsame⟩ := exists_setPhase (p := p) hreq hlead
    exact ⟨lead', hlead', by rw [hsame, hkey]⟩
  sent leader a h := by
    obtain ⟨lead, k, hlead, hkey, hrec⟩ := hs.sent leader a h
    obtain ⟨lead', hlead', hsame⟩ := exists_setPhase (p := p) hreq hlead
    exact ⟨lead', k, hlead', by rw [hsame, hkey], hrec⟩
  relayed j c' a h hp := by
    by_cases hj : j = i
    · subst hj
      rw [lookup_setPhase_self] at h
      cases h
      exact hrel a hp
    · rw [lookup_setPhase_ne _ _ _ hj] at h
      exact hs.relayed j c' a h hp
  waits j c' leader h hp := by
    have hold : ∃ lead k, s.calls.lookup leader = some lead ∧ lead.request.key = some k ∧
        c'.request.key = some k := by
      by_cases hj : j = i
      · subst hj
        rw [lookup_setPhase_self] at h
        cases h
        exact hwait leader hp
      · rw [lookup_setPhase_ne _ _ _ hj] at h
        exact hs.waits j c' leader h hp
    obtain ⟨lead, k, hlead, hkey, hown⟩ := hold
    obtain ⟨lead', hlead', hsame⟩ := exists_setPhase (p := p) hreq hlead
    exact ⟨lead', k, hlead', by rw [hsame, hkey], hown⟩
  returned j c' a k h hp hkey := by
    by_cases hj : j = i
    · subst hj
      rw [lookup_setPhase_self] at h
      cases h
      exact hret a k hp hkey
    · rw [lookup_setPhase_ne _ _ _ hj] at h
      exact hs.returned j c' a k h hp hkey

theorem provenance_produced (hs : s.Provenance) (a : Answer) :
    Provenance { s with produced := s.produced ++ [a] } where
  cached k e h := (hs.cached k e h).imp_left (List.mem_append_left _)
  entered := hs.entered
  sent leader a h := by
    obtain ⟨lead, k, hlead, hkey, hrec⟩ := hs.sent leader a h
    exact ⟨lead, k, hlead, hkey, hrec.imp_left (List.mem_append_left _)⟩
  relayed i c a h hp := (hs.relayed i c a h hp).imp_left (List.mem_append_left _)
  waits := hs.waits
  returned i c a k h hp hkey := (hs.returned i c a k h hp hkey).imp_left (List.mem_append_left _)

theorem provenance_cache (hs : s.Provenance) {cache : ResponseCache}
    (hcache : ∀ k e, cache.entries.lookup k = some e → s.Recorded k e.answer) :
    Provenance { s with cache := cache } :=
  ⟨hcache, hs.entered, hs.sent, hs.relayed, hs.waits, hs.returned⟩

theorem provenance_start {q : Request} {now : Nat} (hi : i ∉ s.calls) (hs : s.Provenance) :
    (s.start i q now).Provenance := by
  have hreq : ∀ (q : Request) c', s.calls.lookup i = some c' → c'.request = q := by
    intro q c' hc'
    rw [AList.lookup_eq_none.mpr hi] at hc'
    cases hc'
  unfold start
  cases hq : q.key with
  | none =>
      exact provenance_setPhase hs (hreq q) (fun a h => by cases h) (fun leader h => by cases h)
        fun a k h => by cases h
  | some k =>
      have hget : Provenance { s with cache := (s.cache.get k now).2 } :=
        provenance_cache hs fun k' e he => hs.cached k' e (ResponseCache.lookup_get he)
      simp only
      cases hhit : (s.cache.get k now).1 with
      | some hit =>
          obtain ⟨e, he, rfl⟩ := ResponseCache.get_eq_some hhit
          refine provenance_setPhase hget (hreq q) (fun a h => by cases h)
            (fun leader h => by cases h) fun a k' h hk' => ?_
          cases h
          cases hq.symm.trans hk'
          exact hs.cached k e he
      | none =>
          exact provenance_setPhase hget (hreq q) (fun a h => by cases h)
            (fun leader h => by cases h) fun a k h => by cases h

theorem provenance_enter (hc : s.calls.lookup i = some c) (hk : c.request.key = some k)
    (hs : s.Provenance) : (s.enter i c k).Provenance := by
  have hreq : ∀ c', s.calls.lookup i = some c' → c'.request = c.request := by
    intro c' hc'
    rw [hc] at hc'
    cases hc'
    rfl
  unfold enter
  cases hlookup : s.inflight.lookup k with
  | some leader =>
      obtain ⟨lead, hlead, hkey⟩ := hs.entered k leader hlookup
      refine provenance_setPhase hs hreq (fun a h => by cases h) (fun leader' h => ?_)
        fun a k h => by cases h
      cases h
      exact ⟨lead, k, hlead, hkey, hk⟩
  | none =>
      have hleads := provenance_setPhase (p := .leading) hs hreq (fun a h => by cases h)
        (fun leader h => by cases h) fun a k h => by cases h
      refine ⟨hleads.cached, fun k' leader h => ?_, hleads.sent, hleads.relayed, hleads.waits,
        hleads.returned⟩
      by_cases hne : k' = k
      · subst hne
        rw [AList.lookup_insert] at h
        cases h
        exact ⟨_, lookup_setPhase_self .., hk⟩
      · rw [AList.lookup_insert_ne hne] at h
        exact hleads.entered k' leader h

theorem provenance_finish {bytes : Bytes} {ok : Bool} {now : Nat}
    (hc : s.calls.lookup i = some c) (hs : s.Provenance) :
    (s.finish i c bytes ok now).Provenance := by
  have hreq : ∀ c', s.calls.lookup i = some c' → c'.request = c.request := by
    intro c' hc'
    rw [hc] at hc'
    cases hc'
    rfl
  have hprod := provenance_produced hs ⟨bytes, c.request⟩
  unfold finish
  simp only
  cases hkey : c.request.key with
  | none =>
      exact provenance_setPhase hprod hreq (fun a h => by cases h) (fun leader h => by cases h)
        fun a k _ hsome => by rw [hkey] at hsome; cases hsome
  | some k =>
      have hrelayed := provenance_setPhase (p := .relayed ⟨bytes, c.request⟩) hprod hreq
        (fun a h => by cases h; exact ⟨List.mem_append_right _ List.mem_cons_self, rfl⟩)
        (fun leader h => by cases h) fun a k h => by cases h
      cases ok with
      | false => exact hrelayed
      | true =>
          cases parseTtl bytes c.request.url with
          | none => exact hrelayed
          | some ttl =>
              refine provenance_cache hrelayed fun k' e he => ?_
              rcases ResponseCache.lookup_put he with hold | ⟨rfl, hnew⟩
              · exact hrelayed.cached k' e hold
              · -- the entry is the new one, and its answer is that of this call
                rw [hnew]
                exact ⟨List.mem_append_right _ List.mem_cons_self, hkey⟩

theorem provenance_publish (hc : s.calls.lookup i = some c) (hk : c.request.key = some k)
    (hp : c.phase = .relayed a) (hs : s.Provenance) : (s.publish i c k a).Provenance := by
  obtain ⟨hmem, hfor⟩ := hs.relayed i c a hc hp
  have hrec : s.Recorded k a := ⟨hmem, by rw [hfor, hk]⟩
  have hreturned := provenance_setPhase (p := .returned a) hs
    (fun c' hc' => by rw [hc] at hc'; cases hc'; rfl) (fun a h => by cases h)
    (fun leader h => by cases h) fun b k' hb hk' => by
      cases hb
      cases hk.symm.trans hk'
      exact hrec
  unfold publish
  cases hlookup : s.inflight.lookup k with
  | none => exact hreturned
  | some leader =>
      obtain ⟨lead, hlead, hkey⟩ := hreturned.entered k leader hlookup
      refine ⟨hreturned.cached, fun k' leader' h => ?_, fun leader' b h => ?_, hreturned.relayed,
        hreturned.waits, hreturned.returned⟩
      · by_cases hne : k' = k
        · subst hne
          rw [AList.lookup_erase] at h
          cases h
        · rw [AList.lookup_erase_ne hne] at h
          exact hreturned.entered k' leader' h
      · by_cases hl : leader' = leader
        · -- the answer goes to the channel of the leader that leaves, whose key this is
          subst hl
          rw [AList.lookup_insert] at h
          cases h
          exact ⟨lead, k, hlead, hkey, hrec⟩
        · rw [AList.lookup_insert_ne hl] at h
          exact hreturned.sent leader' b h

theorem step_provenance {e : RelayEvent} (hs : s.Provenance) (h : s.step e = some t) :
    t.Provenance := by
  have hreq : ∀ {i c}, s.calls.lookup i = some c →
      ∀ c', s.calls.lookup i = some c' → c'.request = c.request := by
    intro i c hc c' hc'
    rw [hc] at hc'
    cases hc'
    rfl
  cases stepped h with
  | start hi => exact provenance_start hi hs
  | enter hc hk hp => exact provenance_enter hc hk hs
  | relay hc hp => exact provenance_finish hc hs
  | publish hc hk hp => exact provenance_publish hc hk hp hs
  | @receive i leader c a hc hp ha =>
      refine provenance_setPhase hs (hreq hc) (fun a h => by cases h) (fun leader h => by cases h)
        fun b k hb hk => ?_
      cases hb
      -- the channel is that of a leader with the waiter's key
      obtain ⟨lead, k₁, hlead, hkey, hown⟩ := hs.waits i c leader hc hp
      obtain ⟨lead', k₂, hlead', hkey', hrec⟩ := hs.sent leader a ha
      cases hlead.symm.trans hlead'
      cases hkey.symm.trans hkey'
      cases hown.symm.trans hk
      exact hrec
  | drop hc hp =>
      exact provenance_setPhase hs (hreq hc) (fun a h => by cases h) (fun leader h => by cases h)
        fun a k h => by cases h

/-! ## The requests of a run -/

section

variable {normalizeXGraphql : Bool} {Q : Set Request} {U : Request → Set Bytes}

/-- The calls are for requests of the clients, and what was produced is a response to one. -/
structure OnRequests (normalizeXGraphql : Bool) (Q : Set Request) (U : Request → Set Bytes)
    (s : Relays) : Prop where
  calls : ∀ i c, s.calls.lookup i = some c →
    c.request ∈ Q ∧ c.request.Rewritten normalizeXGraphql
  produced : ∀ a ∈ s.produced, a.producedFor ∈ Q ∧
    a.producedFor.Rewritten normalizeXGraphql ∧ a.bytes ∈ U a.producedFor

theorem onRequests_init (maxBytes : Nat) :
    (init maxBytes).OnRequests normalizeXGraphql Q U where
  calls i c h := by simp [init] at h
  produced a h := by simp [init] at h

theorem onRequests_setPhase {p : Phase} (hs : s.OnRequests normalizeXGraphql Q U)
    (hc : c.request ∈ Q ∧ c.request.Rewritten normalizeXGraphql) :
    (s.setPhase i c p).OnRequests normalizeXGraphql Q U where
  calls j c' h := by
    by_cases hj : j = i
    · subst hj
      rw [lookup_setPhase_self] at h
      cases h
      exact hc
    · rw [lookup_setPhase_ne _ _ _ hj] at h
      exact hs.calls j c' h
  produced := hs.produced

theorem step_onRequests {e : RelayEvent} (hs : s.OnRequests normalizeXGraphql Q U)
    (he : RunsOn normalizeXGraphql Q U s e) (h : s.step e = some t) :
    t.OnRequests normalizeXGraphql Q U := by
  cases stepped h with
  | @start i q now hi =>
      unfold start
      cases q.key with
      | none => exact onRequests_setPhase hs he
      | some k =>
          have hget : OnRequests normalizeXGraphql Q U { s with cache := (s.cache.get k now).2 } :=
            ⟨hs.calls, hs.produced⟩
          simp only
          cases (s.cache.get k now).1 with
          | some hit => exact onRequests_setPhase hget he
          | none => exact onRequests_setPhase hget he
  | @enter i c k hc hk hp =>
      unfold enter
      cases s.inflight.lookup k with
      | some leader => exact onRequests_setPhase hs (hs.calls i c hc)
      | none =>
          have hleads := onRequests_setPhase (p := .leading) (i := i) hs (hs.calls i c hc)
          exact ⟨hleads.calls, hleads.produced⟩
  | @relay i c bytes ok now hc hp =>
      have hown := hs.calls i c hc
      -- what is produced is a response to the call's own request
      have hnew : OnRequests normalizeXGraphql Q U
          { s with produced := s.produced ++ [⟨bytes, c.request⟩] } := by
        refine ⟨hs.calls, fun a ha => ?_⟩
        rcases List.mem_append.mp ha with ha | ha
        · exact hs.produced a ha
        · rw [List.mem_singleton.mp ha]
          exact ⟨hown.1, hown.2, he c hc⟩
      unfold finish
      simp only
      cases c.request.key with
      | none => exact onRequests_setPhase hnew hown
      | some k =>
          have hrelayed := onRequests_setPhase (p := .relayed ⟨bytes, c.request⟩) (i := i) hnew hown
          cases ok with
          | false => exact hrelayed
          | true =>
              cases parseTtl bytes c.request.url with
              | none => exact hrelayed
              | some ttl => exact ⟨hrelayed.calls, hrelayed.produced⟩
  | @publish i c k a hc hk hp =>
      have hreturned := onRequests_setPhase (p := .returned a) (i := i) hs (hs.calls i c hc)
      unfold publish
      cases s.inflight.lookup k with
      | none => exact hreturned
      | some leader => exact ⟨hreturned.calls, hreturned.produced⟩
  | @receive i leader c a hc hp ha => exact onRequests_setPhase hs (hs.calls i c hc)
  | @drop i c hc hp => exact onRequests_setPhase hs (hs.calls i c hc)

/-- Requests that are alike are isolated. -/
theorem isolated_of_alike (halike : Alike normalizeXGraphql Q U) (hpr : s.Provenance)
    (hs : s.OnRequests normalizeXGraphql Q U) : s.Isolated := by
  intro i c a hc hp hkey
  obtain ⟨k, hk⟩ := Option.isSome_iff_exists.mp hkey
  obtain ⟨hmem, hfor⟩ := hpr.returned i c a k hc hp hk
  obtain ⟨hQ, hrewritten⟩ := hs.calls i c hc
  obtain ⟨hQ', hrewritten', hbytes⟩ := hs.produced a hmem
  exact ⟨hmem, halike _ hQ _ hQ' hrewritten hrewritten' hkey (hk.trans hfor.symm) _ hbytes⟩

/-! ## A schedule for two requests -/

/-- A call that is not in the cache gets to the lock. -/
theorem step_start_of_miss {q : Request} (hi : i ∉ s.calls) (hk : q.key = some k)
    (hmiss : s.cache.entries.lookup k = none) (now : Nat) :
    s.step (.start i q now) = some (s.setPhase i ⟨q, .checked⟩ .checked) := by
  have hget : s.cache.get k now = (none, s.cache) := by
    unfold ResponseCache.get
    rw [hmiss]
  simp only [step, if_neg hi, start, hk, hget]

theorem step_enter_eq (hc : s.calls.lookup i = some c) (hk : c.request.key = some k)
    (hp : c.phase = .checked) : s.step (.enter i) = some (s.enter i c k) := by
  simp [step, hc, hk, hp]

theorem step_publish_eq (hc : s.calls.lookup i = some c) (hk : c.request.key = some k)
    (hp : c.phase = .relayed a) : s.step (.publish i) = some (s.publish i c k a) := by
  simp [step, hc, hk, hp]

/-- The second call waits for the first. -/
def sharedBy (q' q : Request) (bytes : Bytes) : List RelayEvent :=
  [.start 0 q' 0, .enter 0, .start 1 q 0, .enter 1, .relay 0 bytes true 0, .publish 0, .receive 1]

/-- The call that waits gets what the other one was answered with. -/
theorem sharedBy_run (maxBytes : Nat) {q q' : Request} {bytes : Bytes}
    (hq : q ∈ Q ∧ q.Rewritten normalizeXGraphql) (hq' : q' ∈ Q ∧ q'.Rewritten normalizeXGraphql)
    (hk : q.key = some k) (hk' : q'.key = some k) (hbytes : bytes ∈ U q') :
    ∃ s, StepRun.run step (init maxBytes) (sharedBy q' q bytes) = some s ∧
      s.calls.lookup 1 = some ⟨q, .returned ⟨bytes, q'⟩⟩ ∧
      StepRun.AllSteps step (RunsOn normalizeXGraphql Q U) (init maxBytes)
        (sharedBy q' q bytes) := by
  -- one state for each event
  let s₁ := (init maxBytes).setPhase 0 ⟨q', .checked⟩ .checked
  let s₂ : Relays :=
    { s₁.setPhase 0 ⟨q', .checked⟩ .leading with inflight := s₁.inflight.insert k 0 }
  let s₃ := s₂.setPhase 1 ⟨q, .checked⟩ .checked
  let s₄ := s₃.setPhase 1 ⟨q, .checked⟩ (.waiting 0)
  let s₅ := s₄.finish 0 ⟨q', .leading⟩ bytes true 0
  let s₆ := s₅.publish 0 ⟨q', .relayed ⟨bytes, q'⟩⟩ k ⟨bytes, q'⟩
  let s₇ := s₆.setPhase 1 ⟨q, .waiting 0⟩ (.returned ⟨bytes, q'⟩)
  have h₁ : (init maxBytes).step (.start 0 q' 0) = some s₁ :=
    step_start_of_miss (by simp [init]) hk' rfl 0
  have h₂ : s₁.step (.enter 0) = some s₂ := step_enter_eq (by simp [s₁]) hk' rfl
  have h₃ : s₂.step (.start 1 q 0) = some s₃ :=
    step_start_of_miss (AList.lookup_eq_none.mp rfl) hk rfl 0
  have h₄ : s₃.step (.enter 1) = some s₄ := by
    rw [step_enter_eq (c := ⟨q, .checked⟩) (by simp [s₃]) hk rfl, enter,
      show s₃.inflight.lookup k = some 0 from AList.lookup_insert _]
  have hlead : s₄.calls.lookup 0 = some ⟨q', .leading⟩ := by simp [s₄, s₃, s₂, setPhase]
  have h₅ : s₄.step (.relay 0 bytes true 0) = some s₅ := by simp [step, hlead, s₅]
  -- the end of `relay_uncoalesced` touches the first call and the cache only
  have hfinish : s₅.calls = (s₄.setPhase 0 ⟨q', .leading⟩ (.relayed ⟨bytes, q'⟩)).calls ∧
      s₅.inflight = s₄.inflight := by
    simp only [s₅, finish, hk']
    split <;> exact ⟨rfl, rfl⟩
  have hrelayed : s₅.calls.lookup 0 = some ⟨q', .relayed ⟨bytes, q'⟩⟩ := by
    rw [hfinish.1, lookup_setPhase_self]
  have h₆ : s₅.step (.publish 0) = some s₆ := step_publish_eq hrelayed hk' rfl
  have hs₆ : s₆ = { s₅.setPhase 0 ⟨q', .relayed ⟨bytes, q'⟩⟩ (.returned ⟨bytes, q'⟩) with
      inflight := s₅.inflight.erase k, channels := s₅.channels.insert 0 ⟨bytes, q'⟩ } := by
    have hentry : s₅.inflight.lookup k = some 0 := by
      rw [hfinish.2]
      exact AList.lookup_insert _
    simp only [s₆, publish, hentry]
  have hwaits : s₆.calls.lookup 1 = some ⟨q, .waiting 0⟩ := by
    rw [hs₆]
    refine (lookup_setPhase_ne _ _ _ (by decide)).trans ?_
    rw [hfinish.1, lookup_setPhase_ne _ _ _ (by decide), lookup_setPhase_self]
  have hsent : s₆.channels.lookup 0 = some ⟨bytes, q'⟩ := by
    rw [hs₆]
    exact AList.lookup_insert _
  have h₇ : s₆.step (.receive 1) = some s₇ := by simp [step, hwaits, hsent, s₇]
  refine ⟨s₇, ?_, lookup_setPhase_self .., ?_⟩
  · simp only [sharedBy, StepRun.run, h₁, h₂, h₃, h₄, h₅, h₆, h₇, Option.bind_some]
  · have hserved : RunsOn normalizeXGraphql Q U s₄ (.relay 0 bytes true 0) := by
      intro c hc
      rw [hlead] at hc
      cases hc
      exact hbytes
    rw [sharedBy, StepRun.allSteps_cons_of_some h₁, StepRun.allSteps_cons_of_some h₂,
      StepRun.allSteps_cons_of_some h₃, StepRun.allSteps_cons_of_some h₄,
      StepRun.allSteps_cons_of_some h₅, StepRun.allSteps_cons_of_some h₆,
      StepRun.allSteps_cons_of_some h₇]
    exact ⟨hq', trivial, hq, trivial, hserved, trivial, trivial, trivial⟩

/-! ## The result -/

/-- A server that answers by the method, the URL and the headers in question only. -/
def RespectsVary (normalizeXGraphql : Bool) (V : Request → Bytes) : Prop :=
  ∀ q q', q.Rewritten normalizeXGraphql → q'.Rewritten normalizeXGraphql →
    q.key.isSome = true → q'.key.isSome = true → Agree q q' (V q') → V q = V q'

theorem runsOn_inv {maxBytes : Nat} {es : List RelayEvent}
    (hruns : StepRun.AllSteps step (RunsOn normalizeXGraphql Q U) (init maxBytes) es)
    (hrun : StepRun.run step (init maxBytes) es = some s) :
    s.Provenance ∧ s.OnRequests normalizeXGraphql Q U :=
  StepRun.run_invariant (P := fun s => s.Provenance ∧ s.OnRequests normalizeXGraphql Q U)
    (fun _ _ _ hs hC h => ⟨step_provenance hs.1 h, step_onRequests hs.2 hC h⟩)
    ⟨provenance_init maxBytes, onRequests_init maxBytes⟩ hruns hrun

/-- What requests that are alike get from a server that keeps to its `Vary` headers. -/
theorem answer_eq_server {V : Request → Bytes} (hV : RespectsVary normalizeXGraphql V)
    (halike : Alike normalizeXGraphql Q fun q => {V q}) {maxBytes : Nat} {es : List RelayEvent}
    (hruns : StepRun.AllSteps step (RunsOn normalizeXGraphql Q fun q => {V q}) (init maxBytes) es)
    (hrun : StepRun.run step (init maxBytes) es = some s) (hc : s.calls.lookup i = some c)
    (hp : c.phase = .returned a) (hkey : c.request.key.isSome = true) :
    a.bytes = V c.request := by
  obtain ⟨hpr, hon⟩ := runsOn_inv hruns hrun
  obtain ⟨k, hk⟩ := Option.isSome_iff_exists.mp hkey
  obtain ⟨hmem, hfor⟩ := hpr.returned i c a k hc hp hk
  obtain ⟨-, hagree⟩ := isolated_of_alike halike hpr hon i c a hc hp hkey
  obtain ⟨-, hrewritten', hbytes⟩ := hon.produced a hmem
  have hserved : a.bytes = V a.producedFor := hbytes
  rw [hserved] at hagree ⊢
  exact (hV _ _ (hon.calls i c hc).2 hrewritten' hkey (by rw [hfor]; rfl) hagree).symm

/-- Every run is isolated only if the requests are alike: `sharedBy` has two of them meet. -/
theorem alike_of_isolated {maxBytes : Nat}
    (h : ∀ es, StepRun.AllSteps step (RunsOn normalizeXGraphql Q U) (init maxBytes) es →
      StepRun.AllStates step Isolated (init maxBytes) es) : Alike normalizeXGraphql Q U := by
  intro q hq q' hq' hrewritten hrewritten' hkey heq bytes hbytes
  obtain ⟨k, hk⟩ := Option.isSome_iff_exists.mp hkey
  obtain ⟨s, hs, hc, hruns⟩ := sharedBy_run maxBytes ⟨hq, hrewritten⟩ ⟨hq', hrewritten'⟩ hk
    (heq ▸ hk) hbytes
  exact (StepRun.allStates_last (h _ hruns) hs 1 _ _ hc rfl hkey).2

/-- **Isolation.** Whatever the schedule, every coalescible request of the clients is answered
with a response produced for a request that agrees with it exactly when the requests that share a
key are alike. Where they are, in two runs with one server that keeps to its `Vary` headers, a
request is answered the same, whatever the other requests are. -/
theorem answers_isolated (normalizeXGraphql : Bool) (maxBytes : Nat) (Q : Set Request)
    (U : Request → Set Bytes) :
    ((∀ es, StepRun.AllSteps step (RunsOn normalizeXGraphql Q U) (init maxBytes) es →
        StepRun.AllStates step Isolated (init maxBytes) es) ↔ Alike normalizeXGraphql Q U) ∧
    ∀ V, RespectsVary normalizeXGraphql V → ∀ Q', (Alike normalizeXGraphql Q fun q => {V q}) →
      (Alike normalizeXGraphql Q' fun q => {V q}) →
      ∀ es es',
        StepRun.AllSteps step (RunsOn normalizeXGraphql Q fun q => {V q}) (init maxBytes) es →
        StepRun.AllSteps step (RunsOn normalizeXGraphql Q' fun q => {V q}) (init maxBytes) es' →
      ∀ s s' i j c c' a a', StepRun.run step (init maxBytes) es = some s →
        StepRun.run step (init maxBytes) es' = some s' →
        s.calls.lookup i = some c → s'.calls.lookup j = some c' → c.request = c'.request →
        c.request.key.isSome = true → c.phase = .returned a → c'.phase = .returned a' →
        a.bytes = a'.bytes := by
  constructor
  · refine ⟨alike_of_isolated, fun halike es hruns => ?_⟩
    exact StepRun.allStates_of_allSteps
      (I := fun s => s.Provenance ∧ s.OnRequests normalizeXGraphql Q U)
      (fun s e t hs hC h => ⟨step_provenance hs.1 h, step_onRequests hs.2 hC h⟩)
      (fun s hs => isolated_of_alike halike hs.1 hs.2)
      ⟨provenance_init maxBytes, onRequests_init maxBytes⟩ hruns
  · intro V hV Q' halike halike' es es' hruns hruns' s s' i j c c' a a' hrun hrun' hc hc' hreq hkey
      hp hp'
    have h := answer_eq_server hV halike hruns hrun hc hp hkey
    have h' := answer_eq_server hV halike' hruns' hrun' hc' hp' (hreq ▸ hkey)
    rw [h, h', hreq]

end

/-! ## Clients of one proxy -/

/-- The feed of the client `name`, asked for by one of its devices; the URL is rewritten. -/
def feedFor (name device : String) : Request where
  method := "GET"
  url := "https://x.com/i/api/graphql/a/Home?variables=1"
  headers := [("Cookie", name), ("User-Agent", device), ("Accept-Language", "en")]
  body := []
  asked := "https://x.com/i/api/graphql/a/Home?variables=1&features=2"

/-- A request of another client. -/
def outboxFor (name : String) : Request where
  method := "GET"
  url := "https://example.com/outbox"
  headers := [("Cookie", name)]
  body := []
  asked := "https://example.com/outbox"

def feedPage : Bytes :=
  "HTTP/1.1 200 OK\r\nCache-Control: max-age=60\r\nVary: Accept-Language\r\n\r\nfeed".toUTF8.toList

/-- What the server has for a request. -/
def pageAt (q : Request) : Bytes :=
  if q.asked = (feedFor "" "").asked then feedPage else "HTTP/1.1 200 OK\r\n\r\n".toUTF8.toList

/-- The requests of a run: those of one client, and that of another. -/
def requestsBeside (name : String) : List Request :=
  [feedFor "alice" "phone", feedFor "alice" "laptop", outboxFor name]

/-- The laptop waits for the phone; a second call of the laptop finds the page in the cache. -/
def twoDevices (name : String) : List RelayEvent :=
  [.start 0 (feedFor "alice" "phone") 0, .enter 0, .start 1 (feedFor "alice" "laptop") 0, .enter 1,
    .start 2 (outboxFor name) 0, .enter 2, .relay 0 feedPage true 0, .publish 0, .receive 1,
    .relay 2 (pageAt (outboxFor name)) true 0, .publish 2, .start 3 (feedFor "alice" "laptop") 1]

theorem respectsVary_pageAt (normalizeXGraphql : Bool) :
    RespectsVary normalizeXGraphql pageAt := by
  intro q q' _ _ _ _ hagree
  unfold pageAt
  rw [hagree.2.1]

theorem requestsBeside_agree : ∀ name ∈ ["bob", "carol"], ∀ q ∈ requestsBeside name,
    ∀ q' ∈ requestsBeside name, q.key = q'.key → Agree q q' (pageAt q') := by
  decide +kernel

theorem requestsBeside_alike (name : String) (hname : name ∈ ["bob", "carol"]) :
    Alike true {q | q ∈ requestsBeside name} fun q => {pageAt q} := by
  intro q hq q' hq' _ _ _ hkey bytes hbytes
  cases hbytes
  exact requestsBeside_agree name hname q hq q' hq' hkey

theorem twoDevices_answered : ∀ name ∈ ["bob", "carol"],
    ((StepRun.run step (init 4096) (twoDevices name)).map fun s =>
        (s.calls.lookup 1, s.calls.lookup 3)) =
      some (some ⟨feedFor "alice" "laptop", .returned ⟨feedPage, feedFor "alice" "phone"⟩⟩,
        some ⟨feedFor "alice" "laptop", .returned ⟨feedPage, feedFor "alice" "phone"⟩⟩) := by
  decide +kernel

theorem twoDevices_runsOn : ∀ name ∈ ["bob", "carol"],
    StepRun.AllSteps step (RunsOn true {q | q ∈ requestsBeside name} fun q => {pageAt q})
      (init 4096) (twoDevices name) := by
  decide +kernel

/-- A page from a leader and from the cache, in a run that is isolated; the laptop gets the same
page whether the other client is bob or carol. -/
theorem twoDevices_isolated :
    ((StepRun.run step (init 4096) (twoDevices "bob")).map fun s =>
        (s.calls.lookup 1, s.calls.lookup 3)) =
      some (some ⟨feedFor "alice" "laptop", .returned ⟨feedPage, feedFor "alice" "phone"⟩⟩,
        some ⟨feedFor "alice" "laptop", .returned ⟨feedPage, feedFor "alice" "phone"⟩⟩) ∧
      StepRun.AllStates step Isolated (init 4096) (twoDevices "bob") ∧
      ∀ s s' i j c c' a a', StepRun.run step (init 4096) (twoDevices "bob") = some s →
        StepRun.run step (init 4096) (twoDevices "carol") = some s' →
        s.calls.lookup i = some c → s'.calls.lookup j = some c' → c.request = c'.request →
        c.request.key.isSome = true → c.phase = .returned a → c'.phase = .returned a' →
        a.bytes = a'.bytes := by
  have hbob : "bob" ∈ ["bob", "carol"] := by simp
  have hcarol : "carol" ∈ ["bob", "carol"] := by simp
  refine ⟨twoDevices_answered "bob" hbob, ?_, ?_⟩
  · exact (answers_isolated true 4096 {q | q ∈ requestsBeside "bob"} fun q => {pageAt q}).1.mpr
      (requestsBeside_alike "bob" hbob) _ (twoDevices_runsOn "bob" hbob)
  · exact (answers_isolated true 4096 {q | q ∈ requestsBeside "bob"} fun q => {pageAt q}).2 pageAt
      (respectsVary_pageAt true) {q | q ∈ requestsBeside "carol"}
      (requestsBeside_alike "bob" hbob) (requestsBeside_alike "carol" hcarol) _ _
      (twoDevices_runsOn "bob" hbob) (twoDevices_runsOn "carol" hcarol)

/-- Two clients ask for one page; the second one waits for the first. -/
def sharedPage (bytes : Bytes) : List RelayEvent :=
  sharedBy (feedFor "alice" "phone") (feedFor "bob" "phone") bytes

/-- A page for one cookie is handed to a client with another. -/
theorem page_of_another_client :
    ¬ StepRun.AllStates step Isolated (init 0) (sharedPage feedPage) := by
  have hrun : ((StepRun.run step (init 0) (sharedPage feedPage)).bind fun s =>
      s.calls.lookup 1) =
      some ⟨feedFor "bob" "phone", .returned ⟨feedPage, feedFor "alice" "phone"⟩⟩ := by
    decide +kernel
  intro h
  obtain ⟨s, hs, hc⟩ := Option.bind_eq_some_iff.mp hrun
  have hkey : (feedFor "bob" "phone").key.isSome = true := by decide +kernel
  obtain ⟨-, -, -, hvalues⟩ := StepRun.allStates_last h hs 1 _ _ hc rfl hkey
  have hcookie := hvalues "cookie" (by simp [credentialHeaders])
  exact absurd hcookie (by decide +kernel)

end Relays

end Rahgozar.Fronter
