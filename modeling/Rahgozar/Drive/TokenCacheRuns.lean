import Rahgozar.Drive.TokenCache

set_option autoImplicit false

/-! # Runs of the cache of the access token

What holds in every run: one request at a time, none while the cached token lasts, and only tokens
that Google issued. That a revoked refresh token is not sent again holds as long as no call gets the
lock after Google's answer: a call that is past the latch does not read it again, and the client's
copy has none.
-/

namespace Rahgozar.Drive

/-! ## What an answer says -/

/-- The answer is one for which `is_refresh_token_revoked` is true. -/
def TokenAnswer.isRefreshTokenRevoked : TokenAnswer → Bool
  | .failed => false
  | .response status body => (OAuthError.endpoint "refresh" status body).isRefreshTokenRevoked

/-- What Google issued with the answer. -/
def TokenAnswer.granted (pf : OAuthPlatform) : TokenAnswer → Option TokenSuccessJson
  | .failed => none
  | .response status body =>
      if 200 ≤ status ∧ status < 300 then (pf.fromStr body).toOption else none

section

variable {pf : OAuthPlatform} {now : Nat} {answer : TokenAnswer}

theorem parseTokenResponseBody_ok {body : List Char} {tokens : OAuthTokens}
    (h : parseTokenResponseBody pf body now = some (.ok tokens)) :
    ∃ parsed, pf.fromStr body = .ok parsed ∧ tokens.accessToken = parsed.accessToken ∧
      tokens.expiresAt = now + fromSecs parsed.expiresIn := by
  unfold parseTokenResponseBody at h
  split at h
  · simp at h
  next parsed hparsed =>
    refine ⟨parsed, hparsed, ?_⟩
    split_ifs at h
    · simp at h
    · rw [← (Except.ok.inj (Option.some.inj h))]
      exact ⟨rfl, rfl⟩

theorem refreshAccessToken_ne_ok (h : answer.isRefreshTokenRevoked) (tokens : OAuthTokens) :
    refreshAccessToken pf now answer ≠ some (.ok tokens) := by
  cases answer with
  | failed => simp [refreshAccessToken]
  | response status body =>
      have hstatus : ¬ (200 ≤ status ∧ status < 300) := by
        intro hok
        have : status ≠ 400 ∧ status ≠ 401 := by omega
        simp [TokenAnswer.isRefreshTokenRevoked, OAuthError.isRefreshTokenRevoked, this] at h
      simp [refreshAccessToken, hstatus]

theorem refreshAccessToken_ok {tokens : OAuthTokens}
    (h : refreshAccessToken pf now answer = some (.ok tokens)) :
    ∃ parsed, answer.granted pf = some parsed ∧ tokens.accessToken = parsed.accessToken ∧
      tokens.expiresAt = now + fromSecs parsed.expiresIn := by
  cases answer with
  | failed => simp [refreshAccessToken] at h
  | response status body =>
      rw [refreshAccessToken] at h
      split_ifs at h with hstatus
      · obtain ⟨parsed, hparsed, htokens⟩ := parseTokenResponseBody_ok h
        refine ⟨parsed, ?_, htokens⟩
        rw [TokenAnswer.granted, if_pos hstatus, hparsed]
        rfl
      · simp at h

end

/-! ## The law -/

def GetEvent.isAsked : GetEvent → Bool
  | .asked _ _ => true
  | _ => false

/-- The event is an answer that says that the refresh token is revoked. -/
def GetEvent.isRevocation : GetEvent → Bool
  | .received _ answer => answer.isRefreshTokenRevoked
  | _ => false

def GetPhase.isInFlight : GetPhase → Bool
  | .inFlight _ _ => true
  | _ => false

namespace TokenCache

def RevocationSeen (s : TokenCache) : Prop := ∃ e ∈ s.history, e.isRevocation

/-- No request after an answer that says that the refresh token is revoked. -/
def RevokedSentOnce (s : TokenCache) : Prop :=
  s.history.Pairwise fun e f => e.isRevocation = true → f.isAsked = false

/-- What holds of the token that a call returned. An access token may live for as long as Google
says from the moment when it was asked for. -/
def IssuedAndAlive (pf : OAuthPlatform) (s : TokenCache) (read : Nat) (accessToken : List Char) :
    Prop :=
  ∃ sentAt answer parsed, .received sentAt answer ∈ s.history ∧
    answer.granted pf = some parsed ∧ parsed.accessToken = accessToken ∧
    (60 < parsed.expiresIn → read < sentAt + fromSecs parsed.expiresIn)

/-- What holds in every run. -/
structure Orderly (pf : OAuthPlatform) (s : TokenCache) : Prop where
  oneInFlight : ∀ i j, (s.phase i).isInFlight → (s.phase j).isInFlight → i = j
  askedLate : ∀ time tokens, .asked time (some tokens) ∈ s.history →
    tokens.expiresAt - time ≤ fromSecs 60
  returned : ∀ read accessToken, .returned read accessToken ∈ s.history →
    IssuedAndAlive pf s read accessToken

end TokenCache

/-! ## The invariant -/

def GetPhase.holds : GetPhase → Bool
  | .idle | .checked | .waiting => false
  | _ => true

/-- The call has the lock, and no answer yet. -/
def GetPhase.asks : GetPhase → Bool
  | .locked | .refreshing _ | .inFlight _ _ => true
  | _ => false

/-- The call is about to fill the cache, or may be. -/
def GetPhase.mayFill : GetPhase → Bool
  | .inFlight _ _ | .answered _ (some (.ok _)) => true
  | _ => false

theorem GetPhase.holds_of_asks {p : GetPhase} (h : p.asks) : p.holds := by
  cases p <;> trivial

theorem GetPhase.holds_of_mayFill {p : GetPhase} (h : p.mayFill) : p.holds := by
  cases p <;> trivial

theorem GetPhase.asks_of_isInFlight {p : GetPhase} (h : p.isInFlight) : p.asks := by
  cases p <;> trivial

namespace TokenCache

variable {pf : OAuthPlatform} {s t : TokenCache} {i : Nat}

/-- The cached token is near its expiry at the instant `read`. -/
def NearExpiry (s : TokenCache) (read : Nat) : Prop :=
  ∀ tokens, s.cached = some tokens → tokens.expiresAt - read ≤ fromSecs 60

/-- Google issued the tokens with an answer to a request sent at `since` or later. -/
def Issued (pf : OAuthPlatform) (s : TokenCache) (since : Nat) (tokens : OAuthTokens) : Prop :=
  ∃ sentAt answer, since ≤ sentAt ∧ .received sentAt answer ∈ s.history ∧
    refreshAccessToken pf sentAt answer = some (.ok tokens)

/-- What a call knows in its phase. -/
def Knows (pf : OAuthPlatform) (s : TokenCache) : GetPhase → Prop
  | .refreshing read => s.NearExpiry read ∧ read ≤ s.clock
  | .inFlight read sentAt => s.NearExpiry read ∧ read ≤ sentAt ∧ sentAt ≤ s.clock
  | .answered read (some (.ok tokens)) => s.Issued pf read tokens
  | _ => True

def EventSound (pf : OAuthPlatform) (s : TokenCache) : GetEvent → Prop
  | .asked time (some tokens) => tokens.expiresAt - time ≤ fromSecs 60
  | .returned read accessToken => s.IssuedAndAlive pf read accessToken
  | _ => True

structure Sound (pf : OAuthPlatform) (s : TokenCache) : Prop where
  holder : ∀ i, (s.phase i).holds → s.holder = some i
  knows : ∀ i, s.Knows pf (s.phase i)
  cached : ∀ tokens, s.cached = some tokens → s.Issued pf 0 tokens
  events : ∀ e ∈ s.history, s.EventSound pf e

theorem NearExpiry.mono {read now : Nat} (h : s.NearExpiry read) (hcached : t.cached = s.cached)
    (hnow : read ≤ now) : t.NearExpiry now := by
  intro tokens htokens
  have := h tokens (hcached ▸ htokens)
  omega

theorem Issued.mono {since since' : Nat} {tokens : OAuthTokens} (h : s.Issued pf since tokens)
    (hsince : since' ≤ since) (hhistory : s.history ⊆ t.history) : t.Issued pf since' tokens := by
  obtain ⟨sentAt, answer, hsent, hreceived, hrefresh⟩ := h
  exact ⟨sentAt, answer, hsince.trans hsent, hhistory hreceived, hrefresh⟩

/-- Tokens that Google issued may be returned: by the call that asked for them, and by a later one
as long as they are not near their expiry. -/
theorem Issued.issuedAndAlive {since read : Nat} {tokens : OAuthTokens}
    (h : s.Issued pf since tokens)
    (halive : read ≤ since ∨ fromSecs 60 < tokens.expiresAt - read) :
    s.IssuedAndAlive pf read tokens.accessToken := by
  obtain ⟨sentAt, answer, hsent, hreceived, hrefresh⟩ := h
  obtain ⟨parsed, hgranted, htoken, hexpires⟩ := refreshAccessToken_ok hrefresh
  refine ⟨sentAt, answer, parsed, hreceived, hgranted, htoken.symm, fun hlong => ?_⟩
  simp only [fromSecs] at *
  omega

theorem Knows.mono {p : GetPhase} (h : s.Knows pf p) (hclock : s.clock ≤ t.clock)
    (hcached : t.cached = s.cached) (hhistory : s.history ⊆ t.history) : t.Knows pf p := by
  match p, h with
  | .idle, _ | .checked, _ | .waiting, _ | .locked, _ => trivial
  | .refreshing read, h => exact ⟨h.1.mono hcached le_rfl, h.2.trans hclock⟩
  | .inFlight read sentAt, h =>
      exact ⟨h.1.mono hcached le_rfl, h.2.1, h.2.2.trans hclock⟩
  | .answered read none, _ | .answered read (some (.error e)), _ => trivial
  | .answered read (some (.ok tokens)), h => exact Issued.mono h le_rfl hhistory

/-- A phase outside the lock tells nothing. -/
theorem knows_of_not_holds {p : GetPhase} (h : p.holds = false) : t.Knows pf p := by
  cases p <;> trivial

theorem EventSound.mono {e : GetEvent} (h : s.EventSound pf e)
    (hhistory : s.history ⊆ t.history) : t.EventSound pf e := by
  match e, h with
  | .asked time none, _ | .received sentAt answer, _ | .failed error, _ => trivial
  | .asked time (some tokens), h => exact h
  | .returned read accessToken, h =>
      obtain ⟨sentAt, answer, parsed, hreceived, hrest⟩ := h
      exact ⟨sentAt, answer, parsed, hhistory hreceived, hrest⟩

/-- **Frame rule.** A step of the call `i` leaves what the other calls know, since it changes the
cache and the lock only while none of them holds it. -/
theorem Sound.of_step (h : s.Sound pf) (hclock : s.clock ≤ t.clock)
    (hhistory : s.history ⊆ t.history) (hphase : ∀ j, j ≠ i → t.phase j = s.phase j)
    (hlock : (t.holder = s.holder ∧ t.cached = s.cached) ∨ ∀ j, j ≠ i → s.holder ≠ some j)
    (hholder : (t.phase i).holds → t.holder = some i) (hknows : t.Knows pf (t.phase i))
    (hcached : ∀ tokens, t.cached = some tokens → t.Issued pf 0 tokens)
    (hevents : ∀ e ∈ t.history, e ∈ s.history ∨ t.EventSound pf e) : t.Sound pf := by
  have hothers : ∀ j, j ≠ i → ((t.phase j).holds → t.holder = some j) ∧
      t.Knows pf (t.phase j) := by
    intro j hj
    rw [hphase j hj]
    rcases hlock with ⟨hh, hc⟩ | hfree
    · exact ⟨fun hp => hh.trans (h.holder j hp), (h.knows j).mono hclock hc hhistory⟩
    · have hp : (s.phase j).holds = false :=
        Bool.eq_false_iff.mpr fun hp => hfree j hj (h.holder j hp)
      exact ⟨fun hp' => by simp [hp] at hp', knows_of_not_holds hp⟩
  refine ⟨fun j => ?_, fun j => ?_, hcached, fun e he => ?_⟩
  · by_cases hj : j = i
    · exact hj ▸ hholder
    · exact (hothers j hj).1
  · by_cases hj : j = i
    · exact hj ▸ hknows
    · exact (hothers j hj).2
  · exact (hevents e he).elim (fun hs => (h.events e hs).mono hhistory) id

/-! ## One step -/

/-- What the steps do. -/
inductive Stepped (copy : CacheCopy) (pf : OAuthPlatform) (s : TokenCache) :
    GetStep → TokenCache → Prop where
  | tick (d : Nat) : Stepped copy pf s (.tick d) { s with clock := s.clock + d }
  | call {i : Nat} (h : s.phase i = .idle) : Stepped copy pf s (.call i) (s.call i copy)
  | lock {i : Nat} (h : s.phase i = .checked) :
      Stepped copy pf s (.lock i) { s.setPhase i .waiting with waiters := s.waiters ++ [i] }
  | acquire {i : Nat} (hfree : s.holder = none) (hhead : s.waiters.head? = some i) :
      Stepped copy pf s (.acquire i)
        { s.setPhase i .locked with waiters := s.waiters.tail, holder := some i }
  | look {i : Nat} (h : s.phase i = .locked) : Stepped copy pf s (.look i) (s.look i)
  | send {i read : Nat} (h : s.phase i = .refreshing read) :
      Stepped copy pf s (.send i)
        ((s.setPhase i (.inFlight read s.clock)).record (.asked s.clock s.cached))
  | receive {i read sentAt : Nat} {answer : TokenAnswer} (h : s.phase i = .inFlight read sentAt) :
      Stepped copy pf s (.receive i answer)
        ((s.setPhase i (.answered read (refreshAccessToken pf sentAt answer))).record
          (.received sentAt answer))
  | settle {i read : Nat} {result : RefreshResult} (h : s.phase i = .answered read result) :
      Stepped copy pf s (.settle i) (s.settle i copy read result)
  | dropWaiting {i : Nat} (h : s.phase i = .waiting) :
      Stepped copy pf s (.drop i) { s.setPhase i .idle with waiters := s.waiters.erase i }
  | dropInFlight {i read sentAt : Nat} (h : s.phase i = .inFlight read sentAt) :
      Stepped copy pf s (.drop i) (s.release i)

theorem Stepped.of_step {copy : CacheCopy} {e : GetStep} (h : s.step copy pf e = some t) :
    Stepped copy pf s e t := by
  unfold step at h
  split at h
  · exact Option.some.inj h ▸ .tick _
  · split_ifs at h with hi
    exact Option.some.inj h ▸ .call hi
  · split_ifs at h with hi
    exact Option.some.inj h ▸ .lock hi
  · split_ifs at h with hi
    exact Option.some.inj h ▸ .acquire hi.1 hi.2
  · split_ifs at h with hi
    exact Option.some.inj h ▸ .look hi
  all_goals split at h
  · exact Option.some.inj h ▸ .send (by assumption)
  · cases h
  · exact Option.some.inj h ▸ .receive (by assumption)
  · cases h
  · exact Option.some.inj h ▸ .settle (by assumption)
  · cases h
  · exact Option.some.inj h ▸ .dropWaiting (by assumption)
  · exact Option.some.inj h ▸ .dropInFlight (by assumption)
  · cases h

@[simp] theorem setPhase_self (p : GetPhase) : (s.setPhase i p).phase i = p := by
  simp [setPhase]

@[simp] theorem release_self : (s.release i).phase i = .idle := by simp [release, setPhase]

theorem setPhase_of_ne {j : Nat} (p : GetPhase) (hj : j ≠ i) :
    (s.setPhase i p).phase j = s.phase j := by
  simp [setPhase, hj]

theorem Sound.holds (h : s.Sound pf) {p : GetPhase} (hi : s.phase i = p) (hp : p.holds) :
    s.holder = some i :=
  h.holder i (hi ▸ hp)

theorem sound_new (clock : Nat) : (new clock).Sound pf where
  holder := by simp [new, GetPhase.holds]
  knows := fun _ => trivial
  cached := by simp [new]
  events := by simp [new]

/-- A call that does not hold the lock gets to another phase outside it. -/
theorem Sound.setPhase (h : s.Sound pf) {p : GetPhase} (hp : p.holds = false) :
    (s.setPhase i p).Sound pf := by
  refine h.of_step (i := i) le_rfl (List.Subset.refl _) (fun j hj => setPhase_of_ne p hj)
    (.inl ⟨rfl, rfl⟩) ?_ ?_ h.cached (fun e he => .inl he)
  · simp [hp]
  · exact knows_of_not_holds (by simpa using hp)

/-- Waiters have no part in the invariant. -/
theorem Sound.waiters (h : s.Sound pf) (l : List Nat) : { s with waiters := l }.Sound pf :=
  ⟨h.holder, h.knows, h.cached, h.events⟩

theorem Sound.revoked (h : s.Sound pf) (b : Bool) : { s with revoked := b }.Sound pf :=
  ⟨h.holder, h.knows, h.cached, h.events⟩

theorem Sound.record (h : s.Sound pf) {e : GetEvent} (he : (s.record e).EventSound pf e) :
    (s.record e).Sound pf := by
  have hsub : s.history ⊆ (s.record e).history := List.subset_append_left _ _
  refine ⟨h.holder, fun i => (h.knows i).mono le_rfl rfl hsub,
    fun tokens htokens => (h.cached tokens htokens).mono le_rfl hsub, fun f hf => ?_⟩
  rcases List.mem_append.mp hf with hf | hf
  · exact (h.events f hf).mono hsub
  · rw [List.mem_singleton.mp hf]
    exact he

/-- The call that holds the lock leaves it, with other tokens in the cache perhaps. -/
theorem Sound.release (h : s.Sound pf) (hi : s.holder = some i) {cached : Option OAuthTokens}
    (hcached : ∀ tokens, cached = some tokens → s.Issued pf 0 tokens) :
    ({ s with cached := cached }.release i).Sound pf := by
  refine h.of_step (i := i) le_rfl (List.Subset.refl _) ?_ (.inr ?_) ?_ ?_ hcached
    (fun e he => .inl he)
  · exact fun j hj => by simp [TokenCache.release, TokenCache.setPhase, hj]
  · rintro j hj hs
    exact hj (Option.some.inj (hs.symm.trans hi))
  · simp [GetPhase.holds]
  · simp [Knows]

/-- The call that holds the lock gets to another phase under it. -/
theorem Sound.advance (h : s.Sound pf) (hi : s.holder = some i) {p : GetPhase}
    (hp : s.Knows pf p) : (s.setPhase i p).Sound pf := by
  refine h.of_step (i := i) le_rfl (List.Subset.refl _) (fun j hj => setPhase_of_ne p hj)
    (.inl ⟨rfl, rfl⟩) (fun _ => hi) ?_ h.cached (fun e he => .inl he)
  rw [setPhase_self]
  exact hp.mono le_rfl rfl (List.Subset.refl _)

theorem Sound.tick (h : s.Sound pf) (d : Nat) : { s with clock := s.clock + d }.Sound pf :=
  ⟨h.holder, fun i => (h.knows i).mono (Nat.le_add_right _ _) rfl (List.Subset.refl _), h.cached,
    h.events⟩

theorem Sound.acquire (h : s.Sound pf) (hfree : s.holder = none) (l : List Nat) :
    { s.setPhase i .locked with waiters := l, holder := some i }.Sound pf := by
  refine h.of_step (i := i) le_rfl (List.Subset.refl _) (fun j hj => setPhase_of_ne _ hj)
    (.inr ?_) (fun _ => rfl) ?_ h.cached (fun e he => .inl he)
  · simp [hfree]
  · simp [TokenCache.setPhase, Knows]

theorem Sound.call (h : s.Sound pf) (copy : CacheCopy) : (s.call i copy).Sound pf := by
  unfold TokenCache.call
  cases copy with
  | relay =>
      split_ifs
      · exact h.record trivial
      · exact h.setPhase rfl
  | client => exact h.setPhase rfl

theorem Sound.look (h : s.Sound pf) (hi : s.phase i = .locked) : (s.look i).Sound pf := by
  have hholder := h.holds hi rfl
  unfold TokenCache.look
  split
  next tokens hcached =>
    split_ifs with hnear
    · refine h.advance hholder ⟨fun tokens' htokens' => ?_, le_rfl⟩
      rw [hcached, Option.some.injEq] at htokens'
      simpa [OAuthTokens.isNearExpiry, htokens'] using hnear
    · refine (h.release hholder h.cached).record ?_
      refine ((h.cached tokens hcached).mono le_rfl ?_).issuedAndAlive (.inr ?_)
      · exact List.subset_append_left _ _
      · simp only [OAuthTokens.isNearExpiry, decide_eq_true_eq] at hnear
        omega
  next hcached =>
    exact h.advance hholder ⟨fun tokens htokens => by simp [hcached] at htokens, le_rfl⟩

theorem Sound.send (h : s.Sound pf) {read : Nat} (hi : s.phase i = .refreshing read) :
    ((s.setPhase i (.inFlight read s.clock)).record (.asked s.clock s.cached)).Sound pf := by
  have hknows : s.Knows pf (.refreshing read) := hi ▸ h.knows i
  have hsent : s.Knows pf (.inFlight read s.clock) := ⟨hknows.1, hknows.2, le_rfl⟩
  refine (h.advance (h.holds hi rfl) hsent).record ?_
  cases hc : s.cached with
  | none => trivial
  | some tokens => exact hknows.1.mono rfl hknows.2 tokens hc

theorem Sound.receive (h : s.Sound pf) {read sentAt : Nat} (hi : s.phase i = .inFlight read sentAt)
    (answer : TokenAnswer) :
    ((s.setPhase i (.answered read (refreshAccessToken pf sentAt answer))).record
      (.received sentAt answer)).Sound pf := by
  have hknows := hi ▸ h.knows i
  have hrecorded := h.record (e := .received sentAt answer) trivial
  refine hrecorded.advance (h.holds hi rfl) ?_
  match hr : refreshAccessToken pf sentAt answer with
  | none | some (.error _) => trivial
  | some (.ok tokens) => exact ⟨sentAt, answer, hknows.2.1, by simp [TokenCache.record], hr⟩

theorem Sound.settle (h : s.Sound pf) {copy : CacheCopy} {read : Nat} {result : RefreshResult}
    (hi : s.phase i = .answered read result) : (s.settle i copy read result).Sound pf := by
  have hholder := h.holds hi rfl
  have hknows := h.knows i
  rw [hi] at hknows
  unfold TokenCache.settle
  split
  · exact h.release hholder h.cached
  next fresh =>
    have hissued : s.Issued pf read fresh := hknows
    refine (h.release hholder fun tokens htokens => ?_).record ?_
    · rw [← Option.some.inj htokens]
      exact hissued.mono (Nat.zero_le _) (List.Subset.refl _)
    · exact (hissued.mono le_rfl (List.subset_append_left _ _)).issuedAndAlive (.inl le_rfl)
  next e =>
    have hfailed := (h.release hholder h.cached).record (e := .failed e) trivial
    cases copy with
    | relay =>
        dsimp only
        split_ifs
        · exact hfailed.revoked true
        · exact hfailed
    | client => exact hfailed

theorem Sound.step (h : s.Sound pf) {copy : CacheCopy} {e : GetStep}
    (ht : s.step copy pf e = some t) : t.Sound pf := by
  cases Stepped.of_step ht with
  | tick d => exact h.tick d
  | call hi => exact h.call copy
  | lock hi => exact (h.setPhase rfl).waiters _
  | acquire hfree hhead => exact h.acquire hfree _
  | look hi => exact h.look hi
  | send hi => exact h.send hi
  | receive hi => exact h.receive hi _
  | settle hi => exact h.settle hi
  | dropWaiting hi => exact (h.setPhase rfl).waiters _
  | dropInFlight hi => exact h.release (h.holds hi rfl) h.cached

theorem Sound.orderly (h : s.Sound pf) : s.Orderly pf where
  oneInFlight i j hi hj := by
    have hholds : ∀ k, (s.phase k).isInFlight → s.holder = some k := by
      intro k hk
      exact h.holder k (GetPhase.holds_of_asks (GetPhase.asks_of_isInFlight hk))
    exact Option.some.inj ((hholds i hi).symm.trans (hholds j hj))
  askedLate time tokens he := h.events _ he
  returned read accessToken he := h.events _ he

/-! ## The revoked refresh token -/

/-- No call gets the lock once an answer has said that the refresh token is revoked. -/
def LockedBeforeRevocation (s : TokenCache) : GetStep → Prop
  | .acquire _ => ¬ s.RevocationSeen
  | _ => True

/-- What holds as long as no call gets the lock after a revocation. -/
structure Quiet (s : TokenCache) : Prop where
  revokedSentOnce : s.RevokedSentOnce
  noneAsks : s.RevocationSeen → ∀ i, (s.phase i).asks = false

theorem RevokedSentOnce.record (h : s.RevokedSentOnce) {e : GetEvent}
    (he : s.RevocationSeen → e.isAsked = false) : (s.record e).RevokedSentOnce := by
  refine List.pairwise_append.mpr ⟨h, List.pairwise_singleton _ _, fun f hf g hg hrevoked => ?_⟩
  rw [List.mem_singleton.mp hg]
  exact he ⟨f, hf, hrevoked⟩

theorem revocationSeen_record {e : GetEvent} :
    (s.record e).RevocationSeen ↔ s.RevocationSeen ∨ e.isRevocation := by
  simp [RevocationSeen, TokenCache.record, or_and_right, exists_or]

/-- The step tells of no request and of no revocation, takes no call to a request, and leaves the
cache unless a call had a token for it. -/
structure Tells (s t : TokenCache) : Prop where
  history : ∃ l, t.history = s.history ++ l ∧ ∀ e ∈ l, e.isAsked = false ∧ e.isRevocation = false
  asks : ∀ j, (t.phase j).asks → (s.phase j).asks
  fills : ∀ j, (t.phase j).mayFill → (s.phase j).mayFill
  clock : s.clock ≤ t.clock
  cached : t.cached = s.cached ∨ ∃ j, (s.phase j).mayFill

theorem tells_setPhase {p : GetPhase} (hasks : p.asks → (s.phase i).asks)
    (hfills : p.mayFill → (s.phase i).mayFill) : s.Tells (s.setPhase i p) := by
  refine ⟨⟨[], by simp [TokenCache.setPhase], by simp⟩, fun j hj => ?_, fun j hj => ?_, le_rfl,
    .inl rfl⟩
  all_goals
    by_cases hji : j = i
    · subst hji
      simp_all
    · rwa [setPhase_of_ne p hji] at hj

/-- The rest of the state is of no account. -/
theorem Tells.of_eq (h : s.Tells t) {u : TokenCache} (hhistory : u.history = t.history)
    (hphase : u.phase = t.phase) (hclock : t.clock ≤ u.clock) (hcached : u.cached = t.cached) :
    s.Tells u :=
  ⟨hhistory ▸ h.history, hphase ▸ h.asks, hphase ▸ h.fills, h.clock.trans hclock,
    hcached ▸ h.cached⟩

theorem Tells.refl (s : TokenCache) : s.Tells s :=
  ⟨⟨[], by simp, by simp⟩, fun _ => id, fun _ => id, le_rfl, .inl rfl⟩

theorem Tells.record (h : s.Tells t) {e : GetEvent} (ha : e.isAsked = false)
    (hr : e.isRevocation = false) : s.Tells (t.record e) := by
  obtain ⟨l, hl, hall⟩ := h.history
  refine ⟨⟨l ++ [e], by simp [TokenCache.record, hl], fun f hf => ?_⟩, h.asks, h.fills, h.clock,
    h.cached⟩
  rcases List.mem_append.mp hf with hf | hf
  · exact hall f hf
  · rw [List.mem_singleton.mp hf]
    exact ⟨ha, hr⟩

theorem tells_idle : s.Tells (s.setPhase i .idle) :=
  tells_setPhase nofun nofun

theorem tells_release : s.Tells (s.release i) :=
  tells_idle.of_eq rfl rfl le_rfl rfl

theorem tells_call (copy : CacheCopy) : s.Tells (s.call i copy) := by
  have hchecked : s.Tells (s.setPhase i .checked) :=
    tells_setPhase nofun nofun
  unfold TokenCache.call
  cases copy with
  | relay =>
      split_ifs
      · exact (Tells.refl s).record rfl rfl
      · exact hchecked
  | client => exact hchecked

theorem tells_look (hi : s.phase i = .locked) : s.Tells (s.look i) := by
  have hrefreshing : s.Tells (s.setPhase i (.refreshing s.clock)) :=
    tells_setPhase (fun _ => by rw [hi]; rfl) nofun
  unfold TokenCache.look
  split
  · split_ifs
    · exact hrefreshing
    · exact tells_release.record rfl rfl
  · exact hrefreshing

theorem tells_settle (copy : CacheCopy) {read : Nat} {result : RefreshResult}
    (hi : s.phase i = .answered read result) : s.Tells (s.settle i copy read result) := by
  have hreleased := tells_release (s := s) (i := i)
  unfold TokenCache.settle
  split
  · exact hreleased
  next fresh =>
    have hfills : (s.phase i).mayFill := by simp [hi, GetPhase.mayFill]
    refine Tells.record ?_ rfl rfl
    exact ⟨hreleased.history, hreleased.asks, hreleased.fills, le_rfl, .inr ⟨i, hfills⟩⟩
  next e =>
    have hfailed : s.Tells ((s.release i).record (.failed e)) := hreleased.record rfl rfl
    cases copy with
    | relay =>
        dsimp only
        split_ifs
        · exact hfailed.of_eq rfl rfl le_rfl rfl
        · exact hfailed
    | client => exact hfailed

/-- The steps that neither take the lock nor talk to Google. -/
theorem Stepped.tells {copy : CacheCopy} {e : GetStep} (h : Stepped copy pf s e t)
    (hacquire : ∀ i, e ≠ .acquire i) (hsend : ∀ i, e ≠ .send i)
    (hreceive : ∀ i answer, e ≠ .receive i answer) : s.Tells t := by
  cases h with
  | tick d => exact (Tells.refl s).of_eq rfl rfl (Nat.le_add_right _ _) rfl
  | call hi => exact tells_call copy
  | @lock i hi =>
      have hwaiting : s.Tells (s.setPhase i .waiting) :=
        tells_setPhase nofun nofun
      exact hwaiting.of_eq rfl rfl le_rfl rfl
  | acquire hfree hhead => exact absurd rfl (hacquire _)
  | look hi => exact tells_look hi
  | send hi => exact absurd rfl (hsend _)
  | receive hi => exact absurd rfl (hreceive _ _)
  | settle hi => exact tells_settle copy hi
  | dropWaiting hi => exact tells_idle.of_eq rfl rfl le_rfl rfl
  | dropInFlight hi => exact tells_release

theorem Tells.revocationSeen (h : s.Tells t) (hseen : t.RevocationSeen) : s.RevocationSeen := by
  obtain ⟨l, hl, hall⟩ := h.history
  obtain ⟨e, he, hrevoked⟩ := hseen
  rw [hl, List.mem_append] at he
  rcases he with he | he
  · exact ⟨e, he, hrevoked⟩
  · simp [(hall e he).2] at hrevoked

theorem Tells.revokedSentOnce_iff (h : s.Tells t) : t.RevokedSentOnce ↔ s.RevokedSentOnce := by
  obtain ⟨l, hl, hall⟩ := h.history
  rw [RevokedSentOnce, hl, List.pairwise_append]
  refine ⟨fun h => h.1, fun h => ⟨h, ?_, fun e _ f hf _ => (hall f hf).1⟩⟩
  exact List.pairwise_of_forall_mem_list fun e he f hf _ => (hall f hf).1

theorem Quiet.of_tells (h : s.Quiet) (ht : s.Tells t) : t.Quiet := by
  refine ⟨ht.revokedSentOnce_iff.mpr h.revokedSentOnce, fun hseen j => ?_⟩
  have hj := h.noneAsks (ht.revocationSeen hseen) j
  exact Bool.eq_false_iff.mpr fun hasks => by simp [ht.asks j hasks] at hj

theorem Quiet.not_seen (h : s.Quiet) {p : GetPhase} (hi : s.phase i = p) (hp : p.asks) :
    ¬ s.RevocationSeen := by
  intro hseen
  have := h.noneAsks hseen i
  simp [hi, hp] at this

theorem Quiet.send (h : s.Quiet) {read : Nat} (hi : s.phase i = .refreshing read) :
    ((s.setPhase i (.inFlight read s.clock)).record (.asked s.clock s.cached)).Quiet := by
  have hnot := h.not_seen hi rfl
  refine ⟨RevokedSentOnce.record h.revokedSentOnce (absurd · hnot), fun hseen => ?_⟩
  exact (revocationSeen_record.mp hseen).elim (absurd · hnot) (by simp [GetEvent.isRevocation])

/-- While the call `i` holds the lock, the others stand before it. -/
theorem Sound.not_holds (h : s.Sound pf) {p : GetPhase} (hi : s.phase i = p) (hp : p.holds)
    {j : Nat} (hj : j ≠ i) : (s.phase j).holds = false :=
  Bool.eq_false_iff.mpr fun hholds =>
    hj (Option.some.inj ((h.holder j hholds).symm.trans (h.holds hi hp)))

theorem Quiet.receive (h : s.Quiet) (hsound : s.Sound pf) {read sentAt : Nat}
    (hi : s.phase i = .inFlight read sentAt) (answer : TokenAnswer) (result : RefreshResult) :
    ((s.setPhase i (.answered read result)).record (.received sentAt answer)).Quiet := by
  refine ⟨RevokedSentOnce.record h.revokedSentOnce fun _ => rfl, fun _ j => ?_⟩
  by_cases hj : j = i
  · simp [hj, TokenCache.record, GetPhase.asks]
  · have hfree := hsound.not_holds hi rfl hj
    have hasks : (s.phase j).asks = false :=
      Bool.eq_false_iff.mpr fun hasks => by simp [GetPhase.holds_of_asks hasks] at hfree
    simpa [TokenCache.record, setPhase_of_ne _ hj] using hasks

theorem Quiet.step (h : s.Quiet) (hsound : s.Sound pf) {copy : CacheCopy} {e : GetStep}
    (hc : s.LockedBeforeRevocation e) (ht : s.step copy pf e = some t) : t.Quiet := by
  cases Stepped.of_step ht with
  | acquire hfree hhead => exact ⟨h.revokedSentOnce, fun hseen => absurd hseen hc⟩
  | send hi => exact h.send hi
  | receive hi => exact h.receive hsound hi _ _
  | _ => exact h.of_tells ((Stepped.of_step ht).tells (by simp) (by simp) (by simp))

/-- After a revocation, and as long as nothing was asked since, the cache stays near its expiry. -/
structure Spent (s : TokenCache) : Prop where
  near : s.RevocationSeen → s.RevokedSentOnce → s.NearExpiry s.clock
  noneFills : s.RevocationSeen → s.RevokedSentOnce → ∀ i, (s.phase i).mayFill = false

theorem Spent.of_tells (h : s.Spent) (ht : s.Tells t) : t.Spent := by
  refine ⟨fun hseen honce => ?_, fun hseen honce j => ?_⟩
  all_goals
    have hseen' := ht.revocationSeen hseen
    have honce' := ht.revokedSentOnce_iff.mp honce
    have hnone := h.noneFills hseen' honce'
  · rcases ht.cached with hcached | ⟨j, hfills⟩
    · exact (h.near hseen' honce').mono hcached ht.clock
    · simp [hnone j] at hfills
  · exact Bool.eq_false_iff.mpr fun hfills => by simpa [hnone j] using ht.fills j hfills

theorem Spent.acquire (h : s.Spent) (l : List Nat) (o : Option Nat) :
    { s.setPhase i .locked with waiters := l, holder := o }.Spent := by
  refine ⟨h.near, fun hseen honce j => ?_⟩
  have hj := h.noneFills hseen honce j
  by_cases hji : j = i
  · simp [hji, TokenCache.setPhase, GetPhase.mayFill]
  · simpa [TokenCache.setPhase, hji] using hj

/-- A request after a revocation breaks the law. -/
theorem not_revokedSentOnce_send (hseen : s.RevocationSeen) {time : Nat}
    {cached : Option OAuthTokens} : ¬ (s.record (.asked time cached)).RevokedSentOnce := by
  obtain ⟨e, he, hrevoked⟩ := hseen
  intro h
  have := (List.pairwise_append.mp h).2.2 e he _ (List.mem_singleton_self _) hrevoked
  simp [GetEvent.isAsked] at this

theorem Spent.send (s : TokenCache) (read : Nat) :
    ((s.setPhase i (.inFlight read s.clock)).record (.asked s.clock s.cached)).Spent := by
  have hfalse : ∀ u : TokenCache, (u.record (.asked s.clock s.cached)).RevocationSeen →
      ¬ (u.record (.asked s.clock s.cached)).RevokedSentOnce := by
    intro u hseen
    refine not_revokedSentOnce_send ((revocationSeen_record.mp hseen).resolve_right ?_)
    simp [GetEvent.isRevocation]
  exact ⟨fun hseen honce => absurd honce (hfalse _ hseen),
    fun hseen honce => absurd honce (hfalse _ hseen)⟩

theorem Spent.receive (h : s.Spent) (hsound : s.Sound pf) {read sentAt : Nat}
    (hi : s.phase i = .inFlight read sentAt) (answer : TokenAnswer) :
    ((s.setPhase i (.answered read (refreshAccessToken pf sentAt answer))).record
      (.received sentAt answer)).Spent := by
  have hknows : s.Knows pf (.inFlight read sentAt) := hi ▸ hsound.knows i
  refine ⟨fun _ _ => ?_, fun hseen honce j => ?_⟩
  · exact hknows.1.mono rfl (hknows.2.1.trans hknows.2.2)
  · by_cases hj : j = i
    · have hrevoked : answer.isRefreshTokenRevoked := by
        refine (revocationSeen_record.mp hseen).resolve_left fun hseen' => ?_
        have hnone := h.noneFills hseen' (List.pairwise_append.mp honce).1 i
        simp [hi, GetPhase.mayFill] at hnone
      subst hj
      simp only [TokenCache.record, setPhase_self]
      match hr : refreshAccessToken pf sentAt answer with
      | none | some (.error _) => rfl
      | some (.ok tokens) => exact absurd hr (refreshAccessToken_ne_ok hrevoked tokens)
    · have hfree := hsound.not_holds hi rfl hj
      have hfills : (s.phase j).mayFill = false :=
        Bool.eq_false_iff.mpr fun hfills => by simp [GetPhase.holds_of_mayFill hfills] at hfree
      simpa [TokenCache.record, setPhase_of_ne _ hj] using hfills

theorem Spent.step (h : s.Spent) (hsound : s.Sound pf) {copy : CacheCopy} {e : GetStep}
    (ht : s.step copy pf e = some t) : t.Spent := by
  cases Stepped.of_step ht with
  | acquire hfree hhead => exact h.acquire _ _
  | send hi => exact .send s _
  | receive hi => exact h.receive hsound hi _
  | _ => exact h.of_tells ((Stepped.of_step ht).tells (by simp) (by simp) (by simp))

theorem look_of_nearExpiry (h : s.NearExpiry s.clock) :
    s.look i = s.setPhase i (.refreshing s.clock) := by
  unfold TokenCache.look
  split
  next tokens hcached => simp [OAuthTokens.isNearExpiry, h tokens hcached]
  · rfl

theorem exists_run_of_locked (hi : s.phase i = .locked) (hnear : s.NearExpiry s.clock)
    (hseen : s.RevocationSeen) (copy : CacheCopy) :
    ∃ es u, StepRun.run (fun s e => s.step copy pf e) s es = some u ∧ ¬ u.RevokedSentOnce := by
  have hlook : s.step copy pf (.look i) = some (s.setPhase i (.refreshing s.clock)) := by
    rw [TokenCache.step, if_pos hi, look_of_nearExpiry hnear]
  have hsend : (s.setPhase i (.refreshing s.clock)).step copy pf (.send i) =
      some (((s.setPhase i (.refreshing s.clock)).setPhase i (.inFlight s.clock s.clock)).record
        (.asked s.clock s.cached)) := by
    simp only [TokenCache.step, setPhase_self]
    rfl
  have hbroken : ¬ (((s.setPhase i (.refreshing s.clock)).setPhase i
      (.inFlight s.clock s.clock)).record (.asked s.clock s.cached)).RevokedSentOnce :=
    not_revokedSentOnce_send hseen
  refine ⟨[.look i, .send i], _, ?_, hbroken⟩
  simp only [StepRun.run, hlook, hsend, Option.bind_some]

theorem acquire_eq {copy : CacheCopy} (ht : s.step copy pf (.acquire i) = some t) :
    t.phase i = .locked ∧ t.cached = s.cached ∧ t.clock = s.clock ∧ t.history = s.history := by
  cases Stepped.of_step ht with
  | acquire hfree hhead => exact ⟨setPhase_self (s := s) _, rfl, rfl, rfl⟩

/-- Once a call gets the lock after a revocation, nothing keeps it from asking. -/
theorem exists_run_of_acquire (hspent : s.Spent) (hseen : s.RevocationSeen) {copy : CacheCopy}
    (ht : s.step copy pf (.acquire i) = some t) :
    ∃ es u, StepRun.run (fun s e => s.step copy pf e) t es = some u ∧ ¬ u.RevokedSentOnce := by
  obtain ⟨hphase, hcached, hclock, hhistory⟩ := acquire_eq ht
  by_cases honce : s.RevokedSentOnce
  · have hnear : t.NearExpiry t.clock := (hspent.near hseen honce).mono hcached hclock.ge
    exact exists_run_of_locked hphase hnear (by rwa [RevocationSeen, hhistory]) copy
  · exact ⟨[], t, rfl, by rwa [RevokedSentOnce, hhistory]⟩

/-! ## Runs -/

theorem quiet_new (clock : Nat) : (new clock).Quiet :=
  ⟨List.Pairwise.nil, fun ⟨_, he, _⟩ => by simp [new] at he⟩

theorem spent_new (clock : Nat) : (new clock).Spent :=
  ⟨fun ⟨_, he, _⟩ => by simp [new] at he, fun ⟨_, he, _⟩ => by simp [new] at he⟩

/-- Every run of either copy asks for one token at a time, only when the cached one is near its
expiry, and returns what Google issued. It sends a revoked refresh token once if no call gets the
lock after Google's answer; a call that does can ask again. -/
theorem revoked_token_sent_once_of_locked_before (copy : CacheCopy) (pf : OAuthPlatform)
    (clock : Nat) (es : List GetStep) :
    StepRun.AllStates (fun s e => step s copy pf e) (Orderly pf) (new clock) es ∧
    (StepRun.AllSteps (fun s e => step s copy pf e) LockedBeforeRevocation (new clock) es →
      StepRun.AllStates (fun s e => step s copy pf e) RevokedSentOnce (new clock) es) ∧
    (∀ s i t, StepRun.run (fun s e => step s copy pf e) (new clock) es = some s →
      s.RevocationSeen → s.step copy pf (.acquire i) = some t →
      ∃ fs u, StepRun.run (fun s e => step s copy pf e) t fs = some u ∧ ¬ u.RevokedSentOnce) := by
  have hsound : ∀ s e t, Sound pf s → step s copy pf e = some t → Sound pf t :=
    fun s e t h ht => h.step ht
  refine ⟨StepRun.allStates_of_inv hsound (fun s => Sound.orderly) (sound_new clock) es,
    fun hC => ?_, fun s i t hrun hseen ht => ?_⟩
  · exact StepRun.allStates_of_allSteps (I := fun s => s.Sound pf ∧ s.Quiet)
      (fun s e t h hc ht => ⟨h.1.step ht, h.2.step h.1 hc ht⟩) (fun s h => h.2.revokedSentOnce)
      ⟨sound_new clock, quiet_new clock⟩ hC
  · have hspent : s.Sound pf ∧ s.Spent :=
      StepRun.run_invariant (C := fun _ _ => True) (P := fun s => s.Sound pf ∧ s.Spent)
        (fun s e t h _ ht => ⟨h.1.step ht, h.2.step h.1 ht⟩) ⟨sound_new clock, spent_new clock⟩
        (StepRun.allSteps_of_forall (fun _ _ => trivial) _ _) hrun
    exact exists_run_of_acquire hspent.2 hseen ht

instance (s : TokenCache) : Decidable s.RevocationSeen :=
  inferInstanceAs (Decidable (∃ e ∈ s.history, _))

instance (s : TokenCache) : Decidable s.RevokedSentOnce :=
  inferInstanceAs (Decidable (List.Pairwise _ _))

instance (s : TokenCache) (e : GetStep) : Decidable (s.LockedBeforeRevocation e) :=
  match e with
  | .acquire _ => inferInstanceAs (Decidable (¬ s.RevocationSeen))
  | .tick _ | .call _ | .lock _ | .look _ | .send _ | .receive _ _ | .settle _ | .drop _ =>
      isTrue trivial

/-- Google says that the refresh token is revoked. -/
def invalidGrant : TokenAnswer := .response 400 "\x7b\"error\":\"invalid_grant\"\x7d".toList

/-- A platform on which no body is a token. -/
def noTokens : OAuthPlatform := ⟨fun _ => .error "expected value".toList, 2 ^ 64⟩

theorem revoked_token_sent_once_of_one_call :
    StepRun.AllStates (fun s e => step s .relay noTokens e) RevokedSentOnce (new 0)
      [.call 1, .lock 1, .acquire 1, .look 1, .send 1, .tick 5, .receive 1 invalidGrant, .settle 1,
        .call 2, .tick 5] :=
  (revoked_token_sent_once_of_locked_before .relay noTokens 0 _).2.1 (by decide)

/-- Of two of the relay's calls that are past the latch, one asks when the other has its answer; the
client asks again for a call that begins then. -/
theorem revoked_token_sent_twice :
    (∃ s, StepRun.run (fun s e => step s .relay noTokens e) (new 0)
      [.call 1, .call 2, .lock 1, .lock 2, .acquire 1, .look 1, .send 1, .receive 1 invalidGrant,
        .settle 1, .acquire 2, .look 2, .send 2] = some s ∧ ¬ s.RevokedSentOnce) ∧
    (∃ s, StepRun.run (fun s e => step s .client noTokens e) (new 0)
      [.call 1, .lock 1, .acquire 1, .look 1, .send 1, .receive 1 invalidGrant, .settle 1,
        .call 2, .lock 2, .acquire 2, .look 2, .send 2] = some s ∧ ¬ s.RevokedSentOnce) :=
  ⟨⟨_, rfl, by decide⟩, ⟨_, rfl, by decide⟩⟩

end TokenCache

end Rahgozar.Drive
