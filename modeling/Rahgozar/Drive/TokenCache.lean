import Rahgozar.Lib.Run

set_option autoImplicit false

/-! # The cache of the access token (`drive-relay/src/token.rs`, `src/drive_client.rs`)

`TokenCache::get` gives the cached access token or asks Google for a new one, under a lock that it
keeps while it waits for the answer. The relay's copy reads a latch before it asks for the lock, and
sets it when Google says that the refresh token is revoked; the client's copy has no latch. A call
takes one step for each stretch of code that others cannot come between, and may be dropped where
it waits. Instants and durations are in nanoseconds.
-/

namespace Rahgozar.Drive

/-! ## Tokens and errors (`src/drive_oauth.rs`) -/

/-- `Duration::from_secs` -/
def fromSecs (n : Nat) : Nat := n * 1000000000

structure OAuthTokens where
  accessToken : List Char
  refreshToken : Option (List Char)
  expiresAt : Nat
  scope : List Char
deriving DecidableEq

def OAuthTokens.isNearExpiry (tokens : OAuthTokens) (now : Nat) : Bool :=
  tokens.expiresAt - now ≤ fromSecs 60

inductive OAuthError where
  | transport
  | endpoint (endpoint : String) (status : Nat) (body : List Char)
  | badResponse (error : List Char)
  | missingField (name : String)
deriving DecidableEq

def OAuthError.isRefreshTokenRevoked : OAuthError → Bool
  | .endpoint _ status body =>
      if status ≠ 400 ∧ status ≠ 401 then false
      else "\"invalid_grant\"".toList <:+: body ∨ "\"unauthorized_client\"".toList <:+: body ∨
        "\"invalid_client\"".toList <:+: body
  | _ => false

/-- A success of the token endpoint; `expires_in` is a `u64`. -/
structure TokenSuccessJson where
  accessToken : List Char
  refreshToken : Option (List Char)
  expiresIn : Nat
  scope : List Char

/-- `serde_json` on a success, and the last instant of the clock. -/
structure OAuthPlatform where
  fromStr : List Char → Except (List Char) TokenSuccessJson
  lastInstant : Nat

/-- What comes back for a request: nothing that is a whole response, or a status and a body. -/
inductive TokenAnswer where
  | failed
  | response (status : Nat) (body : List Char)
deriving DecidableEq

/-- How a call of `get` ends its request: with `none`, in a panic. -/
abbrev RefreshResult := Option (Except OAuthError OAuthTokens)

section

variable (pf : OAuthPlatform)

/-- An instant that the clock cannot hold makes the addition panic. -/
def parseTokenResponseBody (body : List Char) (now : Nat) : RefreshResult :=
  match pf.fromStr body with
  | .error e => some (.error (.badResponse ("token endpoint: ".toList ++ e)))
  | .ok parsed =>
      if parsed.accessToken.isEmpty then some (.error (.missingField "access_token"))
      else if pf.lastInstant < now + fromSecs parsed.expiresIn then none
      else
        some (.ok
          { accessToken := parsed.accessToken
            refreshToken := parsed.refreshToken.filter fun s => !s.isEmpty
            expiresAt := now + fromSecs parsed.expiresIn
            scope := parsed.scope })

/-- `refresh_access_token` with the clock at `now` when the request starts. -/
def refreshAccessToken (now : Nat) : TokenAnswer → RefreshResult
  | .failed => some (.error .transport)
  | .response status body =>
      if 200 ≤ status ∧ status < 300 then parseTokenResponseBody pf body now
      else some (.error (.endpoint "refresh" status body))

end

/-! ## The cache -/

/-- The two copies. -/
inductive CacheCopy where
  | relay
  | client
deriving DecidableEq

/-- Where a call of `get` stands. -/
inductive GetPhase where
  | idle
  /-- Past the latch. -/
  | checked
  /-- In the queue of the lock. -/
  | waiting
  | locked
  /-- The clock was `read`, and there is no token that lasts. -/
  | refreshing (read : Nat)
  /-- The request is in flight. -/
  | inFlight (read sentAt : Nat)
  | answered (read : Nat) (result : RefreshResult)
deriving DecidableEq

/-- What the world sees of the cache. -/
inductive GetEvent where
  /-- A refresh request starts, with this token in the cache. -/
  | asked (time : Nat) (cached : Option OAuthTokens)
  | received (sentAt : Nat) (answer : TokenAnswer)
  /-- `get` returns a token; the clock was `read`. -/
  | returned (read : Nat) (accessToken : List Char)
  | failed (error : OAuthError)
deriving DecidableEq

structure TokenCache where
  cached : Option OAuthTokens
  revoked : Bool
  clock : Nat
  waiters : List Nat
  holder : Option Nat
  phase : Nat → GetPhase
  history : List GetEvent

inductive GetStep where
  | tick (d : Nat)
  | call (i : Nat)
  | lock (i : Nat)
  | acquire (i : Nat)
  | look (i : Nat)
  | send (i : Nat)
  | receive (i : Nat) (answer : TokenAnswer)
  | settle (i : Nat)
  /-- The future of the call is dropped where it waits. -/
  | drop (i : Nat)

def revokedTokenError : OAuthError :=
  .endpoint "token refresh (latched revoked)" 400
    ("\x7b\"error\":\"invalid_grant\",\"error_description\":\"refresh token revoked; daemon " ++
      "stopped retrying. Run `rahgozar-drive-relay oauth device-code` to re-auth.\"\x7d").toList

namespace TokenCache

def new (clock : Nat) : TokenCache := ⟨none, false, clock, [], none, fun _ => .idle, []⟩

variable (s : TokenCache) (i : Nat)

def setPhase (p : GetPhase) : TokenCache := { s with phase := Function.update s.phase i p }

def record (e : GetEvent) : TokenCache := { s with history := s.history ++ [e] }

/-- The call is over, and its guard with it. -/
def release : TokenCache := { s.setPhase i .idle with holder := none }

/-- The first step of `get`: only the relay's copy has a latch. -/
def call (copy : CacheCopy) : TokenCache :=
  match copy with
  | .relay => if s.revoked then s.record (.failed revokedTokenError) else s.setPhase i .checked
  | .client => s.setPhase i .checked

def look : TokenCache :=
  match s.cached with
  | some tokens =>
      if tokens.isNearExpiry s.clock then s.setPhase i (.refreshing s.clock)
      else (s.release i).record (.returned s.clock tokens.accessToken)
  | none => s.setPhase i (.refreshing s.clock)

def settle (copy : CacheCopy) (read : Nat) : RefreshResult → TokenCache
  | none => s.release i
  | some (.ok fresh) =>
      ({ s with cached := some fresh }.release i).record (.returned read fresh.accessToken)
  | some (.error e) =>
      let s := (s.release i).record (.failed e)
      match copy with
      | .relay => if e.isRefreshTokenRevoked then { s with revoked := true } else s
      | .client => s

def step (copy : CacheCopy) (pf : OAuthPlatform) : GetStep → Option TokenCache
  | .tick d => some { s with clock := s.clock + d }
  | .call i => if s.phase i = .idle then some (s.call i copy) else none
  | .lock i =>
      if s.phase i = .checked then
        some { s.setPhase i .waiting with waiters := s.waiters ++ [i] }
      else none
  | .acquire i =>
      if s.holder = none ∧ s.waiters.head? = some i then
        some { s.setPhase i .locked with waiters := s.waiters.tail, holder := some i }
      else none
  | .look i => if s.phase i = .locked then some (s.look i) else none
  | .send i =>
      match s.phase i with
      | .refreshing read =>
          some ((s.setPhase i (.inFlight read s.clock)).record (.asked s.clock s.cached))
      | _ => none
  | .receive i answer =>
      match s.phase i with
      | .inFlight read sentAt =>
          some ((s.setPhase i (.answered read (refreshAccessToken pf sentAt answer))).record
            (.received sentAt answer))
      | _ => none
  | .settle i =>
      match s.phase i with
      | .answered read result => some (s.settle i copy read result)
      | _ => none
  | .drop i =>
      match s.phase i with
      | .waiting => some { s.setPhase i .idle with waiters := s.waiters.erase i }
      | .inFlight _ _ => some (s.release i)
      | _ => none

end TokenCache

end Rahgozar.Drive
