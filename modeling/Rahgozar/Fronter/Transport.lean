import Mathlib.Tactic

set_option autoImplicit false

/-! # One request over the fronted connection

The two transports of `src/domain_fronter.rs`: the shared h2 connection (`h2RoundTrip`,
`runH2RelayWithSend`, `h2RelayRequest`) and the pooled h1 connections (`h1Exchange`). What the
network does is input: every operation the code awaits has its result in a record (`Trip`,
`H2World`, `H1World`), and a result may also be that the future is dropped at this await, which
is how the time limit of a call and a client that goes away end it.
-/

namespace Rahgozar.Fronter

abbrev Bytes := List UInt8

/-- `FronterError`. -/
inductive FronterError where
  | io (e : String)
  | tls (e : String)
  | dns (e : String)
  | badResponse (e : String)
  | relay (e : String)
  | timeout
  | json (e : String)
  | nonRetryable (inner : FronterError)
deriving DecidableEq

namespace FronterError

def isRetryable : FronterError → Bool
  | nonRetryable _ => false
  | _ => true

def intoInner : FronterError → FronterError
  | nonRetryable inner => inner
  | e => e

/-- `Display`; the wrapper is transparent. -/
def display : FronterError → String
  | io e => "io: " ++ e
  | tls e => "tls: " ++ e
  | dns e => "invalid dns name: " ++ e
  | badResponse e => "bad response: " ++ e
  | relay e => "relay error: " ++ e
  | timeout => "timeout"
  | json e => "json: " ++ e
  | nonRetryable inner => inner.display

end FronterError

/-! ## Awaited results -/

/-- What awaiting an operation gives: a value, an error, or nothing because the future that
awaits is dropped here. -/
inductive Out (ε α : Type) where
  | ok (a : α)
  | err (e : ε)
  | dropped
deriving DecidableEq

namespace Out

variable {ε δ α β : Type}

def bind : Out ε α → (α → Out ε β) → Out ε β
  | ok a, f => f a
  | err e, _ => err e
  | dropped, _ => dropped

instance : Monad (Out ε) where
  pure := ok
  bind := bind

def mapErr (f : ε → δ) : Out ε α → Out δ α
  | ok a => ok a
  | err e => err (f e)
  | dropped => dropped

def ofExcept : Except ε α → Out ε α
  | .ok a => ok a
  | .error e => err e

/-- An await that only gives the time to go on, or does not come back. -/
def await (completes : Bool) : Out ε Unit := if completes then ok () else dropped

def isOk : Out ε α → Bool
  | ok _ => true
  | _ => false

@[simp] theorem pure_eq (a : α) : (pure a : Out ε α) = ok a := rfl

@[simp] theorem ok_bind (a : α) (f : α → Out ε β) : (ok a >>= f) = f a := rfl

@[simp] theorem err_bind (e : ε) (f : α → Out ε β) : (err e >>= f) = err e := rfl

@[simp] theorem dropped_bind (f : α → Out ε β) : (dropped >>= f) = dropped := rfl

end Out

/-! ## Responses and redirects -/

structure Response where
  status : Nat
  headers : List (String × String)
  body : Bytes
deriving DecidableEq

/-- `header_get`: the first header of that name, in any case. -/
def headerGet (headers : List (String × String)) (name : String) : Option String :=
  (headers.find? fun h => h.1.toLower == name.toLower).map Prod.snd

def isRedirectStatus (status : Nat) : Bool :=
  status == 301 || status == 302 || status == 303 || status == 307 || status == 308

/-- `is_h2_fronting_refusal_status`: the edge refused the fronted request before Apps Script. -/
def isH2FrontingRefusalStatus (status : Nat) : Bool := status == 421

/-- The redirect loop of both transports, with `fuel` hops left. `hop i` is the exchange of the
`i`-th follow-up. -/
def followRedirects {ε : Type} (hop : Nat → Out ε Response) : Nat → Nat → Response → Out ε Response
  | 0, _, r => .ok r
  | fuel + 1, i, r =>
      if isRedirectStatus r.status then
        match headerGet r.headers "location" with
        | none => .ok r
        | some _ => hop i >>= followRedirects hop fuel (i + 1)
      else .ok r

/-- `for _ in 0..5` in both transports. -/
def maxRedirects : Nat := 5

/-! ## h2 -/

/-- `RequestSent`. -/
inductive RequestSent where
  | no
  | maybe
deriving DecidableEq

/-- How the response phase of a round trip ends. -/
inductive ResponsePhase where
  | responseFailed (e : String)
  | chunkFailed (e : String)
  | elapsed
  | answered (r : Response)
  | dropped

/-- How `send.ready()` ends under its own short timeout. -/
inductive ReadyPhase where
  | ready
  | failed (e : String)
  | elapsed
  | dropped
deriving DecidableEq

/-- What one h2 round trip meets, in the order the code asks for it. -/
structure Trip where
  build : Except String Unit
  ready : ReadyPhase
  sendRequest : Except String Unit
  sendData : Except String Unit
  response : ResponsePhase

/-- `h2_round_trip`. The body of an answer is the one after the gzip decoding. -/
def h2RoundTrip (hasBody : Bool) (t : Trip) : Out (FronterError × RequestSent) Response :=
  match t.build with
  | .error e => .err (.relay ("h2 request build: " ++ e), .no)
  | .ok _ =>
    match t.ready with
    | .failed e => .err (.relay ("h2 ready: " ++ e), .no)
    | .elapsed => .err (.timeout, .no)
    | .dropped => .dropped
    | .ready =>
      match t.sendRequest with
      | .error e => .err (.relay ("h2 send_request: " ++ e), .no)
      | .ok _ =>
        match hasBody, t.sendData with
        | true, .error e => .err (.relay ("h2 send_data: " ++ e), .maybe)
        | _, _ =>
          match t.response with
          | .responseFailed e => .err (.relay ("h2 response: " ++ e), .maybe)
          | .chunkFailed e => .err (.relay ("h2 body chunk: " ++ e), .maybe)
          | .elapsed => .err (.timeout, .maybe)
          | .dropped => .dropped
          | .answered r => .ok r

structure H2World where
  post : Trip
  hops : Nat → Trip

/-- A redirect hop. Once the POST is answered, a failure further down the chain is `maybe`
wherever it happens. -/
def H2World.hop (w : H2World) (i : Nat) : Out (FronterError × RequestSent) Response :=
  (h2RoundTrip false (w.hops i)).mapErr fun e => (e.1, .maybe)

/-- `run_h2_relay_with_send`: the POST and the redirects. -/
def runH2RelayWithSend (w : H2World) : Out (FronterError × RequestSent) Response :=
  h2RoundTrip true w.post >>= followRedirects w.hop maxRedirects 0

/-- `ensure_h2`: no h2 connection, one to use, or dropped while opening it. -/
inductive EnsureH2 where
  | unavailable
  | connection (w : H2World)
  | dropped

/-- `h2_relay_request`. -/
def h2RelayRequest : EnsureH2 → Out (FronterError × RequestSent) Response
  | .unavailable => .err (.relay "h2 unavailable", .no)
  | .connection w => runH2RelayWithSend w
  | .dropped => .dropped

/-! ## h1 -/

/-- The GET of one redirect hop on the same h1 connection. -/
structure Hop where
  write : Out FronterError Unit
  flush : Out FronterError Unit
  read : Out FronterError Response

def Hop.exchange (h : Hop) : Out FronterError Response := do
  h.write
  h.flush
  h.read

structure H1World where
  acquire : Out FronterError Unit
  writeHead : Out FronterError Unit
  writePayload : Out FronterError Unit
  flush : Out FronterError Unit
  read : Out FronterError Response
  hops : Nat → Hop

/-- Acquire a pooled connection and write the whole request on it. -/
def H1World.send (w : H1World) : Out FronterError Unit := do
  w.acquire
  w.writeHead
  w.writePayload
  w.flush

/-- The h1 exchange: send, read the answer, follow its redirects. -/
def h1Exchange (w : H1World) : Out FronterError Response := do
  w.send
  let r ← w.read
  followRedirects (fun i => (w.hops i).exchange) maxRedirects 0 r

end Rahgozar.Fronter
