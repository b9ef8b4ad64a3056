import Rahgozar.Fronter.Transport

set_option autoImplicit false

/-! # A relay call (`relay` in `src/domain_fronter.rs`)

One call is a tree of attempts: the exit node first, if the destination is routed there, then the
direct path with its one retry; each of these tries h2 and may fall back to h1. The model returns,
beside the result, the log of what was started and what was written, in order. The operations'
results are input (`Pass`, one for each time the code goes through a transport).
-/

namespace Rahgozar.Fronter

inductive Transport where
  | h2
  | h1
deriving DecidableEq

/-- What a call does towards Apps Script. `refused` is the edge's 421 to the POST itself, which
takes back what `sent` says: such a request was not forwarded. -/
inductive Event where
  | attempt (t : Transport)
  | sent
  | refused
deriving DecidableEq

/-! ## Calls with a log -/

structure Task (ε α : Type) where
  log : List Event
  out : Out ε α

namespace Task

variable {ε δ α β : Type}

def lift (out : Out ε α) : Task ε α := ⟨[], out⟩

def emit (log : List Event) : Task ε Unit := ⟨log, .ok ()⟩

def bind (x : Task ε α) (f : α → Task ε β) : Task ε β :=
  match x.out with
  | .ok a => ⟨x.log ++ (f a).log, (f a).out⟩
  | .err e => ⟨x.log, .err e⟩
  | .dropped => ⟨x.log, .dropped⟩

instance : Monad (Task ε) where
  pure a := ⟨[], .ok a⟩
  bind := bind

/-- `match x.await { Ok(a) => ok(a), Err(e) => err(e) }`. -/
def handle (x : Task ε α) (ok : α → Task δ β) (err : ε → Task δ β) : Task δ β :=
  match x.out with
  | .ok a => ⟨x.log ++ (ok a).log, (ok a).out⟩
  | .err e => ⟨x.log ++ (err e).log, (err e).out⟩
  | .dropped => ⟨x.log, .dropped⟩

def fail (e : ε) : Task ε α := lift (.err e)

/-- The task `t` after the events `l`. -/
def after (l : List Event) (t : Task ε α) : Task ε α := ⟨l ++ t.log, t.out⟩

@[simp] theorem emit_bind (l : List Event) (f : Unit → Task ε β) :
    (emit l >>= f) = after l (f ()) := rfl

@[simp] theorem lift_ok_bind (a : α) (f : α → Task ε β) : (lift (.ok a) >>= f) = f a := rfl

@[simp] theorem lift_err_bind (e : ε) (f : α → Task ε β) : (lift (.err e) >>= f) = fail e := rfl

@[simp] theorem lift_dropped_bind (f : α → Task ε β) :
    (lift .dropped >>= f) = lift .dropped := rfl

@[simp] theorem pure_bind (a : α) (f : α → Task ε β) : (pure a >>= f) = f a := rfl

@[simp] theorem fail_bind (e : ε) (f : α → Task ε β) : (fail e >>= f) = fail e := rfl

@[simp] theorem ite_bind (c : Prop) [Decidable c] (t u : Task ε α) (f : α → Task ε β) :
    ((if c then t else u) >>= f) = if c then t >>= f else u >>= f :=
  apply_ite (· >>= f) c t u

@[simp] theorem after_bind (l : List Event) (t : Task ε α) (f : α → Task ε β) :
    (after l t >>= f) = after l (t >>= f) := by
  obtain ⟨log, out⟩ := t
  cases out <;> simp [Bind.bind, bind, after]

@[simp] theorem lift_ok_handle (a : α) (ok : α → Task δ β) (err : ε → Task δ β) :
    (lift (.ok a)).handle ok err = ok a := rfl

@[simp] theorem lift_err_handle (e : ε) (ok : α → Task δ β) (err : ε → Task δ β) :
    (lift (.err e)).handle ok err = err e := rfl

@[simp] theorem lift_dropped_handle (ok : α → Task δ β) (err : ε → Task δ β) :
    (lift .dropped).handle ok err = lift .dropped := rfl

theorem handle_log (t : Task ε α) (ok : α → Task δ β) (err : ε → Task δ β) :
    ∃ rest, (t.handle ok err).log = t.log ++ rest := by
  unfold handle
  cases t.out with
  | ok a => exact ⟨(ok a).log, rfl⟩
  | err e => exact ⟨(err e).log, rfl⟩
  | dropped => exact ⟨[], (List.append_nil _).symm⟩

theorem lift_handle_bind {γ : Type} (x : Out ε α) (ok : α → Task δ β) (err : ε → Task δ β)
    (f : β → Task δ γ) :
    ((lift x).handle ok err >>= f) =
      (lift x).handle (fun a => ok a >>= f) fun e => err e >>= f := by
  cases x <;> rfl

end Task

/-! ## What a call meets -/

/-- One way through the transports: the payload (or the error of building it), the h2 leg and
the h1 leg. `stickyDisable` and `release` say whether the awaits of that name
complete; they cannot fail otherwise. -/
structure Pass where
  payload : Except FronterError Unit
  h2 : EnsureH2
  stickyDisable : Bool
  h1 : H1World
  release : Bool

/-- Code behind the relay path that looks at bodies only: `parse_relay_json`,
`parse_exit_node_response`, and the lossy text of a body for error messages. -/
structure Decoders where
  parseRelayJson : Bytes → Except FronterError Bytes
  parseExitNodeResponse : Bytes → Except FronterError Bytes
  fromUtf8Lossy : Bytes → String

/-- The whole payload of the POST went out: headers queued and body handed over. -/
def Trip.sent (t : Trip) : Bool :=
  t.build.isOk && decide (t.ready = .ready) && t.sendRequest.isOk && t.sendData.isOk

/-- The POST itself is answered with a 421. -/
def Trip.refused (t : Trip) : Bool :=
  match t.response with
  | .answered r => t.sent && isH2FrontingRefusalStatus r.status
  | _ => false

def H1World.sent (w : H1World) : Bool := w.send.isOk

def H1World.refused (w : H1World) : Bool :=
  match w.read with
  | .ok r => w.sent && isH2FrontingRefusalStatus r.status
  | _ => false

/-- What one leg writes. -/
def written (sent refused : Bool) : List Event :=
  (if sent then [.sent] else []) ++ if refused then [.refused] else []

def EnsureH2.written : EnsureH2 → List Event
  | .connection w => Fronter.written w.post.sent w.post.refused
  | _ => []

def H1World.log (w : H1World) : List Event := .attempt .h1 :: written w.sent w.refused

/-! ## The attempts -/

variable (D : Decoders)

def isMethodSafeForFanout (method : String) : Bool :=
  method.toUpper == "GET" || method.toUpper == "HEAD" || method.toUpper == "OPTIONS"

/-- First 200 characters of the body, for an error message. -/
def bodyTxt (body : Bytes) : String := ((D.fromUtf8Lossy body).take 200).toString

def httpError (label : String) (r : Response) : FronterError :=
  .relay ("Apps Script HTTP " ++ toString r.status ++ label ++ ": " ++ bodyTxt D r.body)

/-- The h1 fallback of `do_relay_once_with`. -/
def relayOverH1 (p : Pass) : Task FronterError Bytes := do
  Task.emit p.h1.log
  let r ← Task.lift (h1Exchange p.h1)
  if r.status ≠ 200 then Task.fail (httpError D "" r)
  else
    let bytes ← Task.lift (.ofExcept (D.parseRelayJson r.body))
    Task.lift (.await p.release)
    pure bytes

/-- `do_relay_once_with`. -/
def doRelayOnceWith (method : String) (p : Pass) : Task FronterError Bytes := do
  Task.emit [.attempt .h2]
  Task.lift (.ofExcept p.payload)
  Task.emit p.h2.written
  (Task.lift (h2RelayRequest p.h2)).handle
    (fun r =>
      if isH2FrontingRefusalStatus r.status then do
        Task.lift (.await p.stickyDisable)
        relayOverH1 D p
      else if r.status ≠ 200 then Task.fail (httpError D "" r)
      else Task.lift (.ofExcept (D.parseRelayJson r.body)))
    (fun (e, sent) =>
      match sent with
      | .no => relayOverH1 D p
      | .maybe =>
          if isMethodSafeForFanout method then relayOverH1 D p
          else Task.fail (.nonRetryable e))

/-- `select_ok` over the passes of a fan-out, in the order in which they finish: the first
success, or the last error. The passes' logs are put one after the other. -/
def doRelayParallel (method : String) : List Pass → Task FronterError Bytes
  | [] => Task.fail (.relay "no script_ids available")
  | [p] => doRelayOnceWith D method p
  | p :: q :: ps =>
      (doRelayOnceWith D method p).handle pure fun _ => doRelayParallel method (q :: ps)

/-- The settings a call reads: `parallel_relay` and the number of deployments. -/
structure Config where
  parallelRelay : Nat
  scriptIds : Nat

def Config.fan (c : Config) : Nat := max (min c.parallelRelay c.scriptIds) 1

/-- `do_relay_with_retry`. -/
def doRelayWithRetry (c : Config) (method : String) (fan : List Pass) (first second : Pass) :
    Task FronterError Bytes :=
  if 2 ≤ c.fan ∧ isMethodSafeForFanout method then doRelayParallel D method fan
  else
    (doRelayOnceWith D method first).handle pure fun e =>
      if e.isRetryable then doRelayOnceWith D method second
      else Task.fail e.intoInner

/-! ## The exit node -/

/-- The h1 fallback of `send_prebuilt_payload_through_relay`. -/
def sendPrebuiltOverH1 (p : Pass) : Task FronterError Bytes := do
  Task.emit p.h1.log
  let r ← Task.lift (h1Exchange p.h1)
  if r.status ≠ 200 then Task.fail (httpError D " (exit-node outer call)" r)
  else pure r.body

/-- `send_prebuilt_payload_through_relay`; its outer call is always a POST. -/
def sendPrebuiltPayloadThroughRelay (p : Pass) : Task FronterError Bytes := do
  Task.emit p.h2.written
  (Task.lift (h2RelayRequest p.h2)).handle
    (fun r =>
      if isH2FrontingRefusalStatus r.status then do
        Task.lift (.await p.stickyDisable)
        sendPrebuiltOverH1 D p
      else if r.status ≠ 200 then Task.fail (httpError D " (exit-node outer call)" r)
      else pure r.body)
    (fun (e, sent) =>
      match sent with
      | .no => sendPrebuiltOverH1 D p
      | .maybe => Task.fail (.nonRetryable e))

/-- `relay_via_exit_node`. -/
def relayViaExitNode (p : Pass) : Task FronterError Bytes := do
  Task.emit [.attempt .h2]
  Task.lift (.ofExcept p.payload)
  let appBody ← sendPrebuiltPayloadThroughRelay D p
  Task.lift (.ofExcept (D.parseExitNodeResponse appBody))

/-! ## The call -/

/-- What `relay` returns: relayed bytes, or an `error_response` with its status and message. -/
inductive Reply where
  | relayed (bytes : Bytes)
  | errorResponse (status : Nat) (message : String)
deriving DecidableEq

def relayTimeoutMessage : String :=
  "Relay timeout — Apps Script did not respond. " ++
  "Most likely cause: daily UrlFetchApp quota exhausted " ++
  "(resets 00:00 UTC). Other possibilities: script.google.com " ++
  "unreachable from your network, or the Apps Script edge is having issues. " ++
  "Check the script's Executions tab at script.google.com for the real error."

/-- What one call of `relay` meets: whether `exit_node_matches`, the pass through the exit node,
the cache, the coalescing layer, and the passes of the direct path. -/
structure World where
  exitNodeMatches : Bool
  exit : Pass
  cacheHit : Option Reply
  waiter : Option (Out Unit Reply)
  fan : List Pass
  first : Pass
  second : Pass

/-- `relay_uncoalesced`. A direct path that is dropped is one that the time limit
`REQUEST_TIMEOUT_SECS` ended. -/
def relayUncoalesced (c : Config) (method : String) (w : World) : Task Empty Reply :=
  let t := doRelayWithRetry D c method w.fan w.first w.second
  match t.out with
  | .ok bytes => ⟨t.log, .ok (.relayed bytes)⟩
  | .err e => ⟨t.log, .ok (.errorResponse 502 ("Relay error: " ++ e.display))⟩
  | .dropped => ⟨t.log, .ok (.errorResponse 504 relayTimeoutMessage)⟩

/-- `is_cacheable_method`. -/
def isCacheableMethod (method : String) : Bool :=
  method.toUpper == "GET" || method.toUpper == "HEAD"

/-- Whether a request goes through the cache and the coalescing layer. -/
def coalescible (method : String) (headers : List (String × String)) (body : Bytes) : Bool :=
  isCacheableMethod method && body.isEmpty &&
    !headers.any fun h => h.1.toLower == "range"

/-- `relay` after the exit node. -/
def relayDirect (c : Config) (method : String) (headers : List (String × String)) (body : Bytes)
    (w : World) : Task Empty Reply :=
  if coalescible method headers body then
    match w.cacheHit with
    | some hit => pure hit
    | none =>
        match w.waiter with
        | some (.ok bytes) => pure bytes
        | some (.err _) => pure (.errorResponse 502 "coalesced request dropped")
        | some .dropped => Task.lift .dropped
        | none => relayUncoalesced D c method w
  else relayUncoalesced D c method w

/-- `relay`. -/
def relay (c : Config) (method : String) (headers : List (String × String)) (body : Bytes)
    (w : World) : Task Empty Reply :=
  if w.exitNodeMatches then
    (relayViaExitNode D w.exit).handle (fun bytes => pure (.relayed bytes)) fun e =>
      if e.isRetryable then relayDirect D c method headers body w
      else pure (.errorResponse 502 ("Relay error: " ++ e.intoInner.display))
  else relayDirect D c method headers body w

end Rahgozar.Fronter
