import Rahgozar.Drive.TokenCache
import Rahgozar.Update.Download

set_option autoImplicit false

/-! # The listener of a sign-in (`run_oauth_callback_listener` in `commands.rs` of the desktop)

The browser brings Google's redirect to a loopback port on which any program of the machine, or any
web page, can ask too. The listener takes one connection after the other, reads the head of a
request, and exchanges the code of the first request that has the state of this sign-in. Nothing is
kept from one connection to the next but the time to the deadline: where the outcomes end in the
model, the deadline comes.
-/

namespace Rahgozar.Desktop.SignIn

open Drive (OAuthError OAuthTokens splitOnce utf8)
open Proxy.Mitm (fromUtf8)
open Udpgw (fromUtf8Lossy)
open Update.Download (lines splitWhitespace)

def maxReqBytes : Nat := 8 * 1024

/-! ## The environment -/

/-- What a read brings: bytes, none of them at the end of the connection, or an error. -/
inductive ReadOutcome where
  | data (bytes : List UInt8)
  | failed
deriving DecidableEq

/-- The outcomes of its reads. -/
abbrev Connection := List ReadOutcome

/-- What `accept` brings. -/
inductive Accepted where
  | connection (c : Connection)
  | failed (e : String)
deriving DecidableEq

/-- The other code that a sign-in calls. -/
structure SignInPlatform where
  Http : Type
  buildDriveHttpClient : (googleIp : Option (List Char)) → Except String Http
  exchangeAuthorizationCode : Http →
    (code redirectUri codeVerifier clientId clientSecret : List Char) →
    Except OAuthError OAuthTokens
  display : OAuthError → String

/-- The arguments of the listener. -/
structure Flow where
  codeVerifier : List Char
  expectedState : List Char
  redirectUri : List Char
  oauthClientId : List Char
  oauthClientSecret : List Char
  googleIp : List Char

structure OAuthCompletion where
  refreshToken : List Char
  oauthClientId : List Char
  oauthClientSecret : List Char
  email : List Char
deriving DecidableEq

/-! ## The head of a request -/

/-- How reading the head of a request ends. -/
inductive Head where
  | deadline
  | closed
  | tooLarge
  | text (request : List Char)
deriving DecidableEq

def headEnd : List Char := "\r\n\r\n".toList

/-- The bytes are looked at as a whole after each read. -/
def readHead (filled : List UInt8) : Connection → Head
  | [] => .deadline
  | .failed :: _ => .closed
  | .data bytes :: reads =>
      let got := bytes.take (maxReqBytes - filled.length)
      if got.isEmpty then .closed
      else
        let filled := filled ++ got
        match (fromUtf8 filled).filter (headEnd <:+: ·) with
        | some s => .text s
        | none => if maxReqBytes ≤ filled.length then .tooLarge else readHead filled reads

/-! ## The parameters of the callback -/

def hexDigit (b : UInt8) : Option UInt8 :=
  if 48 ≤ b ∧ b ≤ 57 then some (b - 48)
  else if 97 ≤ b ∧ b ≤ 102 then some (b - 97 + 10)
  else if 65 ≤ b ∧ b ≤ 70 then some (b - 65 + 10)
  else none

/-- The loop of `url_decode_ascii`. -/
def urlDecodeBytes : List UInt8 → List UInt8
  | [] => []
  | 43 :: rest => 32 :: urlDecodeBytes rest
  | 37 :: a :: b :: rest =>
      match hexDigit a, hexDigit b with
      | some hi, some lo => (hi <<< 4 ||| lo) :: urlDecodeBytes rest
      | _, _ => 37 :: urlDecodeBytes (a :: b :: rest)
  | other :: rest => other :: urlDecodeBytes rest

def urlDecodeAscii (s : List Char) : List Char := fromUtf8Lossy (urlDecodeBytes (utf8 s))

structure CallbackParams where
  code : Option (List Char)
  stateParam : Option (List Char)
  errorParam : Option (List Char)
deriving DecidableEq

/-- One pair of the query. -/
def CallbackParams.note (p : CallbackParams) (pair : List Char) : CallbackParams :=
  match splitOnce ['='] pair with
  | none => p
  | some (k, v) =>
      let decoded := urlDecodeAscii v
      if k = "code".toList then { p with code := some decoded }
      else if k = "state".toList then { p with stateParam := some decoded }
      else if k = "error".toList then { p with errorParam := some decoded }
      else p

def callbackParams (query : List Char) : CallbackParams :=
  (query.splitOn '&').foldl CallbackParams.note ⟨none, none, none⟩

/-! ## Answers -/

/-- `http_response`, which knows one of the answers it is asked for. -/
def httpResponse (status : Nat) (body : String) : String :=
  if status = 404 ∧ body = "Not the callback path" then
    "HTTP/1.1 404 Not Found\r\nContent-Type: text/plain; charset=utf-8\r\n" ++
      "Content-Length: 21\r\nConnection: close\r\n\r\nNot the callback path"
  else
    "HTTP/1.1 500 Internal Server Error\r\nContent-Type: text/plain; charset=utf-8\r\n" ++
      "Content-Length: 21\r\nConnection: close\r\n\r\nInternal server error"

def htmlEscape (reason : String) : String :=
  String.ofList (reason.toList.flatMap fun c =>
    if c = '&' then "&amp;".toList
    else if c = '<' then "&lt;".toList
    else if c = '>' then "&gt;".toList
    else [c])

def htmlHead (title : String) : String :=
  "<!DOCTYPE html><html lang=\"en\"><head><meta charset=\"utf-8\"><title>" ++ title ++
    "</title></head><body style=\"font-family:system-ui,sans-serif;text-align:center;" ++
    "padding:3em;\">"

def htmlResponse (body : String) : String :=
  "HTTP/1.1 200 OK\r\nContent-Type: text/html; charset=utf-8\r\nContent-Length: " ++
    toString body.utf8ByteSize ++ "\r\nConnection: close\r\n\r\n" ++ body

def errorResponseHtml (reason : String) : String :=
  htmlResponse (htmlHead "rahgozar OAuth failed" ++ "<h1>Sign-in failed.</h1><p>Reason: <code>" ++
    htmlEscape reason ++ "</code></p><p>You can close this tab and try again.</p></body></html>")

def successResponseHtml : String :=
  htmlResponse (htmlHead "rahgozar OAuth complete" ++ "<h1>Signed in.</h1>" ++
    "<p>You can close this tab and return to rahgozar.</p></body></html>")

/-- The parameters of a callback, or the answer to another request. -/
def parseRequest (request : List Char) : Except String CallbackParams :=
  match (lines request).head? with
  | none => .error (httpResponse 400 "Empty callback request")
  | some requestLine =>
      match splitWhitespace requestLine with
      | _ :: pathAndQuery :: _ =>
          let (path, query) := (splitOnce ['?'] pathAndQuery).getD (pathAndQuery, [])
          if "/cb".toList.isPrefixOf path then .ok (callbackParams query)
          else .error (httpResponse 404 "Not the callback path")
      | _ => .error (httpResponse 400 "Malformed callback request")

/-! ## The loop -/

/-- How the accept loop ends. -/
inductive LoopExit where
  | timedOut
  | acceptFailed (e : String)
  | refused (err : List Char)
  | redirected (code : List Char)
deriving DecidableEq

/-- What a connection comes to: the loop goes on, or ends. -/
inductive Verdict where
  | next (answer : Option String)
  | stop (answer : Option String) (exit : LoopExit)

def hearParams (expectedState : List Char) (p : CallbackParams) : Verdict :=
  match p.errorParam with
  | some err => .stop (some (errorResponseHtml (String.ofList err))) (.refused err)
  | none =>
      match p.code with
      | none => .next (some (errorResponseHtml "callback URL missing code"))
      | some code =>
          match p.stateParam with
          | none => .next (some (errorResponseHtml "callback URL missing state"))
          | some stateRecv =>
              if stateRecv ≠ expectedState then
                .next (some (errorResponseHtml "state token mismatch"))
              else .stop none (.redirected code)

def hear (expectedState : List Char) (c : Connection) : Verdict :=
  match readHead [] c with
  | .deadline => .stop none .timedOut
  | .closed => .next none
  | .tooLarge => .next (some (httpResponse 413 "OAuth callback request too large"))
  | .text request =>
      match parseRequest request with
      | .error answer => .next (some answer)
      | .ok p => hearParams expectedState p

/-- The answers that are written, and the end of the loop. -/
structure LoopRun where
  answers : List String
  exit : LoopExit
deriving DecidableEq

def acceptLoop (expectedState : List Char) : List Accepted → LoopRun
  | [] => ⟨[], .timedOut⟩
  | .failed e :: _ => ⟨[], .acceptFailed e⟩
  | .connection c :: more =>
      match hear expectedState c with
      | .next answer =>
          let r := acceptLoop expectedState more
          { r with answers := answer.toList ++ r.answers }
      | .stop answer exit => ⟨answer.toList, exit⟩

/-! ## The exchange -/

def timedOutMessage : String :=
  "OAuth callback timed out after 5 minutes (browser flow not completed)"

def oauthErrorToFriendly (pf : SignInPlatform) (e : OAuthError) : String :=
  match e with
  | .endpoint _ status _ =>
      if status = 400 ∨ status = 401 then
        "Google rejected the OAuth refresh — the saved token is no longer valid. " ++
          "Sign in again to get a fresh one."
      else if status = 403 then
        "Google refused the OAuth refresh with 403. The OAuth client may have been " ++
          "revoked, or the account is restricted from accessing Drive."
      else "OAuth error: " ++ pf.display e
  | .transport =>
      "Network error reaching Google's OAuth endpoint (check internet " ++
        "connectivity / `google_ip` config): " ++ pf.display e
  | _ => "OAuth error: " ++ pf.display e

/-- What a sign-in comes to: its result, the code that was exchanged, and the answers. -/
structure Outcome where
  result : Except String OAuthCompletion
  exchanged : Option (List Char)
  answers : List String

/-- What follows the loop when the redirect has come. -/
def exchange (pf : SignInPlatform) (flow : Flow) (code : List Char) : Outcome :=
  let googleIpOpt := if flow.googleIp.isEmpty then none else some flow.googleIp
  match pf.buildDriveHttpClient googleIpOpt with
  | .error e =>
      let msg := "failed to build HTTP client: " ++ e
      ⟨.error msg, none, [errorResponseHtml msg]⟩
  | .ok http =>
      match pf.exchangeAuthorizationCode http code flow.redirectUri flow.codeVerifier
        flow.oauthClientId flow.oauthClientSecret with
      | .error e =>
          let msg := oauthErrorToFriendly pf e
          ⟨.error msg, some code, [errorResponseHtml msg]⟩
      | .ok tokens =>
          match tokens.refreshToken with
          | none =>
              let msg := "OAuth response did not include a refresh_token (this is unexpected — " ++
                "try again)"
              ⟨.error msg, some code, [errorResponseHtml msg]⟩
          | some t =>
              ⟨.ok ⟨t, flow.oauthClientId, flow.oauthClientSecret, []⟩, some code,
                [successResponseHtml]⟩

def LoopExit.outcome (pf : SignInPlatform) (flow : Flow) : LoopExit → Outcome
  | .timedOut => ⟨.error timedOutMessage, none, []⟩
  | .acceptFailed e => ⟨.error ("accept callback: " ++ e), none, []⟩
  | .refused err =>
      ⟨.error ("OAuth flow returned error from Google: " ++ String.ofList err), none, []⟩
  | .redirected code => exchange pf flow code

def runOauthCallbackListener (pf : SignInPlatform) (flow : Flow) (cs : List Accepted) : Outcome :=
  let r := acceptLoop flow.expectedState cs
  let o := r.exit.outcome pf flow
  { o with answers := r.answers ++ o.answers }

end Rahgozar.Desktop.SignIn
