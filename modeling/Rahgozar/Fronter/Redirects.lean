import Rahgozar.Fronter.Transport
import Rahgozar.Drive.Filename

set_option autoImplicit false

/-! # Where redirects lead

Apps Script answers `/exec` with a redirect to another host. The loop that follows it is written
once for h2 (`run_h2_relay_with_send`) and once at each place that talks h1 (`do_relay_once_with`,
`send_prebuilt_payload_through_relay`, `tunnel_batch_request_to`). The bodies are the same but for
the host of a `Location` without one: h2 stays on the host it has got to, h1 goes back to the
first. The responses are input: `answers 0` to the POST, `answers i` to the `i`-th follow-up, with
the headers as the reader of the transport gives them.
-/

namespace Rahgozar.Fronter

open Drive (stripPrefix)

/-- The host and the path of a request. -/
abbrev Target := List Char × List Char

/-- `parse_redirect`: the path, and the host if the location is absolute. -/
def parseRedirect (location : List Char) : List Char × Option (List Char) :=
  match (stripPrefix "https://".toList location).orElse
      fun _ => stripPrefix "http://".toList location with
  | some rest =>
      let host := rest.takeWhile (· ≠ '/')
      let path := rest.drop host.length
      (if path.isEmpty then "/".toList else path, some host)
  | none => (location, none)

/-- Where a response sends the loop on to, if it does. -/
def redirectOf (r : Response) : Option (List Char × Option (List Char)) :=
  if isRedirectStatus r.status then
    (headerGet r.headers "location").map fun loc => parseRedirect loc.toList
  else none

/-- The requests made, in order, and the response that is handed on. -/
structure Conversation where
  requests : List Target
  final : Response
deriving DecidableEq

/-- The loop with `fuel` hops left. `hostOf` gives the host of the next request from the one of
the last and the one in the location. -/
def redirectLoop (hostOf : List Char → Option (List Char) → List Char) (answers : Nat → Response) :
    (fuel i : Nat) → (currentHost : List Char) → Response → Conversation
  | 0, _, _, r => ⟨[], r⟩
  | fuel + 1, i, currentHost, r =>
      match redirectOf r with
      | none => ⟨[], r⟩
      | some (rpath, rhost) =>
          let host := hostOf currentHost rhost
          let c := redirectLoop hostOf answers fuel (i + 1) host (answers i)
          ⟨(host, rpath) :: c.requests, c.final⟩

/-- The request itself, and the redirects. -/
def converse (hostOf : List Char → Option (List Char) → List Char) (httpHost path : List Char)
    (answers : Nat → Response) : Conversation :=
  let c := redirectLoop hostOf answers maxRedirects 1 httpHost (answers 0)
  ⟨(httpHost, path) :: c.requests, c.final⟩

/-- `run_h2_relay_with_send`: `current_host = rhost.unwrap_or(current_host)` -/
def runH2RelayWithSendHosts (httpHost path : List Char) (answers : Nat → Response) : Conversation :=
  converse (fun currentHost rhost => rhost.getD currentHost) httpHost path answers

/-- `rhost.unwrap_or_else(|| self.http_host.to_string())` -/
def h1Hosts (httpHost path : List Char) (answers : Nat → Response) : Conversation :=
  converse (fun _ rhost => rhost.getD httpHost) httpHost path answers

/-- The h1 part of `do_relay_once_with`. -/
def doRelayOnceWithHosts := h1Hosts

/-- The h1 part of `send_prebuilt_payload_through_relay`. -/
def sendPrebuiltPayloadThroughRelayHosts := h1Hosts

/-- `tunnel_batch_request_to` -/
def tunnelBatchRequestToHosts := h1Hosts

/-! ## How far the loops get -/

section

variable {answers : Nat → Response}

/-- Without the hosts it is the loop of the transports. -/
theorem followRedirects_eq {ε : Type} {hop : Nat → Out ε Response}
    (hhop : ∀ i, hop i = .ok (answers (i + 1)))
    (hostOf : List Char → Option (List Char) → List Char) (fuel i : Nat) (host : List Char)
    (r : Response) :
    followRedirects hop fuel i r = .ok (redirectLoop hostOf answers fuel (i + 1) host r).final := by
  induction fuel generalizing i host r with
  | zero => rfl
  | succ fuel ih =>
      unfold followRedirects redirectLoop redirectOf
      by_cases hstatus : isRedirectStatus r.status = true
      · rw [if_pos hstatus, if_pos hstatus]
        cases headerGet r.headers "location" with
        | none => rfl
        | some loc =>
            simp only [Option.map_some, hhop, Out.ok_bind]
            exact ih (i + 1) _ _
      · rw [if_neg hstatus, if_neg hstatus]

/-- An h2 relay whose round trips are all answered. -/
theorem runH2RelayWithSend_eq {w : H2World} (hpost : h2RoundTrip true w.post = .ok (answers 0))
    (hhops : ∀ i, h2RoundTrip false (w.hops i) = .ok (answers (i + 1)))
    (httpHost path : List Char) :
    runH2RelayWithSend w = .ok (runH2RelayWithSendHosts httpHost path answers).final := by
  unfold runH2RelayWithSend
  rw [hpost, Out.ok_bind]
  refine followRedirects_eq (fun i => ?_) _ _ _ _ _
  rw [H2World.hop, hhops]
  rfl

/-- An h1 exchange that sends everything and reads every answer. -/
theorem h1Exchange_eq {w : H1World} (hsend : w.send = .ok ()) (hread : w.read = .ok (answers 0))
    (hhops : ∀ i, (w.hops i).exchange = .ok (answers (i + 1))) (httpHost path : List Char) :
    h1Exchange w = .ok (h1Hosts httpHost path answers).final := by
  unfold h1Exchange
  rw [hsend, Out.ok_bind, hread, Out.ok_bind]
  exact followRedirects_eq hhops _ _ _ _ _

/-- Whatever the hosts, the same response is handed on. -/
theorem redirectLoop_final (hostOf hostOf' : List Char → Option (List Char) → List Char)
    (fuel i : Nat) (host host' : List Char) (r : Response) :
    (redirectLoop hostOf answers fuel (i + 1) host r).final =
      (redirectLoop hostOf' answers fuel (i + 1) host' r).final := by
  have h : followRedirects (fun j => .ok (answers (j + 1))) fuel i r =
      (.ok (redirectLoop hostOf' answers fuel (i + 1) host' r).final : Out Unit Response) :=
    followRedirects_eq (fun _ => rfl) ..
  rw [followRedirects_eq (fun _ => rfl) hostOf _ _ host] at h
  exact Out.ok.inj h

/-! ## Where they go -/

/-- No location without a host is followed while an earlier one has led to another host. -/
def RelativeAtHome (httpHost : List Char) (answers : Nat → Response) :
    (fuel i : Nat) → (currentHost : List Char) → Response → Prop
  | 0, _, _, _ => True
  | fuel + 1, i, currentHost, r =>
      match redirectOf r with
      | none => True
      | some (_, some host) => RelativeAtHome httpHost answers fuel (i + 1) host (answers i)
      | some (_, none) => currentHost = httpHost ∧
          RelativeAtHome httpHost answers fuel (i + 1) currentHost (answers i)

/-- The h2 loop is on `currentHost`; the h1 loop does not remember. -/
theorem redirectLoop_requests_iff (httpHost : List Char) (fuel i : Nat)
    (currentHost lastHost : List Char) (r : Response) :
    (redirectLoop (fun currentHost rhost => rhost.getD currentHost) answers fuel i currentHost
        r).requests =
      (redirectLoop (fun _ rhost => rhost.getD httpHost) answers fuel i lastHost r).requests ↔
      RelativeAtHome httpHost answers fuel i currentHost r := by
  induction fuel generalizing i currentHost lastHost r with
  | zero => exact iff_of_true rfl trivial
  | succ fuel ih =>
      unfold redirectLoop RelativeAtHome
      cases redirectOf r with
      | none => exact iff_of_true rfl trivial
      | some target =>
          obtain ⟨rpath, rhost⟩ := target
          cases rhost with
          | some host =>
              simp only [Option.getD_some, List.cons.injEq, true_and]
              exact ih (i + 1) host host (answers i)
          | none =>
              simp only [Option.getD_none, List.cons.injEq, Prod.mk.injEq, and_true]
              exact and_congr_right fun _ => ih (i + 1) currentHost httpHost (answers i)

end

/-- **Redirects.** The h2 relay and each of the h1 loops make the same requests and hand on the
same response exactly if no relative redirect is followed on another host than the first. -/
theorem redirects_agree_iff (httpHost path : List Char) (answers : Nat → Response) :
    (runH2RelayWithSendHosts httpHost path answers = doRelayOnceWithHosts httpHost path answers ∧
      runH2RelayWithSendHosts httpHost path answers =
        sendPrebuiltPayloadThroughRelayHosts httpHost path answers ∧
      runH2RelayWithSendHosts httpHost path answers =
        tunnelBatchRequestToHosts httpHost path answers) ↔
    RelativeAtHome httpHost answers maxRedirects 1 httpHost (answers 0) := by
  have hagree : runH2RelayWithSendHosts httpHost path answers = h1Hosts httpHost path answers ↔
      RelativeAtHome httpHost answers maxRedirects 1 httpHost (answers 0) := by
    rw [← redirectLoop_requests_iff httpHost maxRedirects 1 httpHost httpHost (answers 0)]
    unfold runH2RelayWithSendHosts h1Hosts converse
    rw [Conversation.mk.injEq, List.cons.injEq]
    exact ⟨fun h => h.1.2, fun h => ⟨⟨rfl, h⟩, redirectLoop_final _ _ _ 0 _ _ _⟩⟩
  exact ⟨fun h => hagree.mp h.1, fun h => ⟨hagree.mpr h, hagree.mpr h, hagree.mpr h⟩⟩

theorem redirectOf_location {status : Nat} (hstatus : isRedirectStatus status = true)
    (loc : String) (body : List UInt8) :
    redirectOf ⟨status, [("Location", loc)], body⟩ = some (parseRedirect loc.toList) := by
  have hlower : "Location".toLower = "location".toLower := by
    apply String.toList_injective
    show ("Location".map Char.toLower).toList = ("location".map Char.toLower).toList
    rw [String.toList_map, String.toList_map]
    decide
  have hfound : headerGet [("Location", loc)] "location" = some loc := by
    unfold headerGet
    rw [List.find?_cons_of_pos (by simp [hlower])]
    rfl
  unfold redirectOf
  rw [if_pos hstatus, hfound]
  rfl

/-- A redirect to another host, and there a relative one. -/
def relativeElsewhere : Nat → Response
  | 0 => ⟨302, [("Location", "https://script.googleusercontent.com/echo")], []⟩
  | 1 => ⟨302, [("Location", "/next")], []⟩
  | _ => ⟨200, [], []⟩

/-- The last request of h2 goes to `script.googleusercontent.com`, that of h1 to
`script.google.com`. -/
theorem redirects_apart :
    runH2RelayWithSendHosts "script.google.com".toList "/exec".toList relativeElsewhere ≠
      doRelayOnceWithHosts "script.google.com".toList "/exec".toList relativeElsewhere := by
  have hfirst : redirectOf (relativeElsewhere 0) =
      some ("/echo".toList, some "script.googleusercontent.com".toList) :=
    (redirectOf_location rfl _ _).trans (by decide)
  have hsecond : redirectOf (relativeElsewhere 1) = some ("/next".toList, none) :=
    (redirectOf_location rfl _ _).trans (by decide)
  have hlast : redirectOf (relativeElsewhere 2) = none := rfl
  have hloop : ∀ (hostOf : List Char → Option (List Char) → List Char) (host : List Char),
      redirectLoop hostOf relativeElsewhere (2 + 3) 1 host (relativeElsewhere 0) =
        let elsewhere := hostOf host (some "script.googleusercontent.com".toList)
        ⟨[(elsewhere, "/echo".toList), (hostOf elsewhere none, "/next".toList)],
          relativeElsewhere 2⟩ := by
    intro hostOf host
    rw [redirectLoop, hfirst]
    dsimp only
    rw [redirectLoop, hsecond]
    dsimp only
    rw [redirectLoop, hlast]
  unfold runH2RelayWithSendHosts doRelayOnceWithHosts h1Hosts converse
  dsimp only
  rw [show maxRedirects = 2 + 3 from rfl, hloop, hloop]
  decide

end Rahgozar.Fronter
