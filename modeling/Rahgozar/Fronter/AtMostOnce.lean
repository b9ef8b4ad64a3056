import Rahgozar.Lib.Run
import Rahgozar.Fronter.Relay

set_option autoImplicit false

/-! # A request with side effects is issued once

What a relay call may do for a method that is not safe to repeat: start no attempt while an
earlier one of the same call may have reached Apps Script. The h2 legs see to it with
`NonRetryable`; an answer that is an error, and every failure of an h1 leg after its flush, come
back as errors that the layers above retry. `Fate` says which of the two a pass is from what the
network did, and `relay_issuedAtMostOnce_iff` says for which fates of its passes a call keeps the
rule.
-/

namespace Rahgozar.Fronter

/-! ## The rule, over the log of a call -/

/-- Reads the log of a call; the flag says that a payload is out that Apps Script may have
executed. No attempt starts, and no payload is written, while one is out. -/
def outstanding (out : Bool) : Event → Option Bool
  | .attempt _ => if out then none else some false
  | .sent => if out then none else some true
  | .refused => some false

/-- At most one payload that was not refused is written, and no attempt starts after it. -/
def IssuedAtMostOnce (log : List Event) : Prop :=
  log.count .sent ≤ log.count .refused + 1 ∧ (StepRun.run outstanding false log).isSome

theorem count_le_of_outstanding {out out' : Bool} {log : List Event}
    (h : StepRun.run outstanding out log = some out') :
    log.count .sent + out.toNat ≤ log.count .refused + out'.toNat := by
  induction log generalizing out with
  | nil =>
      cases h
      simp
  | cons e log ih =>
      rw [StepRun.run_cons] at h
      cases out <;> cases e <;> simp [outstanding] at h <;> have := ih h <;>
        simp at this ⊢ <;> omega

theorem issuedAtMostOnce_iff (log : List Event) :
    IssuedAtMostOnce log ↔ (StepRun.run outstanding false log).isSome := by
  refine ⟨fun h => h.2, fun h => ⟨?_, h⟩⟩
  obtain ⟨out, hout⟩ := Option.isSome_iff_exists.mp h
  have hcount := count_le_of_outstanding hout
  have : out.toNat ≤ 1 := Bool.toNat_le out
  simp only [Bool.toNat_false] at hcount
  omega

/-- A leg leaves its payload out when it wrote it and was not refused. -/
theorem run_written (sent refused : Bool) :
    StepRun.run outstanding false (written sent refused) = some (sent && !refused) := by
  cases sent <;> cases refused <;> rfl

theorem run_h1_log (w : H1World) :
    StepRun.run outstanding false w.log = some (w.sent && !w.refused) :=
  run_written w.sent w.refused

/-! ## What becomes of a pass -/

/-- How a pass ends for the layers above it: with a retryable error and nothing out, with a
retryable error and its payload out, in a way that nothing follows, or with an h1 attempt after
its own h2 leg was executed. -/
inductive Fate where
  | unsent
  | lost
  | kept
  | doubled
deriving DecidableEq

def Fate.ofError (out : Bool) (e : FronterError) : Fate :=
  if e.isRetryable then (if out then .lost else .unsent) else .kept

/-- A pass whose payload is out ends with this answer: only a 200 that decodes is a success. -/
def Fate.ofAnswer (parse : Bytes → Except FronterError Bytes) (out : Bool) (r : Response) : Fate :=
  if r.status ≠ 200 then (if out then .lost else .unsent)
  else
    match parse r.body with
    | .error e => Fate.ofError out e
    | .ok _ => .kept

/-- The pass itself keeps the rule, and so does whatever follows it. -/
def Fate.Clean (f : Fate) : Prop := f ≠ .lost ∧ f ≠ .doubled

variable (parse : Bytes → Except FronterError Bytes)

/-- The fate of a pass that has come to its h1 leg. -/
def H1World.fate (w : H1World) : Fate :=
  match h1Exchange w with
  | .ok r => Fate.ofAnswer parse (w.sent && !w.refused) r
  | .err e => Fate.ofError (w.sent && !w.refused) e
  | .dropped => .kept

/-- The fate of a pass on its h2 connection. A 421 moves it to h1, whether it answers the POST
or comes at the end of the redirects. -/
def H2World.fate (w : H2World) (p : Pass) : Fate :=
  match runH2RelayWithSend w with
  | .err (_, .no) => p.h1.fate parse
  | .err (_, .maybe) => .kept
  | .dropped => .kept
  | .ok r =>
      if isH2FrontingRefusalStatus r.status then
        if p.stickyDisable then (if w.post.refused then p.h1.fate parse else .doubled) else .kept
      else Fate.ofAnswer parse true r

/-- The fate of a pass, from what its operations gave. -/
def Pass.fate (p : Pass) : Fate :=
  match p.payload, p.h2 with
  | .error e, _ => Fate.ofError false e
  | .ok _, .unavailable => p.h1.fate parse
  | .ok _, .dropped => .kept
  | .ok _, .connection w => w.fate parse p

/-! ## A pass ends as its fate says -/

/-- What a task has written and how it ends, for each fate. -/
def Ends (t : Task FronterError Bytes) : Fate → Prop
  | .unsent => StepRun.run outstanding false t.log = some false ∧
      ∃ e, t.out = .err e ∧ e.isRetryable = true
  | .lost => StepRun.run outstanding false t.log = some true ∧
      ∃ e, t.out = .err e ∧ e.isRetryable = true
  | .kept => (StepRun.run outstanding false t.log).isSome ∧
      ∀ e, t.out = .err e → e.isRetryable = false
  | .doubled => StepRun.run outstanding false t.log = none

variable {parse : Bytes → Except FronterError Bytes} {log : List Event}

theorem ends_ofError {out : Bool} {e : FronterError}
    (hlog : StepRun.run outstanding false log = some out) :
    Ends (Task.after log (Task.fail e)) (Fate.ofError out e) := by
  unfold Fate.ofError
  cases he : e.isRetryable <;> cases out <;> simp [Ends, Task.after, Task.fail, Task.lift, hlog, he]

theorem ends_dropped {out : Bool} (hlog : StepRun.run outstanding false log = some out) :
    Ends (Task.after log (Task.lift .dropped)) .kept := by
  simp [Ends, Task.after, Task.lift, hlog]

theorem ends_pure {out : Bool} (bytes : Bytes)
    (hlog : StepRun.run outstanding false log = some out) :
    Ends (Task.after log (pure bytes)) .kept := by
  simp [Ends, Task.after, Pure.pure, hlog]

/-- Legs that leave nothing out do not change what follows them. -/
theorem ends_after {t : Task FronterError Bytes} {f : Fate}
    (hlog : StepRun.run outstanding false log = some false) (h : Ends t f) :
    Ends (Task.after log t) f := by
  cases f <;> simpa [Ends, Task.after, StepRun.run_append, hlog] using h

/-- The end of a pass that has an answer: an error unless it is a 200, else the task `t`, which
decodes the body. -/
theorem ends_ofAnswer {out : Bool} {r : Response} {e : FronterError}
    {t : Task FronterError Bytes} (hlog : StepRun.run outstanding false log = some out)
    (he : e.isRetryable = true) (herr : ∀ e, parse r.body = .error e → t = Task.fail e)
    (hok : ∀ b, parse r.body = .ok b → t = pure b ∨ t = Task.lift .dropped) :
    Ends (Task.after log (if r.status ≠ 200 then Task.fail e else t))
      (Fate.ofAnswer parse out r) := by
  unfold Fate.ofAnswer
  split_ifs with hstatus hout
  · subst hout
    simpa [Fate.ofError, he] using ends_ofError (e := e) hlog
  · rw [Bool.not_eq_true] at hout
    subst hout
    simpa [Fate.ofError, he] using ends_ofError (e := e) hlog
  · cases hparse : parse r.body with
    | error e =>
        rw [herr e hparse]
        exact ends_ofError hlog
    | ok bytes =>
        rcases hok bytes hparse with h | h <;> rw [h]
        · exact ends_pure bytes hlog
        · exact ends_dropped hlog

/-- An attempt that starts while a payload is out breaks the rule. -/
theorem run_attempt_of_out {log' : List Event} (t : Transport)
    (hlog : StepRun.run outstanding false log = some true) :
    StepRun.run outstanding false (log ++ (.attempt t :: log')) = none := by
  rw [StepRun.run_append, hlog]
  rfl

variable (D : Decoders)

theorem relayOverH1_ends (p : Pass) :
    Ends (relayOverH1 D p) (p.h1.fate D.parseRelayJson) := by
  have hleg := run_h1_log p.h1
  unfold relayOverH1 H1World.fate
  cases h1Exchange p.h1 with
  | dropped => exact ends_dropped hleg
  | err e => exact ends_ofError hleg
  | ok r =>
      simp only [Task.emit_bind, Task.lift_ok_bind]
      refine ends_ofAnswer hleg rfl (fun e he => by rw [he]; rfl) fun bytes hbytes => ?_
      rw [hbytes]
      cases p.release
      · exact .inr rfl
      · exact .inl rfl

/-- The exit node's answer is decoded by its caller. -/
theorem sendPrebuiltOverH1_ends (p : Pass) :
    Ends (sendPrebuiltOverH1 D p >>= fun body =>
      Task.lift (.ofExcept (D.parseExitNodeResponse body))) (p.h1.fate D.parseExitNodeResponse) := by
  have hleg := run_h1_log p.h1
  unfold sendPrebuiltOverH1 H1World.fate
  cases h1Exchange p.h1 with
  | dropped => exact ends_dropped hleg
  | err e => exact ends_ofError hleg
  | ok r =>
      simp only [Task.emit_bind, Task.lift_ok_bind, Task.after_bind, Task.ite_bind,
        Task.fail_bind, Task.pure_bind]
      exact ends_ofAnswer hleg rfl (fun e he => by rw [he]; rfl) fun bytes hbytes =>
        .inl (by rw [hbytes]; rfl)

/-! ## The h2 leg -/

/-- A round trip that reports `no` has not written the payload. -/
theorem not_sent_of_no {t : Trip} {e : FronterError} (h : h2RoundTrip true t = .err (e, .no)) :
    t.sent = false := by
  obtain ⟨build, rdy, sendRequest, sendData, response⟩ := t
  cases build <;> cases rdy <;> cases sendRequest <;> cases sendData <;> cases response <;>
    simp_all [h2RoundTrip, Trip.sent, Except.isOk, Except.toBool]

/-- A round trip that is answered has written it. -/
theorem sent_of_answered {t : Trip} {r : Response} (h : h2RoundTrip true t = .ok r) :
    t.sent = true ∧ t.refused = isH2FrontingRefusalStatus r.status := by
  obtain ⟨build, rdy, sendRequest, sendData, response⟩ := t
  cases build <;> cases rdy <;> cases sendRequest <;> cases sendData <;> cases response <;>
    simp_all [h2RoundTrip, Trip.sent, Trip.refused, Except.isOk, Except.toBool]

/-- Past an answered POST no failure is reported as `no`. -/
theorem followRedirects_ne_no (w : H2World) (e : FronterError) (fuel i : Nat) (r : Response) :
    followRedirects w.hop fuel i r ≠ .err (e, .no) := by
  induction fuel generalizing i r with
  | zero => simp [followRedirects]
  | succ fuel ih =>
      simp only [followRedirects]
      split_ifs
      · cases headerGet r.headers "location" with
        | none => simp
        | some loc =>
            cases hhop : h2RoundTrip false (w.hops i) with
            | ok r => simpa [H2World.hop, hhop, Out.mapErr] using ih (i + 1) r
            | err e => simp [H2World.hop, hhop, Out.mapErr]
            | dropped => simp [H2World.hop, hhop, Out.mapErr]
      · simp

/-- A refused POST is not redirected. -/
theorem followRedirects_refusal {ε : Type} (hop : Nat → Out ε Response) (fuel i : Nat)
    {r : Response} (h : isH2FrontingRefusalStatus r.status = true) :
    followRedirects hop fuel i r = .ok r := by
  have h421 : r.status = 421 := by simpa [isH2FrontingRefusalStatus] using h
  cases fuel <;> simp [followRedirects, isRedirectStatus, h421]

variable {w : H2World}

/-- What is out after an h2 leg that failed before it sent, -/
theorem run_log_of_no {e : FronterError} (h : runH2RelayWithSend w = .err (e, .no)) :
    StepRun.run outstanding false (EnsureH2.connection w).written = some false := by
  have hsent : w.post.sent = false := by
    unfold runH2RelayWithSend at h
    cases hpost : h2RoundTrip true w.post with
    | ok r =>
        rw [hpost] at h
        exact absurd h (followRedirects_ne_no w e _ _ r)
    | err e =>
        rw [hpost] at h
        cases h
        exact not_sent_of_no hpost
    | dropped => simp [hpost] at h
  simp [EnsureH2.written, run_written, hsent]

/-- and after one that was answered. -/
theorem run_log_of_ok {r : Response} (h : runH2RelayWithSend w = .ok r) :
    StepRun.run outstanding false (EnsureH2.connection w).written = some (!w.post.refused) ∧
      (w.post.refused = true → isH2FrontingRefusalStatus r.status = true) := by
  unfold runH2RelayWithSend at h
  cases hpost : h2RoundTrip true w.post with
  | err e => simp [hpost] at h
  | dropped => simp [hpost] at h
  | ok r0 =>
      obtain ⟨hsent, hrefused⟩ := sent_of_answered hpost
      rw [hpost, Out.ok_bind] at h
      constructor
      · simp [EnsureH2.written, run_written, hsent]
      · intro hr
        rw [hrefused] at hr
        rw [followRedirects_refusal _ _ _ hr] at h
        cases h
        exact hr

/-! ## The passes -/

/-- A pass over both transports, with its h1 leg `overH1` and the continuations `ok` and `err` of
its h2 leg. -/
theorem transports_end {p : Pass} {overH1 : Task FronterError Bytes}
    {ok : Response → Task FronterError Bytes}
    {err : FronterError × RequestSent → Task FronterError Bytes}
    (hh1 : Ends overH1 (p.h1.fate parse))
    (hstart : ∃ l, overH1.log = .attempt .h1 :: l)
    (hrefusal : ∀ r : Response, isH2FrontingRefusalStatus r.status = true →
      ok r = Task.lift (.await p.stickyDisable) >>= fun _ => overH1)
    (hok : ∀ (r : Response) (log : List Event), isH2FrontingRefusalStatus r.status = false →
      StepRun.run outstanding false log = some true →
      Ends (Task.after log (ok r)) (Fate.ofAnswer parse true r))
    (hno : ∀ e, err (e, .no) = overH1)
    (hmaybe : ∀ e, err (e, .maybe) = Task.fail (.nonRetryable e)) (hpayload : p.payload = .ok ()) :
    Ends (Task.after [.attempt .h2]
      (Task.after p.h2.written ((Task.lift (h2RelayRequest p.h2)).handle ok err)))
      (p.fate parse) := by
  unfold Pass.fate
  rw [hpayload]
  refine ends_after rfl ?_
  cases hh2 : p.h2 with
  | unavailable =>
      -- nothing went out over h2
      simp only [h2RelayRequest, Task.lift_err_handle, hno]
      exact ends_after rfl hh1
  | dropped =>
      have hnil : StepRun.run outstanding false [] = some false := rfl
      exact ends_dropped hnil
  | connection w =>
      have hleg := run_written w.post.sent w.post.refused
      simp only [h2RelayRequest, H2World.fate]
      cases hrun : runH2RelayWithSend w with
      | dropped => exact ends_dropped hleg
      | err es =>
          obtain ⟨e, _ | _⟩ := es
          · simp only [Task.lift_err_handle, hno]
            exact ends_after (run_log_of_no hrun) hh1
          · simp only [Task.lift_err_handle, hmaybe]
            exact ends_ofError hleg
      | ok r =>
          obtain ⟨hout, hrefused⟩ := run_log_of_ok hrun
          simp only [Task.lift_ok_handle]
          cases hr : isH2FrontingRefusalStatus r.status with
          | false =>
              have : w.post.refused = false := by
                cases h : w.post.refused with
                | false => rfl
                | true => simp [hrefused h] at hr
              rw [this] at hout
              simpa using hok r _ hr hout
          | true =>
              -- the edge refuses: what counts is whether the origin has seen the request
              rw [hrefusal r hr]
              cases p.stickyDisable with
              | false => exact ends_dropped hleg
              | true =>
                  cases hpost : w.post.refused with
                  | true =>
                      rw [hpost] at hout
                      exact ends_after hout hh1
                  | false =>
                      rw [hpost] at hout
                      -- it may have, and the h1 leg sends it again
                      obtain ⟨l, hl⟩ := hstart
                      change StepRun.run outstanding false (_ ++ overH1.log) = none
                      rw [hl]
                      exact run_attempt_of_out .h1 hout

theorem ends_of_payload_error {e : FronterError} {p : Pass} (hpayload : p.payload = .error e) :
    Ends (Task.after [.attempt .h2] (Task.fail e)) (p.fate parse) := by
  have hstart : StepRun.run outstanding false [.attempt .h2] = some false := rfl
  unfold Pass.fate
  rw [hpayload]
  exact ends_ofError hstart

/-- A direct pass, for a method that is not safe to repeat. -/
theorem doRelayOnceWith_ends {method : String} (hmethod : isMethodSafeForFanout method = false)
    (p : Pass) : Ends (doRelayOnceWith D method p) (p.fate D.parseRelayJson) := by
  unfold doRelayOnceWith
  cases hpayload : p.payload with
  | error e => exact ends_of_payload_error hpayload
  | ok _ =>
      refine transports_end (relayOverH1_ends D p) ⟨_, rfl⟩ (fun r hr => if_pos hr)
        (fun r log hr hlog => ?_) (fun e => rfl) (fun e => ?_) hpayload
      · simp only [hr, Bool.false_eq_true, if_false]
        exact ends_ofAnswer hlog rfl (fun e he => by rw [he]; rfl) fun bytes hbytes =>
          .inl (by rw [hbytes]; rfl)
      · simp only [hmethod, Bool.false_eq_true, if_false]

/-- The pass through the exit node. -/
theorem relayViaExitNode_ends (p : Pass) :
    Ends (relayViaExitNode D p) (p.fate D.parseExitNodeResponse) := by
  unfold relayViaExitNode
  cases hpayload : p.payload with
  | error e => exact ends_of_payload_error hpayload
  | ok _ =>
      simp only [Out.ofExcept, Task.lift_ok_bind, sendPrebuiltPayloadThroughRelay, Task.emit_bind,
        Task.after_bind, Task.lift_handle_bind]
      refine transports_end (sendPrebuiltOverH1_ends D p) ?_ (fun r hr => ?_)
        (fun r log hr hlog => ?_) (fun e => rfl) (fun e => rfl) hpayload
      · simp only [sendPrebuiltOverH1, Task.emit_bind, Task.after_bind]
        exact ⟨_, rfl⟩
      · simp only [hr, if_true]
        cases p.stickyDisable <;> rfl
      · simp only [hr, Bool.false_eq_true, if_false, Task.ite_bind, Task.fail_bind,
          Task.pure_bind]
        exact ends_ofAnswer hlog rfl (fun e he => by rw [he]; rfl) fun bytes hbytes =>
          .inl (by rw [hbytes]; rfl)

/-! ## The call -/

/-- A pass that is followed by `next` when its error is retryable. -/
theorem run_handle_iff {δ β : Type} {t : Task FronterError Bytes} {f : Fate} {next : Task δ β}
    {ok : Bytes → Task δ β} {err : FronterError → Task δ β} (hends : Ends t f)
    (hok : ∀ bytes, (ok bytes).log = []) (hstop : ∀ e, e.isRetryable = false → (err e).log = [])
    (hretry : ∀ e, e.isRetryable = true → err e = next)
    (hstart : ∃ leg l, next.log = .attempt leg :: l) :
    (StepRun.run outstanding false (t.handle ok err).log).isSome ↔
      f.Clean ∧ (f = .unsent → (StepRun.run outstanding false next.log).isSome) := by
  cases f with
  | unsent =>
      obtain ⟨hlog, e, he, hr⟩ := hends
      simp [Task.handle, he, hretry e hr, StepRun.run_append, hlog, Fate.Clean]
  | lost =>
      obtain ⟨hlog, e, he, hr⟩ := hends
      obtain ⟨leg, l, hl⟩ := hstart
      simp [Task.handle, he, hretry e hr, hl, run_attempt_of_out leg hlog, Fate.Clean]
  | kept =>
      obtain ⟨hlog, hr⟩ := hends
      cases hout : t.out with
      | ok bytes => simp [Task.handle, hout, hok, hlog, Fate.Clean]
      | err e => simp [Task.handle, hout, hstop e (hr e hout), hlog, Fate.Clean]
      | dropped => simp [Task.handle, hout, hlog, Fate.Clean]
  | doubled =>
      replace hends : StepRun.run outstanding false t.log = none := hends
      cases hout : t.out <;> simp [Task.handle, hout, StepRun.run_append, hends, Fate.Clean]

/-- The pass keeps the rule on its own unless it is `doubled`. -/
theorem run_isSome_iff {t : Task FronterError Bytes} {f : Fate} (hends : Ends t f) :
    (StepRun.run outstanding false t.log).isSome ↔ f ≠ .doubled := by
  cases f <;> simp_all [Ends]

theorem doRelayWithRetry_run_iff (c : Config) {method : String}
    (hmethod : isMethodSafeForFanout method = false) (fan : List Pass) (first second : Pass) :
    (StepRun.run outstanding false (doRelayWithRetry D c method fan first second).log).isSome ↔
      (first.fate D.parseRelayJson).Clean ∧ (first.fate D.parseRelayJson = .unsent →
        second.fate D.parseRelayJson ≠ .doubled) := by
  have hseq : ¬ (2 ≤ c.fan ∧ isMethodSafeForFanout method) := by simp [hmethod]
  rw [doRelayWithRetry, if_neg hseq, run_handle_iff (doRelayOnceWith_ends D hmethod first)
    (fun bytes => rfl) (fun e he => by simp [he, Task.fail, Task.lift])
    (fun e he => by simp only [he, if_true]; rfl) ⟨_, _, rfl⟩,
    run_isSome_iff (doRelayOnceWith_ends D hmethod second)]

theorem doRelayWithRetry_starts (c : Config) {method : String}
    (hmethod : isMethodSafeForFanout method = false) (fan : List Pass) (first second : Pass) :
    ∃ leg l, (doRelayWithRetry D c method fan first second).log = .attempt leg :: l := by
  have hseq : ¬ (2 ≤ c.fan ∧ isMethodSafeForFanout method) := by simp [hmethod]
  have hfirst : ∃ l, (doRelayOnceWith D method first).log = .attempt .h2 :: l := ⟨_, rfl⟩
  obtain ⟨l, hl⟩ := hfirst
  rw [doRelayWithRetry, if_neg hseq]
  obtain ⟨rest, hrest⟩ := Task.handle_log (doRelayOnceWith D method first) pure fun e =>
    if e.isRetryable then doRelayOnceWith D method second else Task.fail e.intoInner
  exact ⟨.h2, l ++ rest, by rw [hrest, hl, List.cons_append]⟩

/-- A method that is not safe to repeat is neither cached nor coalesced. -/
theorem coalescible_of_unsafe {method : String} (hmethod : isMethodSafeForFanout method = false)
    (headers : List (String × String)) (body : Bytes) :
    coalescible method headers body = false := by
  have : isCacheableMethod method = false := by
    simp only [isMethodSafeForFanout, Bool.or_eq_false_iff] at hmethod
    simp [isCacheableMethod, hmethod.1.1, hmethod.1.2]
  simp [coalescible, this]

theorem relayDirect_log (c : Config) {method : String}
    (hmethod : isMethodSafeForFanout method = false) (headers : List (String × String))
    (body : Bytes) (w : World) :
    (relayDirect D c method headers body w).log =
      (doRelayWithRetry D c method w.fan w.first w.second).log := by
  simp only [relayDirect, coalescible_of_unsafe hmethod, Bool.false_eq_true, if_false,
    relayUncoalesced]
  cases (doRelayWithRetry D c method w.fan w.first w.second).out <;> rfl

/-- The condition on what the passes of a call meet. -/
def World.Clean (w : World) : Prop :=
  (w.exitNodeMatches = true → (w.exit.fate D.parseExitNodeResponse).Clean) ∧
  ((w.exitNodeMatches = true → w.exit.fate D.parseExitNodeResponse = .unsent) →
    (w.first.fate D.parseRelayJson).Clean ∧
    (w.first.fate D.parseRelayJson = .unsent → w.second.fate D.parseRelayJson ≠ .doubled))

/-- **A request with side effects.** A call issues it at most once exactly when no pass that
something follows ends in a retryable error with its payload out, and no h2 leg that was executed
falls back to h1. -/
theorem relay_issuedAtMostOnce_iff (c : Config) {method : String}
    (hmethod : isMethodSafeForFanout method = false) (headers : List (String × String))
    (body : Bytes) (w : World) :
    IssuedAtMostOnce (relay D c method headers body w).log ↔ w.Clean D := by
  have hdirect := relayDirect_log D c hmethod headers body w
  have hretry := doRelayWithRetry_run_iff D c hmethod w.fan w.first w.second
  rw [issuedAtMostOnce_iff, relay, World.Clean]
  cases hexit : w.exitNodeMatches with
  | false => simpa [hdirect] using hretry
  | true =>
      have hstart := doRelayWithRetry_starts D c hmethod w.fan w.first w.second
      rw [← hdirect] at hstart
      rw [if_pos rfl, run_handle_iff (relayViaExitNode_ends D w.exit) (fun bytes => rfl)
        (fun e he => by simp only [he]; rfl) (fun e he => by simp only [he, if_true]) hstart,
        hdirect, hretry]
      simp

/-- An edge that refuses the connection: nothing of either pass is written. -/
def connectRefused : Pass where
  payload := .ok ()
  h2 := .unavailable
  stickyDisable := true
  h1 :=
    { acquire := .err (.io "connection refused"), writeHead := .ok (), writePayload := .ok ()
      flush := .ok (), read := .err .timeout, hops := fun _ => ⟨.ok (), .ok (), .err .timeout⟩ }
  release := true

/-- An answer on h1 that does not come in time, with h2 off. -/
def readTimeout : Pass where
  payload := .ok ()
  h2 := .unavailable
  stickyDisable := true
  h1 :=
    { acquire := .ok (), writeHead := .ok (), writePayload := .ok (), flush := .ok ()
      read := .err .timeout
      hops := fun _ => ⟨.ok (), .ok (), .err .timeout⟩ }
  release := true

def plainDecoders : Decoders where
  parseRelayJson := .ok
  parseExitNodeResponse := .ok
  fromUtf8Lossy _ := ""

def readTimeoutWorld : World :=
  ⟨false, readTimeout, none, none, [], readTimeout, readTimeout⟩

/-- An answer on h1, with h2 off. -/
def answered : Pass := { readTimeout with h1.read := .ok ⟨200, [], [79, 75]⟩ }

def secondAnsweredWorld : World :=
  ⟨false, connectRefused, none, none, [], connectRefused, answered⟩

/-- A POST whose first pass gets no connection goes out in the second one, and is answered. -/
theorem relay_post_answered :
    isMethodSafeForFanout "POST" = false ∧
      Event.sent ∈ (relay plainDecoders ⟨1, 1⟩ "POST" [] [1] secondAnsweredWorld).log ∧
      (relay plainDecoders ⟨1, 1⟩ "POST" [] [1] secondAnsweredWorld).out =
        .ok (.relayed [79, 75]) ∧
      IssuedAtMostOnce (relay plainDecoders ⟨1, 1⟩ "POST" [] [1] secondAnsweredWorld).log := by
  have hpost : isMethodSafeForFanout "POST" = false := by decide +kernel
  refine ⟨hpost, by decide +kernel, by decide +kernel,
    (relay_issuedAtMostOnce_iff _ _ hpost _ _ _).mpr ?_⟩
  constructor
  · intro h
    cases h
  · intro _
    exact ⟨⟨by decide, by decide⟩, fun _ => by decide⟩

/-- A POST whose answer on h1 is late is written twice. -/
theorem relay_post_twice :
    isMethodSafeForFanout "POST" = false ∧
      ¬ IssuedAtMostOnce (relay plainDecoders ⟨1, 1⟩ "POST" [] [1] readTimeoutWorld).log := by
  have hlog : (relay plainDecoders ⟨1, 1⟩ "POST" [] [1] readTimeoutWorld).log =
      [.attempt .h2, .attempt .h1, .sent, .attempt .h2, .attempt .h1, .sent] := by
    decide +kernel
  rw [hlog]
  constructor
  · decide +kernel
  · rintro ⟨hcount, -⟩
    exact absurd hcount (by decide)

end Rahgozar.Fronter
