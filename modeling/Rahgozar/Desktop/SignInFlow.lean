import Rahgozar.Desktop.SignIn

set_option autoImplicit false

/-! # What ends a sign-in

A request is foreign if it does not carry the state of the sign-in. The listener passes over a
foreign request, with two exceptions: an `error` parameter ends the flow before the state is looked
at, and a connection that stays silent keeps the others waiting until the deadline.
-/

namespace Rahgozar.Desktop.SignIn

/-! ## The law -/

/-- The callback that a connection asks for. -/
def request (c : Connection) : Option CallbackParams :=
  match readHead [] c with
  | .text text => (parseRequest text).toOption
  | _ => none

def Foreign (expectedState : List Char) : Accepted → Prop
  | .connection c => (request c).bind CallbackParams.stateParam ≠ some expectedState
  | .failed _ => False

/-- The second list is the first one without some of the elements with `P`. -/
inductive Without {α : Type} (P : α → Prop) : List α → List α → Prop where
  | nil : Without P [] []
  | keep (a : α) {l l' : List α} (h : Without P l l') : Without P (a :: l) (a :: l')
  | drop {a : α} (ha : P a) {l l' : List α} (h : Without P l l') : Without P (a :: l) l'

/-- The loop still waits before the connection, and has ended behind it. -/
def EndedBy (expectedState : List Char) (cs : List Accepted) (c : Connection) : Prop :=
  ∃ before after, cs = before ++ .connection c :: after ∧
    (acceptLoop expectedState before).exit = .timedOut ∧
    (acceptLoop expectedState (before ++ [.connection c])).exit ≠ .timedOut

/-- Only the genuine redirect ends a sign-in. -/
structure Law (pf : SignInPlatform) (flow : Flow) (cs : List Accepted) : Prop where
  ended : (acceptLoop flow.expectedState cs).exit = .timedOut ∨
    (∃ e, (acceptLoop flow.expectedState cs).exit = .acceptFailed e ∧ .failed e ∈ cs) ∨
    ∃ c p, EndedBy flow.expectedState cs c ∧ request c = some p ∧
      p.stateParam = some flow.expectedState
  exchanged : ∀ code, (runOauthCallbackListener pf flow cs).exchanged = some code →
    ∃ c p, EndedBy flow.expectedState cs c ∧ request c = some p ∧
      p.stateParam = some flow.expectedState ∧ p.code = some code
  unmade : ∀ cs', Without (Foreign flow.expectedState) cs cs' →
    (runOauthCallbackListener pf flow cs').result = (runOauthCallbackListener pf flow cs).result ∧
    (runOauthCallbackListener pf flow cs').exchanged =
      (runOauthCallbackListener pf flow cs).exchanged

/-- The connection is heard before the deadline, and asks for no callback with an error. -/
structure Harmless (c : Connection) : Prop where
  heard : readHead [] c ≠ .deadline
  noError : ∀ p, request c = some p → p.errorParam = none

/-! ## One connection -/

variable {expectedState : List Char} {c : Connection} {p : CallbackParams} {answer : Option String}
  {exit : LoopExit} {cs cs' before after : List Accepted}

theorem hear_of_request (h : request c = some p) :
    hear expectedState c = hearParams expectedState p := by
  unfold request at h
  unfold hear
  split at h
  next text htext =>
    rw [htext]
    dsimp only
    cases hp : parseRequest text with
    | error answer => simp [hp, Except.toOption] at h
    | ok p' =>
        rw [hp] at h
        rw [Option.some.inj h]
  · cases h

/-- Without a callback the loop goes on, unless the deadline has come. -/
theorem hear_of_no_request (expectedState : List Char) (h : request c = none) :
    (readHead [] c = .deadline ∧ hear expectedState c = .stop none .timedOut) ∨
      ∃ answer, hear expectedState c = .next answer := by
  unfold request at h
  unfold hear
  cases hhead : readHead [] c with
  | deadline => exact .inl ⟨rfl, rfl⟩
  | closed => exact .inr ⟨_, rfl⟩
  | tooLarge => exact .inr ⟨_, rfl⟩
  | text text =>
      rw [hhead] at h
      dsimp only at h ⊢
      cases hp : parseRequest text with
      | error answer => exact .inr ⟨_, rfl⟩
      | ok p => simp [hp, Except.toOption] at h

/-- A callback ends the loop with its error, or with its code if it has the state. -/
theorem hearParams_stop (h : hearParams expectedState p = .stop answer exit) :
    (∃ err, p.errorParam = some err ∧ exit = .refused err) ∨
      ∃ code, p.stateParam = some expectedState ∧ p.code = some code ∧ exit = .redirected code := by
  unfold hearParams at h
  split at h
  next err herr =>
    cases h
    exact .inl ⟨err, herr, rfl⟩
  · split at h
    · cases h
    next code hcode =>
      split at h
      · cases h
      next stateRecv hstate =>
        split_ifs at h with hne
        cases h
        exact .inr ⟨code, by rw [hstate, not_not.mp hne], hcode, rfl⟩

theorem hear_stop (h : hear expectedState c = .stop answer exit) :
    (readHead [] c = .deadline ∧ exit = .timedOut) ∨
    ∃ p, request c = some p ∧ ((∃ err, p.errorParam = some err ∧ exit = .refused err) ∨
      ∃ code, p.stateParam = some expectedState ∧ p.code = some code ∧
        exit = .redirected code) := by
  cases hrequest : request c with
  | none =>
      rcases hear_of_no_request expectedState hrequest with ⟨hdeadline, hstop⟩ | ⟨answer', hnext⟩
      · rw [hstop] at h
        cases h
        exact .inl ⟨hdeadline, rfl⟩
      · rw [hnext] at h
        cases h
  | some p =>
      rw [hear_of_request hrequest] at h
      exact .inr ⟨p, rfl, hearParams_stop h⟩

/-- A harmless foreign connection is passed over. -/
theorem hear_foreign (hforeign : Foreign expectedState (.connection c)) (h : Harmless c) :
    ∃ answer, hear expectedState c = .next answer := by
  cases hhear : hear expectedState c with
  | next answer => exact ⟨answer, rfl⟩
  | stop answer exit =>
      exfalso
      rcases hear_stop hhear with ⟨hdeadline, -⟩ | ⟨p, hp, ⟨err, herr, -⟩ | ⟨code, hstate, -⟩⟩
      · exact h.heard hdeadline
      · simp [h.noError p hp] at herr
      · exact hforeign (by rw [hp, Option.bind_some, hstate])

/-! ## The loop -/

/-- All of the connections are passed over. -/
def PassedOver (expectedState : List Char) (cs : List Accepted) : Prop :=
  ∀ a ∈ cs, ∃ c answer, a = .connection c ∧ hear expectedState c = .next answer

@[simp] theorem acceptLoop_nil : (acceptLoop expectedState []).exit = .timedOut := rfl

theorem acceptLoop_next (h : hear expectedState c = .next answer) (more : List Accepted) :
    (acceptLoop expectedState (.connection c :: more)).exit =
      (acceptLoop expectedState more).exit := by
  simp only [acceptLoop, h]

theorem acceptLoop_stop (h : hear expectedState c = .stop answer exit) (more : List Accepted) :
    (acceptLoop expectedState (.connection c :: more)).exit = exit := by
  simp only [acceptLoop, h]

theorem acceptLoop_passedOver (h : PassedOver expectedState before) (more : List Accepted) :
    (acceptLoop expectedState (before ++ more)).exit = (acceptLoop expectedState more).exit := by
  induction before with
  | nil => rfl
  | cons a before ih =>
      obtain ⟨c, answer, rfl, hnext⟩ := h a List.mem_cons_self
      rw [List.cons_append, acceptLoop_next hnext, ih fun b hb => h b (List.mem_cons_of_mem _ hb)]

/-- The loop passes over some connections and ends at the next outcome, or waits until the
deadline. -/
theorem acceptLoop_cases (expectedState : List Char) (cs : List Accepted) :
    PassedOver expectedState cs ∨ ∃ before a after, cs = before ++ a :: after ∧
      PassedOver expectedState before ∧ ((∃ e, a = .failed e) ∨
        ∃ c answer exit, a = .connection c ∧ hear expectedState c = .stop answer exit) := by
  induction cs with
  | nil => exact .inl (by simp [PassedOver])
  | cons a cs ih =>
      have hstop : ((∃ e, a = .failed e) ∨
          ∃ c answer exit, a = .connection c ∧ hear expectedState c = .stop answer exit) ∨
          ∃ c answer, a = .connection c ∧ hear expectedState c = .next answer := by
        cases a with
        | failed e => exact .inl (.inl ⟨e, rfl⟩)
        | connection c =>
            cases hhear : hear expectedState c with
            | next answer => exact .inr ⟨c, answer, rfl, hhear⟩
            | stop answer exit => exact .inl (.inr ⟨c, answer, exit, rfl, hhear⟩)
      rcases hstop with hstop | hnext
      · exact .inr ⟨[], a, cs, rfl, by simp [PassedOver], hstop⟩
      · have hcons : ∀ l, PassedOver expectedState l → PassedOver expectedState (a :: l) := by
          intro l hl b hb
          rcases List.mem_cons.mp hb with rfl | hb
          · exact hnext
          · exact hl b hb
        rcases ih with hall | ⟨before, b, after, rfl, hbefore, hb⟩
        · exact .inl (hcons cs hall)
        · exact .inr ⟨a :: before, b, after, rfl, hcons before hbefore, hb⟩

/-- What ends the loop, if all foreign connections are harmless. -/
theorem exit_cases
    (h : ∀ c, .connection c ∈ cs → Foreign expectedState (.connection c) → Harmless c) :
    (acceptLoop expectedState cs).exit = .timedOut ∨
    (∃ e, (acceptLoop expectedState cs).exit = .acceptFailed e ∧ .failed e ∈ cs) ∨
    ∃ c p, EndedBy expectedState cs c ∧ request c = some p ∧ p.stateParam = some expectedState ∧
      ((∃ err, (acceptLoop expectedState cs).exit = .refused err) ∨
        ∃ code, p.code = some code ∧ (acceptLoop expectedState cs).exit = .redirected code) := by
  rcases acceptLoop_cases expectedState cs with hall | ⟨before, a, after, rfl, hbefore, ha⟩
  · left
    simpa using acceptLoop_passedOver hall []
  · rw [acceptLoop_passedOver hbefore]
    rcases ha with ⟨e, rfl⟩ | ⟨c, answer, exit, rfl, hstop⟩
    · exact .inr (.inl ⟨e, rfl, by simp⟩)
    · rw [acceptLoop_stop hstop]
      have hwaits : (acceptLoop expectedState before).exit = .timedOut := by
        simpa using acceptLoop_passedOver hbefore []
      have hended : exit ≠ .timedOut →
          EndedBy expectedState (before ++ .connection c :: after) c := by
        intro hne
        refine ⟨before, after, rfl, hwaits, ?_⟩
        rwa [acceptLoop_passedOver hbefore, acceptLoop_stop hstop]
      -- a foreign connection would have been passed over
      have hgenuine : ¬ Foreign expectedState (.connection c) := by
        intro hforeign
        obtain ⟨answer', hnext⟩ := hear_foreign hforeign (h c (by simp) hforeign)
        rw [hnext] at hstop
        cases hstop
      rcases hear_stop hstop with ⟨-, rfl⟩ | ⟨p, hp, hend⟩
      · exact .inl rfl
      · have hstate : p.stateParam = some expectedState := by
          by_contra hne
          exact hgenuine (by rwa [Foreign, hp, Option.bind_some])
        rcases hend with ⟨err, herr, rfl⟩ | ⟨code, -, hcode, rfl⟩
        · exact .inr (.inr ⟨c, p, hended (by simp), hp, hstate, .inl ⟨err, rfl⟩⟩)
        · exact .inr (.inr ⟨c, p, hended (by simp), hp, hstate, .inr ⟨code, hcode, rfl⟩⟩)

/-- Connections that are passed over may as well not have been made. -/
theorem exit_without {P : Accepted → Prop} (hw : Without P cs cs')
    (h : ∀ a ∈ cs, P a → PassedOver expectedState [a]) :
    (acceptLoop expectedState cs').exit = (acceptLoop expectedState cs).exit := by
  induction hw with
  | nil => rfl
  | @keep a l l' hw ih =>
      have hl := ih fun b hb => h b (List.mem_cons_of_mem a hb)
      cases a with
      | failed e => rfl
      | connection c =>
          cases hhear : hear expectedState c with
          | next answer => rw [acceptLoop_next hhear, acceptLoop_next hhear, hl]
          | stop answer exit => rw [acceptLoop_stop hhear, acceptLoop_stop hhear]
  | @drop a ha l l' hw ih =>
      rw [ih fun b hb => h b (List.mem_cons_of_mem a hb)]
      exact (acceptLoop_passedOver (h a List.mem_cons_self ha) l).symm

/-! ## The sign-in -/

variable {pf : SignInPlatform} {flow : Flow}

/-- A code is exchanged only if the loop ended with it. -/
theorem exit_of_exchanged {code : List Char}
    (h : (runOauthCallbackListener pf flow cs).exchanged = some code) :
    (acceptLoop flow.expectedState cs).exit = .redirected code := by
  have hcode : ((acceptLoop flow.expectedState cs).exit.outcome pf flow).exchanged = some code := h
  cases hexit : (acceptLoop flow.expectedState cs).exit with
  | redirected code' =>
      rw [hexit] at hcode
      unfold LoopExit.outcome exchange at hcode
      dsimp only at hcode
      split at hcode
      · cases hcode
      · split at hcode
        · rw [Option.some.inj hcode]
        · split at hcode
          · rw [Option.some.inj hcode]
          · rw [Option.some.inj hcode]
  | _ =>
      rw [hexit] at hcode
      cases hcode

theorem law_of_harmless
    (h : ∀ c, .connection c ∈ cs → Foreign flow.expectedState (.connection c) → Harmless c) :
    Law pf flow cs where
  ended := by
    rcases exit_cases h with htime | hfailed | ⟨c, p, hended, hp, hstate, -⟩
    · exact .inl htime
    · exact .inr (.inl hfailed)
    · exact .inr (.inr ⟨c, p, hended, hp, hstate⟩)
  exchanged code hcode := by
    have hexit := exit_of_exchanged hcode
    rcases exit_cases h with htime | ⟨e, hfailed, -⟩ |
      ⟨c, p, hended, hp, hstate, ⟨err, hrefused⟩ | ⟨code', hcode', hredirected⟩⟩
    · simp [hexit] at htime
    · simp [hexit] at hfailed
    · simp [hexit] at hrefused
    · rw [hexit, LoopExit.redirected.injEq] at hredirected
      exact ⟨c, p, hended, hp, hstate, hredirected ▸ hcode'⟩
  unmade cs' hw := by
    have hexit : (acceptLoop flow.expectedState cs').exit =
        (acceptLoop flow.expectedState cs).exit := by
      refine exit_without hw fun a ha hforeign b hb => ?_
      rw [List.mem_singleton.mp hb]
      cases a with
      | failed e => exact hforeign.elim
      | connection c =>
          obtain ⟨answer, hnext⟩ := hear_foreign hforeign (h c ha hforeign)
          exact ⟨c, answer, rfl, hnext⟩
    simp only [runOauthCallbackListener, hexit, and_self]

theorem hear_of_deadline (h : readHead [] c = .deadline) :
    hear expectedState c = .stop none .timedOut := by
  unfold hear
  rw [h]

/-- With a foreign connection that is not harmless, some sequence breaks the law: it ends the flow
itself, or keeps the listener from what comes behind it. -/
theorem exists_not_law (pf : SignInPlatform) (hforeign : Foreign flow.expectedState (.connection c))
    (h : ¬ Harmless c) :
    ¬ Law pf flow [.connection c] ∨ ¬ Law pf flow [.connection c, .failed ""] := by
  by_cases hdeadline : readHead [] c = .deadline
  · refine .inr fun hlaw => ?_
    have hw : Without (Foreign flow.expectedState) [.connection c, .failed ""] [.failed ""] :=
      .drop hforeign (.keep _ .nil)
    have hresult := (hlaw.unmade _ hw).1
    simp only [runOauthCallbackListener, acceptLoop_stop (hear_of_deadline hdeadline)] at hresult
    exact absurd (Except.error.inj hresult) (by decide)
  · refine .inl fun hlaw => ?_
    obtain ⟨p, hp, herr⟩ : ∃ p, request c = some p ∧ p.errorParam ≠ none := by
      by_contra hnone
      exact h ⟨hdeadline, fun p hp => by_contra fun hne => hnone ⟨p, hp, hne⟩⟩
    obtain ⟨err, herr⟩ := Option.ne_none_iff_exists'.mp herr
    have hstop : hear flow.expectedState c =
        .stop (some (errorResponseHtml (String.ofList err))) (.refused err) := by
      rw [hear_of_request hp, hearParams, herr]
    have hexit := acceptLoop_stop hstop []
    rcases hlaw.ended with htime | ⟨e, hfailed, -⟩ | ⟨c', p', hended, hp', hstate⟩
    · simp [hexit] at htime
    · simp [hexit] at hfailed
    · obtain ⟨before, after, heq, -⟩ := hended
      have hc : c' = c := by
        have hmem : Accepted.connection c' ∈ [Accepted.connection c] := by simp [heq]
        simpa using hmem
      rw [hc, hp, Option.some.injEq] at hp'
      exact hforeign (by rw [hp, Option.bind_some, hp', hstate])

/-- **What ends a sign-in.** With foreign connections out of a set, every sequence of connections
ends as it should exactly if those of the set are all harmless. -/
theorem only_genuine_redirect_ends_iff (pf : SignInPlatform) (flow : Flow) (S : Set Connection) :
    (∀ cs, (∀ c, .connection c ∈ cs → c ∈ S ∨ ¬ Foreign flow.expectedState (.connection c)) →
      Law pf flow cs) ↔
    ∀ c ∈ S, Foreign flow.expectedState (.connection c) → Harmless c := by
  constructor
  · intro hlaw c hc hforeign
    by_contra hnot
    rcases exists_not_law pf hforeign hnot with hbroken | hbroken
    · refine hbroken (hlaw _ fun c' hc' => .inl ?_)
      obtain rfl : c' = c := by simpa using hc'
      exact hc
    · refine hbroken (hlaw _ fun c' hc' => .inl ?_)
      obtain rfl : c' = c := by simpa using hc'
      exact hc
  · intro h cs hcs
    refine law_of_harmless fun c hc hforeign => ?_
    exact h c ((hcs c hc).resolve_right (not_not.mpr hforeign)) hforeign

/-! ## A web page that asks for an error -/

namespace Sample

/-- A connection on which one request is read at once. -/
def asks (target : String) : Connection :=
  [.data (Drive.utf8 ("GET " ++ target ++ " HTTP/1.1\r\n\r\n").toList)]

def errorPage : Connection := asks "/cb?error=x"

def redirect : Connection := asks "/cb?code=4/0A&state=6f"

def started : Flow := ⟨[], ['6', 'f'], [], [], [], []⟩

/-- Google issues tokens for every code. -/
def platform : SignInPlatform where
  Http := Unit
  buildDriveHttpClient _ := .ok ()
  exchangeAuthorizationCode _ code _ _ _ _ := .ok ⟨code, some code, 0, []⟩
  display _ := ""

theorem request_errorPage : request errorPage = some ⟨none, none, some ['x']⟩ := by
  decide +kernel

theorem request_redirect : request redirect = some ⟨some "4/0A".toList, some ['6', 'f'], none⟩ := by
  decide +kernel

end Sample

/-- The page's request has no state, and ends the flow before the redirect comes. -/
theorem foreign_error_ends_sign_in :
    Foreign Sample.started.expectedState (.connection Sample.errorPage) ∧
    (acceptLoop Sample.started.expectedState [.connection Sample.errorPage,
      .connection Sample.redirect]).exit = .refused ['x'] ∧
    (acceptLoop Sample.started.expectedState [.connection Sample.redirect]).exit =
      .redirected "4/0A".toList ∧
    ¬ Law Sample.platform Sample.started [.connection Sample.errorPage,
      .connection Sample.redirect] := by
  have hforeign : Foreign Sample.started.expectedState (.connection Sample.errorPage) := by
    simp [Foreign, Sample.request_errorPage]
  have hpage : hear Sample.started.expectedState Sample.errorPage =
      .stop (some (errorResponseHtml "x")) (.refused ['x']) :=
    hear_of_request Sample.request_errorPage
  have hredirect : hear Sample.started.expectedState Sample.redirect =
      .stop none (.redirected "4/0A".toList) :=
    hear_of_request Sample.request_redirect
  refine ⟨hforeign, acceptLoop_stop hpage _, acceptLoop_stop hredirect _, fun hlaw => ?_⟩
  have hresult := (hlaw.unmade _ (.drop hforeign (.keep _ .nil))).1
  simp only [runOauthCallbackListener, acceptLoop_stop hpage, acceptLoop_stop hredirect] at hresult
  cases hresult

end Rahgozar.Desktop.SignIn
