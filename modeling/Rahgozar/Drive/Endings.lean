import Rahgozar.Drive.Stream

set_option autoImplicit false

/-! # How the ends of a session tell the other that they are gone

A pump that returns without having been told to leaves the other side with a socket to close. The
frame that says so is a `Close`, or an `Error` before the relay has dialed; it must be the last one
queued, and not wait for a timer. The client queues it on every such way out. The relay's driver
does not when its socket fails.
-/

namespace Rahgozar.Drive

namespace Sender

/-- Nothing comes behind this frame. -/
def Terminal (f : WireFrame) : Prop := f.kind = .close ∨ f.kind = .error

/-- The last frame queued is terminal, and everything queued has been handed to the uploader. -/
def Ended (s : Sender) : Prop := (∃ f, s.pushed.getLast? = some f ∧ Terminal f) ∧ s.pending = []

/-- No terminal frame has been queued. -/
def Open (s : Sender) : Prop := ∀ f ∈ s.pushed, ¬ Terminal f

variable {s : Sender}

theorem Open.not_ended (h : s.Open) : ¬ s.Ended := by
  rintro ⟨⟨f, hlast, hterminal⟩, -⟩
  exact h f (List.mem_of_getLast? hlast) hterminal

theorem Open.of_pushed {t : Sender} (h : s.Open) (ht : t.pushed = s.pushed) : t.Open := by
  unfold Open
  rw [ht]
  exact h

@[simp] theorem flushC2rBatch_log (s : Sender) : s.flushC2rBatch.pushed = s.pushed := by
  unfold flushC2rBatch
  split_ifs <;> rfl

@[simp] theorem flushR2cBatch_log (s : Sender) : s.flushR2cBatch.pushed = s.pushed := by
  unfold flushR2cBatch
  split_ifs <;> rfl

theorem flushC2rBatch_pending (s : Sender) : s.flushC2rBatch.pending = [] := by
  unfold flushC2rBatch
  split_ifs with hempty
  · exact List.isEmpty_iff.mp hempty
  · rfl

theorem flushR2cBatch_pending (s : Sender) : s.flushR2cBatch.pending = [] := by
  unfold flushR2cBatch
  split_ifs with hempty
  · exact List.isEmpty_iff.mp hempty
  · rfl

theorem pushC2rFrame_log (s : Sender) (kind : FrameKind) (payload : List UInt8) (flushNow : Bool) :
    (s.pushC2rFrame kind payload flushNow).pushed
      = s.pushed ++ [buildWireFrame kind s.sid s.nextSeq payload] := by
  unfold pushC2rFrame
  dsimp only
  split_ifs
  · exact flushC2rBatch_log _
  · rfl

theorem pushR2cFrame_log (s : Sender) (kind : FrameKind) (payload : List UInt8) (flushNow : Bool) :
    (s.pushR2cFrame kind payload flushNow).pushed
      = s.pushed ++ [buildWireFrame kind s.sid s.nextSeq payload] := by
  unfold pushR2cFrame
  dsimp only
  split_ifs
  · exact flushR2cBatch_log _
  · rfl

theorem Open.concat {t : Sender} (h : s.Open) {f : WireFrame} (hf : ¬ Terminal f)
    (ht : t.pushed = s.pushed ++ [f]) : t.Open := by
  intro g hg
  rw [ht] at hg
  rcases List.mem_append.mp hg with hg | hg
  · exact h g hg
  · rw [List.mem_singleton.mp hg]
    exact hf

/-- `Eof` and `Data` are not terminal. -/
theorem not_terminal {kind : FrameKind} (hkind : kind = .eof ∨ kind = .data) (sid : SessionId)
    (seq : Nat) (payload : List UInt8) : ¬ Terminal (buildWireFrame kind sid seq payload) := by
  rcases hkind with rfl | rfl
  · exact fun h => h.elim nofun nofun
  · exact fun h => h.elim nofun nofun

theorem Open.pushR2cFrame (h : s.Open) {kind : FrameKind} (hkind : kind = .eof ∨ kind = .data)
    (payload : List UInt8) (flushNow : Bool) : (s.pushR2cFrame kind payload flushNow).Open :=
  h.concat (not_terminal hkind _ _ _) (pushR2cFrame_log s kind payload flushNow)

/-- A `Close` is flushed with everything before it. -/
theorem close_ended_c2r (s : Sender) : (s.pushC2rFrame .close [] true).Ended := by
  constructor
  · refine ⟨buildWireFrame .close s.sid s.nextSeq [], ?_, .inl rfl⟩
    rw [pushC2rFrame_log, List.getLast?_concat]
  · exact flushC2rBatch_pending _

theorem close_ended_r2c (s : Sender) : (s.pushR2cFrame .close [] true).Ended := by
  constructor
  · refine ⟨buildWireFrame .close s.sid s.nextSeq [], ?_, .inl rfl⟩
    rw [pushR2cFrame_log, List.getLast?_concat]
  · exact flushR2cBatch_pending _

end Sender

/-! ## The client -/

namespace Client

variable {mailbox : List ClientInbound} {c d : Client} {e : Event}

/-- The pump has taken a close, or its mailbox is closed. -/
def Told (mailbox : List ClientInbound) (c : Client) : Event → Prop
  | .recv _ => mailbox[c.received.length]? = some .close
  | .mailboxClosed => True
  | _ => False

/-- A pump that returns has been told to, or signals its end. -/
def Signals (mailbox : List ClientInbound) (c : Client) (e : Event) : Prop :=
  ∀ d, c.step mailbox e = some d → d.returned ≠ none → c.Told mailbox e ∨ d.out.Ended

/-- The next message makes the client return when it is a close, or with a `Close` of its own. -/
theorem onInbound_signals {m : ClientInbound} {writeOk : Bool} (hc : c.returned = none)
    (hr : (c.onInbound (some m) writeOk).returned ≠ none) :
    m = .close ∨ (c.onInbound (some m) writeOk).out.Ended := by
  unfold onInbound at hr ⊢
  cases m with
  | data bytes =>
      dsimp only at hr ⊢
      split_ifs at hr ⊢
      · exact absurd hc hr
      · exact absurd hc hr
      · exact .inr (Sender.close_ended_c2r _)
  | eof =>
      dsimp only at hr ⊢
      split_ifs at hr ⊢
      · exact .inr (Sender.close_ended_c2r _)
      · exact absurd hc hr
  | close => exact .inl rfl

theorem onRead_signals {r : SocketRead} (hc : c.returned = none)
    (hr : (c.onRead r).returned ≠ none) :
    (c.onRead r).out.Ended := by
  unfold onRead at hr ⊢
  cases r with
  | eof =>
      dsimp only at hr ⊢
      split_ifs at hr ⊢
      · exact Sender.close_ended_c2r _
      · exact absurd hc hr
  | data chunk => exact absurd hc hr
  | err => exact Sender.close_ended_c2r _

theorem signals (mailbox : List ClientInbound) (c : Client) (e : Event) : c.Signals mailbox e := by
  intro d hs hr
  unfold step at hs
  by_cases hguard : c.returned ≠ none ∨ u64Size ≤ c.out.nextSeq + 1
  · rw [if_pos hguard] at hs
    cases hs
  rw [if_neg hguard] at hs
  have hc : c.returned = none := not_not.mp fun hne => hguard (.inl hne)
  cases e with
  | recv writeOk =>
      obtain ⟨m, hm, rfl⟩ := Option.map_eq_some_iff.mp hs
      rcases onInbound_signals hc hr with rfl | hended
      · exact .inl hm
      · exact .inr hended
  | mailboxClosed => exact .inl trivial
  | timer =>
      obtain ⟨-, hd⟩ := Option.ite_none_right_eq_some.mp hs
      cases hd
      exact absurd hc hr
  | read r =>
      obtain ⟨-, hd⟩ := Option.ite_none_left_eq_some.mp hs
      cases hd
      exact .inr (onRead_signals hc hr)

end Client

/-! ## The relay -/

namespace Driver

variable {destinationAllowed : List Char → Bool} {mailbox : List RelayInbound} {d d' : Driver}
  {e : Event}

/-- The driver has taken a close, or its mailbox is closed, or the first message is not `Connect`.
-/
def Told (mailbox : List RelayInbound) (d : Driver) : Event → Prop
  | .recv _ => mailbox[d.received.length]? = some .close ∨
      d.phase = .awaitConnect ∧ ∀ host port, mailbox[d.received.length]? ≠ some (.connect host port)
  | .mailboxClosed => True
  | _ => False

def Signals (destinationAllowed : List Char → Bool) (mailbox : List RelayInbound) (d : Driver)
    (e : Event) : Prop :=
  ∀ d', d.step destinationAllowed mailbox e = some d' → d'.phase = .returned →
    d.Told mailbox e ∨ d'.out.Ended

/-- A read of the destination's socket fails, or the write of a payload to it. -/
def SocketFails (mailbox : List RelayInbound) (d : Driver) : Event → Prop
  | .recv writeOk => writeOk = false ∧ d.phase = .pump ∧ d.peerWritable = true ∧
      ∃ bytes, mailbox[d.received.length]? = some (.data bytes)
  | .read .err => True
  | _ => False

/-- The driver is in order, and has not queued a terminal frame while it runs. -/
structure Running (mailbox : List RelayInbound) (d : Driver) : Prop where
  inv : Inv mailbox d
  quiet : d.phase ≠ .returned → d.out.Open

theorem spawn_running (key : Key) (sid : SessionId) (mailbox : List RelayInbound) :
    Running mailbox (spawn key sid) :=
  ⟨(spawn_inv sid key).extend List.nil_prefix, fun _ => nofun⟩

/-- An error report is the only frame. -/
theorem uploadErrorFrame_ended (h : Inv mailbox d) (hb : d.Before) (reason : List UInt8) :
    (d.uploadErrorFrame reason).out.Ended := by
  have hpushed := h.quiet hb
  have hpending : d.out.pending = [] := by
    have hwaiting := h.out.waiting
    rw [hpushed] at hwaiting
    exact List.suffix_nil.mp hwaiting
  refine ⟨⟨Sender.buildWireFrame .error d.out.sid d.out.nextSeq reason, ?_, .inr rfl⟩, hpending⟩
  exact List.getLast?_concat

/-- How a step of the driver comes out. -/
inductive Outcome (mailbox : List RelayInbound) (d : Driver) (e : Event) (d' : Driver) : Prop where
  /-- The driver goes on. -/
  | goesOn (active : d'.phase ≠ .returned) (quiet : d'.out.Open) (socket : ¬ d.SocketFails mailbox e)
  /-- It has been told to return, or signals its end. -/
  | ends (returned : d'.phase = .returned) (signal : d.Told mailbox e ∨ d'.out.Ended)
      (socket : ¬ d.SocketFails mailbox e)
  /-- Its socket has failed, and it returns without a word. -/
  | fails (returned : d'.phase = .returned) (untold : ¬ d.Told mailbox e) (quiet : d'.out.Open)
      (socket : d.SocketFails mailbox e)

theorem onConnect_outcome (h : Running mailbox d) (hp : d.phase = .awaitConnect) {m : RelayInbound}
    (hm : mailbox[d.received.length]? = some m) (writeOk : Bool) :
    Outcome mailbox d (.recv writeOk)
      (onConnect destinationAllowed { d with received := d.received ++ [m] } (some m)) := by
  have hactive : d.phase ≠ .returned := by rw [hp]; exact nofun
  have hsocket : ¬ d.SocketFails mailbox (.recv writeOk) := by
    rintro ⟨-, hpump, -⟩
    rw [hp] at hpump
    cases hpump
  have hother : (∀ host port, m ≠ .connect host port) → d.Told mailbox (.recv writeOk) := by
    intro hne
    refine .inr ⟨hp, fun host port hconnect => ?_⟩
    rw [hm] at hconnect
    exact hne host port (Option.some.inj hconnect)
  cases m with
  | connect host port =>
      unfold onConnect
      dsimp only
      split_ifs
      · exact .goesOn nofun (h.quiet hactive) hsocket
      · exact .ends rfl (.inr (uploadErrorFrame_ended (d := d) h.inv (.inl hp) _)) hsocket
  | data bytes => exact .ends rfl (.inl (hother nofun)) hsocket
  | eof => exact .ends rfl (.inl (hother nofun)) hsocket
  | close => exact .ends rfl (.inl (hother nofun)) hsocket

theorem onPumpInbound_outcome (h : Running mailbox d) (hp : d.phase = .pump) {m : RelayInbound}
    (hm : mailbox[d.received.length]? = some m) (writeOk : Bool) :
    Outcome mailbox d (.recv writeOk)
      (onPumpInbound { d with received := d.received ++ [m] } (some m) writeOk) := by
  have hactive := not_returned_of_pump hp
  have hquiet := h.quiet hactive
  have hdata : (∀ bytes, m ≠ .data bytes) → ¬ d.SocketFails mailbox (.recv writeOk) := by
    rintro hne ⟨-, -, -, bytes, hbytes⟩
    rw [hm] at hbytes
    exact hne bytes (Option.some.inj hbytes)
  cases m with
  | connect host port => exact .goesOn hactive hquiet (hdata nofun)
  | data bytes =>
      unfold onPumpInbound
      dsimp only
      by_cases hdrop : d.peerWritable = true
      · rw [if_neg (by simpa using hdrop)]
        split_ifs with hwrite
        · refine .goesOn hactive ?_ fun hfails => ?_
          · exact hquiet.of_pushed (Sender.flushR2cBatch_log d.out)
          · rw [hfails.1] at hwrite
            cases hwrite
        · -- nothing is queued behind what the flush uploads
          refine .fails rfl ?_ ?_ ⟨Bool.eq_false_of_not_eq_true hwrite, hp, hdrop, bytes, hm⟩
          · rintro (hclose | ⟨hawait, -⟩)
            · rw [hm] at hclose
              cases hclose
            · rw [hp] at hawait
              cases hawait
          · exact hquiet.of_pushed (Sender.flushR2cBatch_log d.out)
      · rw [if_pos (by simpa using hdrop)]
        exact .goesOn hactive hquiet fun hfails => hdrop hfails.2.2.1
  | eof =>
      unfold onPumpInbound
      dsimp only
      split_ifs
      · exact .ends rfl (.inr (Sender.close_ended_r2c _)) (hdata nofun)
      · exact .goesOn hactive hquiet (hdata nofun)
  | close => exact .ends rfl (.inl (.inl hm)) (hdata nofun)

theorem onDial_outcome (h : Running mailbox d) (hp : d.phase = .dialing) (outcome : DialOutcome) :
    Outcome mailbox d (.dial outcome) (d.onDial outcome) := by
  have hactive : d.phase ≠ .returned := by rw [hp]; exact nofun
  cases outcome with
  | connected => exact .goesOn nofun (h.quiet hactive) nofun
  | failed reason => exact .ends rfl (.inr (uploadErrorFrame_ended h.inv (.inr hp) _)) nofun
  | shuttingDown => exact .ends rfl (.inr (uploadErrorFrame_ended h.inv (.inr hp) _)) nofun

theorem onRead_outcome (h : Running mailbox d) (hp : d.phase = .pump) (r : SocketRead) :
    Outcome mailbox d (.read r) (d.onRead r) := by
  have hactive := not_returned_of_pump hp
  have hquiet := h.quiet hactive
  cases r with
  | eof =>
      unfold onRead
      dsimp only
      split_ifs
      · exact .ends rfl (.inr (Sender.close_ended_r2c _)) nofun
      · exact .goesOn hactive (hquiet.pushR2cFrame (.inl rfl) _ _) nofun
  | data chunk =>
      exact .goesOn hactive
        (Sender.Open.pushR2cFrame (s := d.out.noteRead chunk.val) hquiet (.inr rfl) _ _) nofun
  | err => exact .fails rfl nofun (hquiet.of_pushed (Sender.flushR2cBatch_log d.out)) trivial

/-- **One step of the driver.** -/
theorem step_outcome (h : Running mailbox d) (hs : d.step destinationAllowed mailbox e = some d') :
    Outcome mailbox d e d' := by
  unfold step at hs
  by_cases hguard : d.phase = .returned ∨ u64Size ≤ d.out.nextSeq + 1
  · rw [if_pos hguard] at hs
    cases hs
  rw [if_neg hguard] at hs
  -- a driver that has returned takes no step
  have hr : d.phase ≠ .returned := fun hr => hguard (.inl hr)
  cases e with
  | recv writeOk =>
      dsimp only at hs
      split_ifs at hs with hd
      obtain ⟨m, hm, rfl⟩ := Option.map_eq_some_iff.mp hs
      cases hphase : d.phase with
      | awaitConnect =>
          rw [onInbound_await hphase]
          exact onConnect_outcome h hphase hm writeOk
      | dialing => exact absurd hphase hd
      | pump =>
          rw [onInbound_pump hphase]
          exact onPumpInbound_outcome h hphase hm writeOk
      | returned => exact absurd hphase hr
  | mailboxClosed =>
      dsimp only at hs
      split_ifs at hs with hd
      cases hs
      refine .ends ?_ (.inl trivial) nofun
      cases hphase : d.phase with
      | awaitConnect =>
          rw [onInbound_await hphase]
          rfl
      | dialing => exact absurd (.inl hphase) hd
      | pump =>
          rw [onInbound_pump hphase]
          rfl
      | returned => exact absurd hphase hr
  | dial outcome =>
      obtain ⟨hp, hd⟩ := Option.ite_none_right_eq_some.mp hs
      cases hd
      exact onDial_outcome h hp outcome
  | timer =>
      obtain ⟨-, hd⟩ := Option.ite_none_right_eq_some.mp hs
      cases hd
      exact .goesOn hr ((h.quiet hr).of_pushed (Sender.flushR2cBatch_log d.out)) nofun
  | read r =>
      obtain ⟨hp, hd⟩ := Option.ite_none_right_eq_some.mp hs
      cases hd
      exact onRead_outcome h hp.1 r

theorem step_running (h : Running mailbox d) (hs : d.step destinationAllowed mailbox e = some d') :
    Running mailbox d' := by
  refine ⟨(step_step h.inv hs).inv, fun hactive => ?_⟩
  cases step_outcome h hs with
  | goesOn _ hquiet _ => exact hquiet
  | ends hr _ _ => exact absurd hr hactive
  | fails hr _ _ _ => exact absurd hr hactive

end Driver

/-! ## Whole sessions -/

/-- **An end is signalled**: by the client in every run, and by the relay's driver in exactly the
runs in which its socket to the destination does not fail. -/
theorem endings_signalled (key : Key) (sid : SessionId) (opening : Opening)
    (destinationAllowed : List Char → Bool) (toClient : List ClientInbound)
    (toRelay : List RelayInbound) :
    (∀ es, StepRun.AllSteps (Client.step toClient) (Client.Signals toClient)
        (Client.start key sid opening) es) ∧
      ∀ es, StepRun.AllSteps (Driver.step destinationAllowed toRelay)
          (Driver.Signals destinationAllowed toRelay) (Driver.spawn key sid) es ↔
        StepRun.AllSteps (Driver.step destinationAllowed toRelay)
          (fun d e => ¬ d.SocketFails toRelay e) (Driver.spawn key sid) es := by
  constructor
  · exact StepRun.allSteps_of_forall (Client.signals toClient) _
  · intro es
    have h0 := Driver.spawn_running key sid toRelay
    have hstep : ∀ d e d', Driver.Running toRelay d →
        d.step destinationAllowed toRelay e = some d' → Driver.Running toRelay d' :=
      fun _ _ _ => Driver.step_running
    constructor
    · -- a socket failure ends the driver without a signal
      refine StepRun.allSteps_of_inv (fun d e d' h _ => hstep d e d' h) ?_ h0
      intro d e d' h hsignals hs
      cases Driver.step_outcome h hs with
      | goesOn _ _ hsocket => exact hsocket
      | ends _ _ hsocket => exact hsocket
      | fails hr huntold hquiet _ =>
          rcases hsignals d' hs hr with htold | hended
          · exact absurd htold huntold
          · exact absurd hended hquiet.not_ended
    · refine StepRun.allSteps_of_inv (fun d e d' h _ => hstep d e d' h) ?_ h0
      intro d e d' h hsocket hs d'' hs' hr
      rw [hs] at hs'
      cases hs'
      cases Driver.step_outcome h hs with
      | goesOn hactive _ _ => exact absurd hr hactive
      | ends _ hsignal _ => exact hsignal
      | fails _ _ _ hfails => exact absurd hfails hsocket

/-- The destination resets the connection, and the client is not told. -/
theorem endings_silent :
    let sid : SessionId := ⟨List.replicate 16 0, rfl⟩
    let key : Key := List.replicate 32 0
    ¬ StepRun.AllSteps (Driver.step (fun _ => true) [.connect ['h'] 80])
      (Driver.Signals (fun _ => true) [.connect ['h'] 80]) (Driver.spawn key sid)
      ([.recv true, .dial .connected] ++ [.read .err]) := by
  intro sid key h
  have hlast := StepRun.allSteps_last h rfl rfl
  rcases hlast _ rfl rfl with htold | ⟨⟨f, hf, -⟩, -⟩
  · exact htold
  · cases hf

end Rahgozar.Drive
