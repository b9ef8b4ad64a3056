import Rahgozar.Drive.Sending

set_option autoImplicit false

/-! # What a peer hands to its socket

Both pumps treat their mailbox in the same way. They take the messages in order; the payloads go to
the socket until the other side's end of stream, and behind it they are dropped. `Handed` says so
for either mailbox; the two state machines keep it together with the invariant of their sending
half.
-/

namespace Rahgozar.Drive

/-! ## Messages -/

def ClientInbound.payload : ClientInbound → Option (List UInt8)
  | data bytes => some bytes
  | _ => none

/-- What a message of the relay's mailbox is for the client's; `Connect` is nothing. -/
def RelayInbound.view : RelayInbound → Option ClientInbound
  | connect _ _ => none
  | data bytes => some (.data bytes)
  | eof => some .eof
  | close => some .close

section Handed

variable {ι : Type} {view : ι → Option ClientInbound} {mailbox received : List ι}
  {written : List (List UInt8)} {active active' writable writable' : Prop} {m : ι}

/-- The payload of a message. -/
def payloadOf (view : ι → Option ClientInbound) (m : ι) : Option (List UInt8) :=
  (view m).bind ClientInbound.payload

/-- An end of stream, or a close. -/
def Closing (view : ι → Option ClientInbound) (m : ι) : Prop :=
  view m = some .eof ∨ view m = some .close

/-- Of the mailbox `received` has been taken and `written` been handed to the socket. The pump is
`active` until it returns, and `writable` until it has taken the end of the stream. -/
structure Handed (view : ι → Option ClientInbound) (mailbox received : List ι)
    (written : List (List UInt8)) (active writable : Prop) : Prop where
  taken : received <+: mailbox
  first : written <+: received.filterMap (payloadOf view)
  all : active → writable → written = received.filterMap (payloadOf view)
  unended : active → (∀ m ∈ received, view m ≠ some .eof) → writable
  closing : ∀ (i : Nat) (m : ι), received[i]? = some m → Closing view m →
    (∀ k ∈ received.take i, view k ≠ some .eof) →
    (received.take i).filterMap (payloadOf view) <+: written

theorem received_concat (h : received <+: mailbox) (hm : mailbox[received.length]? = some m) :
    received ++ [m] <+: mailbox := by
  obtain ⟨hlt, hget⟩ := List.getElem?_eq_some_iff.mp hm
  have htake : received ++ [m] = mailbox.take (received.length + 1) := by
    rw [List.take_succ_eq_append_getElem hlt, hget, ← List.prefix_iff_eq_take.mp h]
  rw [htake]
  exact List.take_prefix ..

theorem filterMap_concat {β : Type} (f : ι → Option β) (received : List ι) (m : ι) :
    (received ++ [m]).filterMap f = received.filterMap f ++ (f m).toList := by
  rw [List.filterMap_append]
  cases h : f m with
  | none => simp [h]
  | some b => simp [h]

/-- More messages in the mailbox. -/
theorem Handed.extend (h : Handed view mailbox received written active writable)
    {mailbox' : List ι} (hmail : mailbox <+: mailbox') :
    Handed view mailbox' received written active writable :=
  ⟨h.taken.trans hmail, h.first, h.all, h.unended, h.closing⟩

/-- The pump has returned. -/
theorem Handed.stop (h : Handed view mailbox received written active writable)
    (hstop : ¬ active') : Handed view mailbox received written active' writable' :=
  ⟨h.taken, h.first, fun ha => absurd ha hstop, fun ha => absurd ha hstop, h.closing⟩

/-- The closing messages are still behind their payloads when one more message has been taken; if it
is itself the first end, then all payloads before it have been handed over. -/
theorem Handed.closing_concat (h : Handed view mailbox received written active writable)
    (hactive : active) {written' : List (List UInt8)} (hgrow : written <+: written') (i : Nat)
    (k : ι)
    (hi : (received ++ [m])[i]? = some k) (hk : Closing view k)
    (hnone : ∀ k ∈ (received ++ [m]).take i, view k ≠ some .eof) :
    ((received ++ [m]).take i).filterMap (payloadOf view) <+: written' := by
  rw [List.getElem?_append] at hi
  split_ifs at hi with hlt
  · rw [List.take_append_of_le_length hlt.le] at hnone ⊢
    exact (h.closing i k hi hk hnone).trans hgrow
  · obtain ⟨hlast, -⟩ := List.getElem?_eq_some_iff.mp hi
    rw [List.length_singleton] at hlast
    have hlen : i = received.length := by omega
    rw [hlen, List.take_left] at hnone ⊢
    rw [← h.all hactive (h.unended hactive hnone)]
    exact hgrow

/-- A payload is taken and handed over. -/
theorem Handed.write (h : Handed view mailbox received written active writable) (hactive : active)
    (hwritable : writable) (hm : mailbox[received.length]? = some m) {bytes : List UInt8}
    (hbytes : view m = some (.data bytes)) :
    Handed view mailbox (received ++ [m]) (written ++ [bytes]) active' writable := by
  have hpayload : payloadOf view m = some bytes := by rw [payloadOf, hbytes]; rfl
  have hall : written ++ [bytes] = (received ++ [m]).filterMap (payloadOf view) := by
    rw [filterMap_concat, hpayload, h.all hactive hwritable]
    rfl
  exact ⟨received_concat h.taken hm, hall ▸ List.prefix_rfl, fun _ _ => hall, fun _ _ => hwritable,
    h.closing_concat hactive (List.prefix_append ..)⟩

/-- A message is taken and nothing is handed over: it carries no payload, or the pump returns, or
the end of the stream is behind it. -/
theorem Handed.skip (h : Handed view mailbox received written active writable) (hactive : active)
    (hm : mailbox[received.length]? = some m)
    (hempty : active' → writable' → writable ∧ payloadOf view m = none)
    (hend : active' → (∀ k ∈ received ++ [m], view k ≠ some .eof) → writable') :
    Handed view mailbox (received ++ [m]) written active' writable' := by
  have hwritten : written <+: (received ++ [m]).filterMap (payloadOf view) := by
    rw [filterMap_concat]
    exact h.first.trans (List.prefix_append ..)
  refine ⟨received_concat h.taken hm, hwritten, ?_, hend, h.closing_concat hactive List.prefix_rfl⟩
  intro ha hw
  obtain ⟨hwritable, hnone⟩ := hempty ha hw
  rw [filterMap_concat, hnone, h.all hactive hwritable]
  exact (List.append_nil _).symm

end Handed

/-! ## The client -/

namespace Client

variable {mailbox : List ClientInbound} {c d : Client}

/-- The client has handed over what it should, its sending half is in order, and no end of stream
has been pushed while the socket can be read. -/
structure Inv (mailbox : List ClientInbound) (c : Client) : Prop where
  out : c.out.Inv
  live : c.returned = none → c.out.Live
  reading : c.localReadClosed = false → c.out.NoEof
  handed : Handed some mailbox c.received c.written (c.returned = none) (c.localWritable = true)

/-- A step keeps the invariant and pushes behind what was pushed. -/
structure Step (mailbox : List ClientInbound) (c d : Client) : Prop where
  inv : Inv mailbox d
  ext : Sender.Extends c.out d.out

theorem onTimer_step (h : Inv mailbox c) : Step mailbox c c.onTimer := by
  have hflush := Sender.flushC2rBatch_flushed h.out
  exact ⟨⟨hflush.inv, fun hr => hflush.live (h.live hr), fun hc => hflush.noEof (h.reading hc),
    h.handed⟩, hflush.ext⟩

/-- A close is pushed and the pump returns. -/
theorem close_step {r : PumpEnd} (h : Inv mailbox c) (hr : c.returned = none)
    (hroom : c.out.nextSeq < u64Size) : Step mailbox c
      { c with out := c.out.pushC2rFrame .close [] true, returned := some r } := by
  have hclose := Sender.pushC2rFrame_pushed .close nofun h.out (h.live hr) hroom true
  exact ⟨⟨hclose.inv, nofun, fun hc => hclose.noEof nofun (h.reading hc), h.handed.stop nofun⟩,
    hclose.ext⟩

theorem onRead_step (h : Inv mailbox c) (hr : c.returned = none)
    (hroom : c.out.nextSeq + 1 < u64Size) (hopen : c.localReadClosed = false) (r : SocketRead) :
    Step mailbox c (c.onRead r) := by
  have hroom' : c.out.nextSeq < u64Size := Nat.lt_of_succ_lt hroom
  cases r with
  | data chunk =>
      have hread := Sender.readC2r_pushed h.out (h.live hr) hroom' (h.reading hopen) chunk
      exact ⟨⟨hread.inv, fun _ => hread.live (h.live hr), fun hc => hread.noEof nofun (h.reading hc),
        h.handed⟩, hread.ext⟩
  | err => exact close_step h hr hroom'
  | eof =>
      have heof := Sender.pushC2rFrame_pushed .eof nofun h.out (h.live hr) hroom' true
      have hmid : Inv mailbox
          { c with out := c.out.pushC2rFrame .eof [] true, localReadClosed := true } :=
        ⟨heof.inv, fun _ => heof.live (h.live hr), nofun, h.handed⟩
      unfold onRead
      dsimp only
      split_ifs
      · have hclose := close_step (r := .ok) hmid hr (heof.nextSeq ▸ hroom)
        exact ⟨hclose.inv, heof.ext.trans hclose.ext⟩
      · exact ⟨hmid, heof.ext⟩

/-- The mailbox has ended. -/
theorem onClosed_step (h : Inv mailbox c) : Step mailbox c (c.onInbound none true) := by
  have hflush := Sender.flushC2rBatch_flushed h.out
  have hhanded : Handed some mailbox (c.received ++ []) c.written
      (some PumpEnd.ok = none) (c.localWritable = true) := by
    rw [List.append_nil]
    exact h.handed.stop nofun
  exact ⟨⟨hflush.inv, nofun, fun hc => hflush.noEof (h.reading hc), hhanded⟩, hflush.ext⟩

/-- The next message of the mailbox. -/
theorem onInbound_step (h : Inv mailbox c) (hr : c.returned = none)
    (hroom : c.out.nextSeq < u64Size) {m : ClientInbound}
    (hm : mailbox[c.received.length]? = some m) (writeOk : Bool) :
    Step mailbox c (c.onInbound (some m) writeOk) := by
  cases m with
  | data bytes =>
      unfold onInbound
      dsimp only
      by_cases hdrop : c.localWritable = true
      · -- handed over, whether or not the write succeeds
        have hwrite : Handed some mailbox (c.received ++ [ClientInbound.data bytes])
            (c.written ++ [bytes]) (c.returned = none) (c.localWritable = true) :=
          h.handed.write hr hdrop hm rfl
        have hmid : Inv mailbox { c with
            received := c.received ++ [ClientInbound.data bytes], written := c.written ++ [bytes] } :=
          ⟨h.out, h.live, h.reading, hwrite⟩
        rw [if_neg (by simpa using hdrop)]
        split_ifs
        · exact ⟨hmid, .refl _⟩
        · have hclose := close_step (r := .err) hmid hr hroom
          exact ⟨hclose.inv, hclose.ext⟩
      · -- behind the relay's end of stream
        rw [if_pos (by simpa using hdrop)]
        refine ⟨⟨h.out, h.live, h.reading, h.handed.skip hr hm ?_ ?_⟩, .refl _⟩
        · exact fun _ hw => absurd hw hdrop
        · intro _ hnone
          refine absurd (h.handed.unended hr fun k hk => ?_) hdrop
          exact hnone k (List.mem_append_left _ hk)
  | eof =>
      have hskip : ∀ active' : Prop, Handed some mailbox (c.received ++ [ClientInbound.eof]) c.written
          -- behind the end of the stream nothing more is handed over
          active' (false = true) := fun active' =>
        h.handed.skip hr hm nofun fun _ hnone => absurd rfl (hnone .eof (by simp))
      have hmid : Inv mailbox { c with
          received := c.received ++ [ClientInbound.eof], localWritable := false } :=
        ⟨h.out, h.live, h.reading, hskip _⟩
      unfold onInbound
      dsimp only
      split_ifs
      · have hclose := close_step (r := .ok) hmid hr hroom
        exact ⟨hclose.inv, hclose.ext⟩
      · exact ⟨hmid, .refl _⟩
  | close =>
      have hflush := Sender.flushC2rBatch_flushed h.out
      refine ⟨⟨hflush.inv, nofun, fun hc => hflush.noEof (h.reading hc), ?_⟩, hflush.ext⟩
      exact h.handed.skip hr hm nofun nofun

/-- **One turn of the client's pump.** -/
theorem step_step {e : Event} (h : Inv mailbox c) (hs : c.step mailbox e = some d) :
    Step mailbox c d := by
  -- first the guard, then one case for each arm of `select!`
  unfold step at hs
  by_cases hguard : c.returned ≠ none ∨ u64Size ≤ c.out.nextSeq + 1
  · rw [if_pos hguard] at hs
    cases hs
  rw [if_neg hguard] at hs
  obtain ⟨hr, hroom⟩ := not_or.mp hguard
  rw [not_not] at hr
  rw [Nat.not_le] at hroom
  cases e with
  | recv writeOk =>
      obtain ⟨m, hm, rfl⟩ := Option.map_eq_some_iff.mp hs
      exact onInbound_step h hr (Nat.lt_of_succ_lt hroom) hm writeOk
  | mailboxClosed =>
      dsimp only at hs
      split_ifs at hs
      cases hs
      exact onClosed_step h
  | timer =>
      dsimp only at hs
      split_ifs at hs
      cases hs
      exact onTimer_step h
  | read r =>
      dsimp only at hs
      split_ifs at hs with hopen
      cases hs
      exact onRead_step h hr hroom (Bool.eq_false_of_not_eq_true hopen) r

end Client

/-! ## The relay -/

namespace Driver

variable {destinationAllowed : List Char → Bool} {mailbox : List RelayInbound} {d d' : Driver}

/-- The driver waits for `Connect`, or dials. -/
def Before (d : Driver) : Prop := d.phase = .awaitConnect ∨ d.phase = .dialing

/-- As for the client; before the pump nothing has been pushed. -/
structure Inv (mailbox : List RelayInbound) (d : Driver) : Prop where
  out : d.out.Inv
  live : d.phase ≠ .returned → d.out.Live
  quiet : d.Before → d.out.pushed = []
  reading : d.tcpReadClosed = false → d.out.NoEof
  handed : Handed RelayInbound.view mailbox d.received d.written (d.phase ≠ .returned)
    (d.peerWritable = true)

structure Step (mailbox : List RelayInbound) (d d' : Driver) : Prop where
  inv : Inv mailbox d'
  ext : Sender.Extends d.out d'.out

theorem not_before_of_pump (hp : d.phase = .pump) : ¬ d.Before := by
  unfold Before
  rw [hp]
  exact fun h => h.elim nofun nofun

theorem not_returned_of_pump (hp : d.phase = .pump) : d.phase ≠ .returned := by
  rw [hp]
  exact nofun

/-- What waits is flushed, and the driver goes on or returns. -/
theorem flush_step (h : Inv mailbox d) (hp : d.phase = .pump) (out : Sender) {phase : DriverPhase}
    (hout : out.core = d.out.flushR2cBatch.core) (hseq : out.nextSeq = d.out.flushR2cBatch.nextSeq)
    (hphase : phase = .pump ∨ phase = .returned) :
    Step mailbox d { d with out := out, phase := phase } := by
  have hflush := Sender.flushR2cBatch_flushed h.out
  have hflush' : Sender.Flushed d.out out := ⟨hflush.inv.of_core hout,
    (congrArg Sender.Core.key hout).trans hflush.key, hseq.trans hflush.nextSeq,
    (congrArg Sender.Core.pushed hout).trans hflush.pushed⟩
  have hactive := not_returned_of_pump hp
  refine ⟨⟨hflush'.inv, fun _ => hflush'.live (h.live hactive), fun hb => ?_,
    fun hc => hflush'.noEof (h.reading hc), ?_⟩, hflush'.ext⟩
  · rcases hphase with rfl | rfl
    · exact hb.elim nofun nofun
    · exact hb.elim nofun nofun
  · rcases hphase with rfl | rfl
    · rw [← hp]
      exact h.handed
    · exact h.handed.stop (not_not.mpr rfl)

theorem onTimer_step (h : Inv mailbox d) (hp : d.phase = .pump) : Step mailbox d d.onTimer := by
  have hstep := flush_step h hp d.out.flushR2cBatch rfl rfl (.inl hp)
  exact ⟨hstep.inv, hstep.ext⟩

/-- A close is pushed and the driver returns. -/
theorem close_step (h : Inv mailbox d) (hp : d.phase = .pump) (hroom : d.out.nextSeq < u64Size) :
    Step mailbox d { d with out := d.out.pushR2cFrame .close [] true, phase := .returned } := by
  have hclose := Sender.pushR2cFrame_pushed .close nofun h.out
    (h.live (not_returned_of_pump hp)) hroom true
  exact ⟨⟨hclose.inv, fun hr => absurd rfl hr, fun hb => hb.elim nofun nofun,
    fun hc => hclose.noEof nofun (h.reading hc), h.handed.stop (not_not.mpr rfl)⟩, hclose.ext⟩

theorem onRead_step (h : Inv mailbox d) (hp : d.phase = .pump) (hroom : d.out.nextSeq + 1 < u64Size)
    (hopen : d.tcpReadClosed = false) (r : SocketRead) : Step mailbox d (d.onRead r) := by
  have hroom' : d.out.nextSeq < u64Size := Nat.lt_of_succ_lt hroom
  have hlive := h.live (not_returned_of_pump hp)
  cases r with
  | data chunk =>
      have hread := Sender.readR2c_pushed h.out hlive hroom' (h.reading hopen) chunk
      exact ⟨⟨hread.inv, fun _ => hread.live hlive, fun hb => absurd hb (not_before_of_pump hp),
        fun hc => hread.noEof nofun (h.reading hc), h.handed⟩, hread.ext⟩
  | err => exact flush_step h hp _ rfl rfl (.inr rfl)
  | eof =>
      have heof := Sender.pushR2cFrame_pushed .eof nofun h.out hlive hroom' true
      have hmid : Inv mailbox
          { d with out := d.out.pushR2cFrame .eof [] true, tcpReadClosed := true } :=
        ⟨heof.inv, fun _ => heof.live hlive, fun hb => absurd hb (not_before_of_pump hp), nofun,
          h.handed⟩
      unfold onRead
      dsimp only
      split_ifs
      · have hclose := close_step hmid hp (heof.nextSeq ▸ hroom)
        exact ⟨hclose.inv, heof.ext.trans hclose.ext⟩
      · exact ⟨hmid, heof.ext⟩

/-- The error report is the only frame of a driver that has not dialed. -/
theorem uploadErrorFrame_step (h : Inv mailbox d) (hb : d.Before) (reason : List UInt8)
    (hfits : reason.length ≤ maxPayload) : Step mailbox d (d.uploadErrorFrame reason) := by
  have hpushed := h.quiet hb
  have hactive : d.phase ≠ .returned := by
    rcases hb with hb | hb
    · rw [hb]
      decide
    · rw [hb]
      decide
  have hlive := h.live hactive
  have hpending : d.out.pending = [] := by
    have hwaiting := h.out.waiting
    rw [hpushed] at hwaiting
    exact List.suffix_nil.mp hwaiting
  have hseq : d.out.nextSeq = 0 := by rw [hlive, hpushed]; rfl
  -- sealing the one frame directly is pushing it and flushing, but for the counter
  have hframe := Sender.append_inv (t := d.out) .error h.out hlive (by rw [hseq]; decide)
    hfits (fun hk => by cases hk)
    (by rw [Sender.readsOf, if_neg (by decide), List.append_nil])
  have hflush := Sender.flushC2rBatch_flushed hframe
  have hcore : (d.uploadErrorFrame reason).out.core
      = (d.out.append .error reason).flushC2rBatch.core := by
    unfold uploadErrorFrame Sender.flushC2rBatch Sender.append Sender.sealBatch Sender.core
    simp [hpending]
  refine ⟨⟨hflush.inv.of_core hcore, fun hr => absurd rfl hr, fun hb' => ?_, ?_,
    h.handed.stop (not_not.mpr rfl)⟩, rfl, List.prefix_append ..⟩
  · rcases hb' with hb' | hb' <;> cases hb'
  intro _ f hf
  rw [show (d.uploadErrorFrame reason).out.pushed
    = d.out.pushed ++ [Sender.buildWireFrame .error d.out.sid d.out.nextSeq reason] from rfl, hpushed,
    List.nil_append, List.mem_singleton] at hf
  rw [hf]
  show FrameKind.error ≠ .eof
  decide

theorem onDial_step (h : Inv mailbox d) (hp : d.phase = .dialing) (outcome : DialOutcome) :
    Step mailbox d (d.onDial outcome) := by
  have hactive : d.phase ≠ .returned := by rw [hp]; exact nofun
  have hhanded : Handed RelayInbound.view mailbox d.received d.written
      (DriverPhase.pump ≠ .returned) (d.peerWritable = true) :=
    ⟨h.handed.taken, h.handed.first, fun _ => h.handed.all hactive,
      fun _ => h.handed.unended hactive, h.handed.closing⟩
  cases outcome with
  | connected =>
      exact ⟨⟨h.out, fun _ => h.live hactive, fun hb => hb.elim nofun nofun, h.reading, hhanded⟩,
        .refl _⟩
  | failed reason => exact uploadErrorFrame_step h (.inr hp) _ reason.property
  | shuttingDown => exact uploadErrorFrame_step h (.inr hp) _ (by decide)

/-- What the driver has taken counts as received from then on, whatever it does with it. -/
theorem onConnect_step (h : Inv mailbox d) (hp : d.phase = .awaitConnect) {m : RelayInbound}
    (hm : mailbox[d.received.length]? = some m) :
    Step mailbox d
      (onConnect destinationAllowed { d with received := d.received ++ [m] } (some m)) := by
  have hactive : d.phase ≠ .returned := by rw [hp]; exact nofun
  have hreturn : Step mailbox d { d with received := d.received ++ [m], phase := .returned } :=
    ⟨⟨h.out, fun hr => absurd rfl hr, fun hb => hb.elim nofun nofun, h.reading,
      h.handed.skip hactive hm (fun hr => absurd rfl hr) (fun hr => absurd rfl hr)⟩, .refl _⟩
  cases m with
  | connect host port =>
      have hview : RelayInbound.view (.connect host port) = none := rfl
      have hskip : ∀ phase : DriverPhase, Handed RelayInbound.view mailbox
          (d.received ++ [.connect host port]) d.written (phase ≠ .returned)
          (d.peerWritable = true) := by
        refine fun phase => h.handed.skip hactive hm
          (fun _ hw => ⟨hw, by rw [payloadOf, hview]; rfl⟩) ?_
        exact fun _ hnone =>
          h.handed.unended hactive fun k hk => hnone k (List.mem_append_left _ hk)
      have hmid : Inv mailbox { d with received := d.received ++ [.connect host port] } :=
        ⟨h.out, h.live, h.quiet, h.reading, hskip _⟩
      unfold onConnect
      dsimp only
      split_ifs
      · exact ⟨⟨h.out, fun _ => h.live hactive, fun _ => h.quiet (.inl hp), h.reading, hskip _⟩,
          .refl _⟩
      · have herror := uploadErrorFrame_step hmid (.inl hp)
          (utf8 "destination not on allow list".toList) (by decide)
        exact ⟨herror.inv, herror.ext⟩
  | data bytes => exact hreturn
  | eof => exact hreturn
  | close => exact hreturn

theorem onPumpInbound_step (h : Inv mailbox d) (hp : d.phase = .pump)
    (hroom : d.out.nextSeq < u64Size) {m : RelayInbound}
    (hm : mailbox[d.received.length]? = some m) (writeOk : Bool) :
    Step mailbox d (onPumpInbound { d with received := d.received ++ [m] } (some m) writeOk) := by
  have hactive := not_returned_of_pump hp
  have hunended : (∀ k ∈ d.received ++ [m], k.view ≠ some .eof) → d.peerWritable = true :=
    fun hnone => h.handed.unended hactive fun k hk => hnone k (List.mem_append_left _ hk)
  cases m with
  | connect host port =>
      have hview : RelayInbound.view (.connect host port) = none := rfl
      exact ⟨⟨h.out, h.live, h.quiet, h.reading, h.handed.skip hactive hm
        (fun _ hw => ⟨hw, by rw [payloadOf, hview]; rfl⟩) (fun _ => hunended)⟩, .refl _⟩
  | data bytes =>
      unfold onPumpInbound
      dsimp only
      by_cases hdrop : d.peerWritable = true
      · -- what waits for the client goes out before the answer to this write
        have hmid : Inv mailbox { d with
            received := d.received ++ [.data bytes], written := d.written ++ [bytes] } :=
          ⟨h.out, h.live, h.quiet, h.reading, h.handed.write hactive hdrop hm rfl⟩
        rw [if_neg (by simpa using hdrop)]
        split_ifs
        · have hflush :=
            flush_step hmid hp { d.out.flushR2cBatch with eager := true } rfl rfl (.inl hp)
          exact ⟨hflush.inv, hflush.ext⟩
        · have hflush := flush_step hmid hp d.out.flushR2cBatch rfl rfl (.inr rfl)
          exact ⟨hflush.inv, hflush.ext⟩
      · -- behind the client's end of stream
        rw [if_pos (by simpa using hdrop)]
        exact ⟨⟨h.out, h.live, h.quiet, h.reading, h.handed.skip hactive hm
          (fun _ hw => absurd hw hdrop) (fun _ => hunended)⟩, .refl _⟩
  | eof =>
      have hskip : Handed RelayInbound.view mailbox (d.received ++ [.eof]) d.written
          -- behind the end of the stream nothing more is handed over
          (d.phase ≠ .returned) (false = true) :=
        h.handed.skip hactive hm nofun fun _ hnone => absurd rfl (hnone .eof (by simp))
      have hmid : Inv mailbox { d with received := d.received ++ [.eof], peerWritable := false } :=
        ⟨h.out, h.live, h.quiet, h.reading, hskip⟩
      unfold onPumpInbound
      dsimp only
      split_ifs
      · have hclose := close_step hmid hp hroom
        exact ⟨hclose.inv, hclose.ext⟩
      · exact ⟨hmid, .refl _⟩
  | close =>
      have hview : RelayInbound.view .close = some .close := rfl
      -- what waits for the client goes out before the session ends
      have hmid : Inv mailbox { d with received := d.received ++ [.close] } :=
        ⟨h.out, h.live, h.quiet, h.reading, h.handed.skip hactive hm
          (fun _ hw => ⟨hw, by rw [payloadOf, hview]; rfl⟩) (fun _ => hunended)⟩
      have hflush := flush_step hmid hp d.out.flushR2cBatch rfl rfl (.inr rfl)
      exact ⟨hflush.inv, hflush.ext⟩

theorem onInbound_await (hp : d.phase = .awaitConnect) (frame : Option RelayInbound)
    (writeOk : Bool) : d.onInbound destinationAllowed frame writeOk
      = onConnect destinationAllowed { d with received := d.received ++ frame.toList } frame := by
  obtain ⟨out, phase, peerWritable, tcpReadClosed, written, received⟩ := d
  cases hp
  rfl

theorem onInbound_pump (hp : d.phase = .pump) (frame : Option RelayInbound) (writeOk : Bool) :
    d.onInbound destinationAllowed frame writeOk
      = onPumpInbound { d with received := d.received ++ frame.toList } frame writeOk := by
  obtain ⟨out, phase, peerWritable, tcpReadClosed, written, received⟩ := d
  cases hp
  rfl

/-- The mailbox has ended. -/
theorem onClosed_step (h : Inv mailbox d) (hp : d.phase = .awaitConnect ∨ d.phase = .pump) :
    Step mailbox d (d.onInbound destinationAllowed none true) := by
  have hsame : ({ d with received := d.received ++ (none : Option RelayInbound).toList } : Driver)
      = d := by
    rw [Option.toList_none, List.append_nil]
  rcases hp with hp | hp
  · rw [onInbound_await hp, hsame]
    exact ⟨⟨h.out, fun hr => absurd rfl hr, fun hb => hb.elim nofun nofun, h.reading,
      h.handed.stop (not_not.mpr rfl)⟩, .refl _⟩
  · rw [onInbound_pump hp, hsame]
    exact flush_step h hp d.out.flushR2cBatch rfl rfl (.inr rfl)

/-- The next message of the mailbox. -/
theorem onInbound_step (h : Inv mailbox d) (hp : d.phase = .awaitConnect ∨ d.phase = .pump)
    (hroom : d.out.nextSeq < u64Size) {m : RelayInbound}
    (hm : mailbox[d.received.length]? = some m) (writeOk : Bool) :
    Step mailbox d (d.onInbound destinationAllowed (some m) writeOk) := by
  rcases hp with hp | hp
  · rw [onInbound_await hp]
    exact onConnect_step h hp hm
  · rw [onInbound_pump hp]
    exact onPumpInbound_step h hp hroom hm writeOk

/-- **One step of the relay's driver.** -/
theorem step_step {e : Event} (h : Inv mailbox d)
    (hs : d.step destinationAllowed mailbox e = some d') : Step mailbox d d' := by
  unfold step at hs
  by_cases hguard : d.phase = .returned ∨ u64Size ≤ d.out.nextSeq + 1
  · rw [if_pos hguard] at hs
    cases hs
  rw [if_neg hguard] at hs
  obtain ⟨hr, hroom⟩ := not_or.mp hguard
  rw [Nat.not_le] at hroom
  -- the driver takes messages in two of its phases
  have hwaits : d.phase ≠ .dialing → d.phase = .awaitConnect ∨ d.phase = .pump := by
    intro hd
    cases hphase : d.phase with
    | awaitConnect => exact .inl rfl
    | dialing => exact absurd hphase hd
    | pump => exact .inr rfl
    | returned => exact absurd hphase hr
  cases e with
  | recv writeOk =>
      dsimp only at hs
      split_ifs at hs with hd
      obtain ⟨m, hm, rfl⟩ := Option.map_eq_some_iff.mp hs
      exact onInbound_step h (hwaits hd) (Nat.lt_of_succ_lt hroom) hm writeOk
  | mailboxClosed =>
      dsimp only at hs
      split_ifs at hs with hd
      cases hs
      exact onClosed_step h (hwaits (not_or.mp hd).1)
  | dial outcome =>
      dsimp only at hs
      split_ifs at hs with hd
      cases hs
      exact onDial_step h hd outcome
  | timer =>
      dsimp only at hs
      split_ifs at hs with hp
      cases hs
      exact onTimer_step h hp.1
  | read r =>
      dsimp only at hs
      split_ifs at hs with hp
      cases hs
      exact onRead_step h hp.1 hroom hp.2 r

end Driver

end Rahgozar.Drive
