import Rahgozar.Tunnel.Loop

set_option autoImplicit false

/-! # Transparent retry (`tunnel_connection` in `src/tunnel_client.rs`)

`tunnel_connection` reads the first bytes of the local client, opens a session with them and
runs the session loop. When the remote side ends the session before anything came back, it opens
a second session and replays the bytes of the pre-read. The guard of the retry looks at a counter
of downloaded bytes and at the pre-read; `retry_safe_iff` says for which runs that is enough.
-/

namespace Rahgozar.Tunnel

open LoopState

inductive ConnectDataOutcome where
  | opened (sid : String) (response : TunnelResponse)
  | unsupported

/-- The session, the first response and the data left for the loop. `plainSid` is the session
`connect_plain` opens. -/
def openSession (initialData : Option (List UInt8)) (outcome : ConnectDataOutcome)
    (plainSid : String) : String × Option TunnelResponse × Option (List UInt8) :=
  match initialData with
  | none => (plainSid, none, none)
  | some data =>
      match outcome with
      | .opened sid response => (sid, some response, none)
      | .unsupported => (plainSid, none, some data)

/-- The first attempt: over with the first response, or in the session loop. `wrote` is
`first_resp_wrote_data`; no result when the local socket fails. -/
inductive FirstAttempt where
  | done (result : Option (TunnelEnd × Bool)) (writer : Writer)
  | loop (wrote : Bool) (s : LoopState)

def firstAttempt (writer : Writer) (initialData : Option (List UInt8))
    (outcome : ConnectDataOutcome) (plainSid : String) : FirstAttempt :=
  match openSession initialData outcome plainSid with
  | (sid, none, pending) => .loop false (start sid writer pending)
  | (sid, some resp, pending) =>
      match writeTunnelResponse writer resp with
      | (writer, none) => .done none writer
      | (writer, some .badBase64) => .done (some (.needsClose, false)) writer
      | (writer, some outcome) =>
          let wrote := decide (outcome = .wrote)
          -- an end of stream in the first response reports no downloaded bytes
          if resp.eof.getD false then .done (some (.remoteEof 0, wrote)) writer
          else .loop wrote (start sid writer pending)

/-- How the first attempt ended: its result, the local socket, and what the loop read from it. -/
structure AttemptEnd where
  result : Option (TunnelEnd × Bool)
  writer : Writer
  loopRead : List UInt8

/-- The first attempt with the events `es` of its loop. -/
def FirstAttempt.run : FirstAttempt → List Event → Option AttemptEnd
  | .done result writer, [] => some ⟨result, writer, []⟩
  | .done _ _, _ :: _ => none
  | .loop wrote s, es =>
      (StepRun.run step s es).bind fun t =>
        match t.phase with
        | .ended result => some ⟨result.map fun r => (r, wrote), t.writer, t.consumed⟩
        | _ => none

def isTlsRecordHandshake : List UInt8 → Bool
  | 0x16 :: 0x03 :: _ => true
  | _ => false

def canRetryRemoteEof (firstRespWroteData : Bool) (bytesToBrowser : Nat)
    (retryReadyData : Option (List UInt8)) : Bool :=
  decide (bytesToBrowser = 0) && !firstRespWroteData && retryReadyData.any isTlsRecordHandshake

/-- Does the connection open a second session? `retry_ready_data` is the data of the pre-read. -/
def retries (initialData : Option (List UInt8)) (a : AttemptEnd) : Bool :=
  match a.result with
  | some (.remoteEof bytesToBrowser, wrote) => canRetryRemoteEof wrote bytesToBrowser initialData
  | _ => false

/-- Nothing has been written to the local socket, and all that was read from it is replayed. -/
def RetrySafe (initialData : Option (List UInt8)) (a : AttemptEnd) : Prop :=
  a.writer.written = [] ∧ initialData.getD [] ++ a.loopRead = initialData.getD []

/-! ## Steps that disturb a retry -/

/-- The step neither reads from the local client nor, in the grace period, writes to it. -/
def Quiet (s : LoopState) : Event → Prop
  | .read (.data _) => False
  | .reply m (.ok resp) _ _ =>
      s.phase = .grace → s.writer.taken (s.acceptedBytes m.seq resp) = []
  | _ => True

/-- Nothing has been read in the loop or written at all. -/
def Untouched (s : LoopState) : Prop := s.writer.written = [] ∧ s.consumed = []

/-- Nothing has been read in the loop, and what has been written is counted; a failed write is
the end of the loop. -/
structure Counted (s : LoopState) : Prop where
  consumed : s.consumed = []
  total : s.phase ≠ .ended none → s.totalDownloadBytes = 0 → s.writer.written = []
  result : ∀ n, s.phase = .ended (some (.remoteEof n)) → n = s.totalDownloadBytes

/-- From `s` to `t` the loop has read nothing, and if it has written something its counter has
gone up. -/
structure Grew (s t : LoopState) : Prop where
  consumed : t.consumed = s.consumed
  total : s.totalDownloadBytes ≤ t.totalDownloadBytes
  written : ∃ bytes, t.writer = (s.writer.writeAll bytes).1 ∧
    (bytes = [] ∨ s.totalDownloadBytes < t.totalDownloadBytes)

variable {s t u : LoopState}

theorem Grew.of_down (h : t.down = s.down) : Grew s t := by
  obtain ⟨hw, hc, ht, -⟩ := Downlink.mk.inj h
  exact ⟨hc, ht.ge, [], by rw [hw]; simp, .inl rfl⟩

theorem Grew.trans (h₁ : Grew s t) (h₂ : Grew t u) : Grew s u := by
  obtain ⟨a, ha, hna⟩ := h₁.written
  obtain ⟨b, hb, hnb⟩ := h₂.written
  have h₁t := h₁.total
  have h₂t := h₂.total
  refine ⟨h₂.consumed.trans h₁.consumed, h₁t.trans h₂t, a ++ b, ?_, ?_⟩
  · rw [hb, ha, Writer.writeAll_append]
  · -- without bytes in the first part the counter went up in the second
    rcases hna with rfl | hna
    · exact hnb.imp id fun h => by omega
    · exact .inr (by omega)

theorem Grew.nothing_written (h : Grew s t) (hs : Counted s) (hrun : s.phase ≠ .ended none)
    (h0 : t.totalDownloadBytes = 0) : t.writer.written = [] := by
  obtain ⟨bytes, hb, hnil | hlt⟩ := h.written
  · have hs0 : s.totalDownloadBytes = 0 := by
      have := h.total
      omega
    rw [hb, hnil, Writer.writeAll_nil]
    exact hs.total hrun hs0
  · omega

theorem deliver_grew {resp : TunnelResponse} (hok : (deliver s resp).2 = true) :
    Grew s (deliver s resp).1 := by
  rcases deliver_cases s resp with ⟨-, -, hd⟩ | ⟨hno, -⟩ | ⟨hno, -⟩
  · obtain ⟨hw, hc, ht, -⟩ := Downlink.mk.inj hd
    refine ⟨hc, by omega, payload resp, hw, ?_⟩
    -- a response without bytes is not counted, one with bytes counts at least three
    by_cases hp : payload resp = []
    · exact .inl hp
    · rw [if_neg hp] at ht
      have := downloadBytes_pos hp
      exact .inr (by omega)
  · rw [hno] at hok
    cases hok
  · rw [hno] at hok
    cases hok

/-- A response that ends the loop: its text was not base64, or the local socket failed. -/
theorem deliver_left {resp : TunnelResponse} (hno : (deliver s resp).2 = false) :
    (deliver s resp).1 = s.finish ∨
    ((deliver s resp).1.phase = .ended none ∧ (deliver s resp).1.consumed = s.consumed ∧
      ∃ bytes, (deliver s resp).1.writer = (s.writer.writeAll bytes).1) := by
  rcases deliver_cases s resp with ⟨hok, -⟩ | ⟨-, -, hf⟩ | ⟨-, hph, hd⟩
  · rw [hno] at hok
    cases hok
  · exact .inl hf
  · obtain ⟨hw, hc, -⟩ := Downlink.mk.inj hd
    exact .inr ⟨hph, hc, _, hw⟩

/-- A response accepted in the main wait. -/
theorem accepted_grew (s : LoopState) (m : InflightMeta) (resp : TunnelResponse) :
    (Grew s (s.accepted m resp).1 ∧ ((s.accepted m resp).2 = false →
      (s.accepted m resp).1.EndsRight)) ∨
    ((s.accepted m resp).2 = false ∧ (s.accepted m resp).1.phase = .ended none ∧
      (s.accepted m resp).1.consumed = s.consumed ∧
      ∃ bytes, (s.accepted m resp).1.writer = (s.writer.writeAll bytes).1) := by
  have hb : Grew s (s.beforeAccept m resp) := .of_down rfl
  -- what a delivery that ends the loop leaves behind
  have hleft : ∀ v r n (p : BTreeMap TunnelResponse), Grew s v → (deliver v r).2 = false →
      (Grew s { (deliver v r).1 with nextWriteSeq := n, pendingWrites := p } ∧
        EndsRight { (deliver v r).1 with nextWriteSeq := n, pendingWrites := p }) ∨
      ((deliver v r).1.phase = .ended none ∧ (deliver v r).1.consumed = s.consumed ∧
        ∃ bytes, (deliver v r).1.writer = (s.writer.writeAll bytes).1) := by
    intro v r n p hv hno
    rcases deliver_left hno with hf | ⟨hph, hc, b, hw⟩
    · rw [hf]
      exact .inl ⟨⟨hv.consumed, hv.total, hv.written⟩, finish_endsRight v⟩
    · obtain ⟨a, ha, -⟩ := hv.written
      exact .inr ⟨hph, hc.trans hv.consumed, a ++ b, by rw [hw, ha, Writer.writeAll_append]⟩
  have hstep : ∀ (v : LoopState) (n : Nat) (p : BTreeMap TunnelResponse) (r : TunnelResponse),
      Grew s v → p.firstEntry = some (n, r) → (deliver v r).2 = true → Grew s (deliver v r).1 :=
    fun v _ _ r hv _ hok => hv.trans (deliver_grew hok)
  have hrule := accept_rule (P := fun v _ _ => Grew s v) (s.beforeAccept m resp) m.seq resp
    (fun _ hok => hb.trans (deliver_grew hok)) hstep
  -- out of turn; left by the response itself; flushed up to a gap; left by a buffered one
  rcases hrule with ⟨-, ha⟩ | ⟨-, hno, ha⟩ | ⟨-, v, n, p, hv, -, ha⟩ |
    ⟨-, v, n, p, r, hv, -, hno, ha⟩
  all_goals unfold accepted; rw [ha]
  · exact .inl ⟨⟨hb.consumed, hb.total, hb.written⟩, nofun⟩
  · rcases hleft _ resp _ _ hb hno with ⟨hg, he⟩ | ⟨hph, hc, hw⟩
    · exact .inl ⟨hg, fun _ => he⟩
    · exact .inr ⟨rfl, hph, hc, hw⟩
  · exact .inl ⟨⟨hv.consumed, hv.total, hv.written⟩, nofun⟩
  · rcases hleft v r n p.popFirst hv hno with ⟨hg, he⟩ | ⟨hph, hc, hw⟩
    · exact .inl ⟨hg, fun _ => he⟩
    · exact .inr ⟨rfl, hph, hc, hw⟩

/-- A response accepted in the grace period is not counted. -/
theorem acceptedGrace_frame (s : LoopState) (m : InflightMeta) (resp : TunnelResponse) :
    (s.acceptedGrace m resp).consumed = s.consumed ∧
      (s.acceptedGrace m resp).totalDownloadBytes = s.totalDownloadBytes ∧
      (s.acceptedGrace m resp).writer = (s.writer.writeAll (s.acceptedBytes m.seq resp)).1 := by
  have hstep : ∀ (v : LoopState) (n : Nat) (p : BTreeMap TunnelResponse) (r : TunnelResponse),
      (v.consumed = s.consumed ∧ v.totalDownloadBytes = s.totalDownloadBytes) →
      p.firstEntry = some (n, r) → (deliverGrace v r).2 = true →
      (deliverGrace v r).1.consumed = s.consumed ∧
        (deliverGrace v r).1.totalDownloadBytes = s.totalDownloadBytes :=
    fun v _ _ r hv _ _ => hv
  have hw := accept_deliverGrace_writer (s.takeReply m) m.seq resp
  unfold acceptedGrace
  rcases accept_rule (P := fun v _ _ => v.consumed = s.consumed ∧
      v.totalDownloadBytes = s.totalDownloadBytes) (s.takeReply m) m.seq resp
      (fun _ _ => ⟨rfl, rfl⟩) hstep with
    ⟨-, ha⟩ | ⟨-, hno, ha⟩ | ⟨-, v, n, p, hv, -, ha⟩ | ⟨-, v, n, p, r, hv, -, hno, ha⟩
  · exact ⟨by rw [ha]; rfl, by rw [ha]; rfl, hw⟩
  · cases hno
  · exact ⟨by rw [ha]; exact hv.1, by rw [ha]; exact hv.2, hw⟩
  · cases hno

/-- Reads and writes are never taken back. -/
theorem untouched_back {e : Event} (h : step s e = some t) (ht : Untouched t) :
    Untouched s ∧ Quiet s e := by
  obtain ⟨hwt, hct⟩ := ht
  cases step_effect h with
  | passive he hdown _ =>
      obtain ⟨hw, hc, -⟩ := Downlink.mk.inj hdown
      refine ⟨⟨by rw [← hw, hwt], by rw [← hc, hct]⟩, ?_⟩
      cases e with
      | read r => cases he
      | reply m outcome l p =>
          cases outcome with
          | ok resp => cases he
          | _ => trivial
      | _ => trivial
  | @read r hfits hdown _ =>
      obtain ⟨hw, hc, -⟩ := Downlink.mk.inj hdown
      replace hw : t.writer = s.writer := hw
      -- a read that leaves nothing consumed was no read of data
      rw [hct] at hc
      obtain ⟨hs, hr⟩ := List.append_eq_nil_iff.mp hc.symm
      refine ⟨⟨by rw [← hw, hwt], hs⟩, ?_⟩
      cases r with
      | data bytes =>
          replace hr : bytes = [] := hr
          exact absurd (hr ▸ hfits.1) (lt_irrefl 0)
      | eof => trivial
      | err => trivial
  | refused hphase _ hdown _ _ =>
      obtain ⟨hw, hc, -⟩ := Downlink.mk.inj hdown
      exact ⟨⟨by rw [← hw, hwt], by rw [← hc, hct]⟩, fun hg => by rw [hphase] at hg; cases hg⟩
  | @accepted m resp _ _ hphase _ hok hdown _ =>
      obtain ⟨hw, hc, -⟩ := Downlink.mk.inj hdown
      rw [hw] at hwt
      rw [hc] at hct
      refine ⟨?_, fun hg => by rw [hphase] at hg; cases hg⟩
      rcases accepted_grew s m resp with ⟨hgrew, -⟩ | ⟨hno, -⟩
      · obtain ⟨bytes, hb, -⟩ := hgrew.written
        rw [hb, Writer.writeAll_written] at hwt
        exact ⟨(List.append_eq_nil_iff.mp hwt).1, hgrew.consumed ▸ hct⟩
      · rw [hok] at hno
        cases hno
  | @left m resp _ _ hphase _ _ ht =>
      rw [ht] at hwt hct
      refine ⟨?_, fun hg => by rw [hphase] at hg; cases hg⟩
      rcases accepted_grew s m resp with ⟨hgrew, -⟩ | ⟨-, -, hc, bytes, hb⟩
      · obtain ⟨bytes, hb, -⟩ := hgrew.written
        rw [hb, Writer.writeAll_written] at hwt
        exact ⟨(List.append_eq_nil_iff.mp hwt).1, hgrew.consumed ▸ hct⟩
      · rw [hb, Writer.writeAll_written] at hwt
        exact ⟨(List.append_eq_nil_iff.mp hwt).1, hc ▸ hct⟩
  | @grace m resp _ _ hphase hdown _ =>
      obtain ⟨hw, hc, -⟩ := Downlink.mk.inj hdown
      -- what the socket took in the grace period is exactly what `Quiet` excludes
      obtain ⟨hcon, -, hwr⟩ := acceptedGrace_frame s m resp
      rw [hw, hwr, Writer.writeAll_written] at hwt
      obtain ⟨hs, htaken⟩ := List.append_eq_nil_iff.mp hwt
      exact ⟨⟨hs, by rw [← hcon, ← hc, hct]⟩, fun _ => htaken⟩

/-- A quiet step keeps the counter honest. -/
theorem counted_step {e : Event} (hs : Counted s) (hq : Quiet s e) (h : step s e = some t) :
    Counted t := by
  have hrun : s.phase ≠ .ended none := step_running h none
  -- an end by `finish` reports the counter
  have hresult : ∀ {v : LoopState}, v.EndsRight → ∀ n, v.phase = .ended (some (.remoteEof n)) →
      n = v.totalDownloadBytes := by
    intro v hv n hn
    have := Option.some.inj (hv _ hn)
    split_ifs at this
    cases this
    rfl
  cases step_effect h with
  | passive _ hdown hend =>
      obtain ⟨hw, hc, ht, -⟩ := Downlink.mk.inj hdown
      exact ⟨hc.trans hs.consumed, fun _ h0 => by rw [hw]; exact hs.total hrun (ht ▸ h0),
        hresult hend⟩
  | @read r _ hdown hend =>
      obtain ⟨hw, hc, ht, -⟩ := Downlink.mk.inj hdown
      replace ht : t.totalDownloadBytes = s.totalDownloadBytes := ht
      have hb : r.bytes = [] := by
        cases r with
        | data bytes => exact hq.elim
        | eof => rfl
        | err => rfl
      rw [hb, List.append_nil] at hc
      exact ⟨hc.trans hs.consumed, fun _ h0 => by rw [hw]; exact hs.total hrun (ht ▸ h0),
        hresult hend⟩
  | refused _ _ hdown hend _ =>
      obtain ⟨hw, hc, ht, -⟩ := Downlink.mk.inj hdown
      exact ⟨hc.trans hs.consumed, fun _ h0 => by rw [hw]; exact hs.total hrun (ht ▸ h0),
        hresult hend⟩
  | @accepted m resp _ _ _ _ hok hdown htop =>
      obtain ⟨hw, hc, ht, -⟩ := Downlink.mk.inj hdown
      rcases accepted_grew s m resp with ⟨hgrew, -⟩ | ⟨hno, -⟩
      · refine ⟨hc.trans (hgrew.consumed.trans hs.consumed), fun _ h0 => ?_, fun n hn => ?_⟩
        · exact hw ▸ hgrew.nothing_written hs hrun (ht ▸ h0)
        · rw [htop] at hn
          cases hn
      · rw [hok] at hno
        cases hno
  | @left m resp _ _ _ _ hok ht =>
      rw [ht]
      rcases accepted_grew s m resp with ⟨hgrew, hend⟩ | ⟨-, hph, hc, -⟩
      · exact ⟨hgrew.consumed.trans hs.consumed, fun _ h0 => hgrew.nothing_written hs hrun h0,
          hresult (hend hok)⟩
      · refine ⟨hc.trans hs.consumed, fun hne => absurd hph hne, fun n hn => ?_⟩
        rw [hph] at hn
        cases hn
  | @grace m resp _ _ hphase hdown htop =>
      obtain ⟨hw, hc, ht, -⟩ := Downlink.mk.inj hdown
      obtain ⟨hcon, htot, hwr⟩ := acceptedGrace_frame s m resp
      -- no count to rely on here: the step is quiet, so the socket took nothing
      refine ⟨by rw [hc, hcon, hs.consumed], fun _ h0 => ?_, fun n hn => ?_⟩
      · rw [hw, hwr, Writer.writeAll_written, hq hphase, List.append_nil]
        exact hs.total hrun (by rw [← htot, ← ht, h0])
      · rw [htop] at hn
        cases hn

/-! ## When a retry is safe -/

/-- No step of the attempt disturbs a retry. -/
def FirstAttempt.QuietRun : FirstAttempt → List Event → Prop
  | .done _ _, _ => True
  | .loop _ s, es => StepRun.AllSteps step Quiet s es

theorem start_untouched {sid : String} {w : Writer} {pending : Option (List UInt8)}
    (hw : w.written = []) : Untouched (start sid w pending) ∧ Counted (start sid w pending) := by
  have htop := start_phase sid w pending
  obtain ⟨hwr, hc, ht, -⟩ := Downlink.mk.inj (start_down sid w pending)
  have hnil : (start sid w pending).writer.written = [] := by
    rw [hwr]
    exact hw
  exact ⟨⟨hnil, hc⟩, hc, fun _ _ => hnil, fun n hn => by rw [htop] at hn; cases hn⟩

/-- An attempt that reports no data in its first response has written none. -/
def FirstAttempt.Clean : FirstAttempt → Prop
  | .done result w => ∀ r, result = some (r, false) → w.written = []
  | .loop wrote s => wrote = false → Untouched s ∧ Counted s

theorem firstAttempt_clean (room : Option Nat) (initialData : Option (List UInt8))
    (outcome : ConnectDataOutcome) (plainSid : String) :
    (firstAttempt ⟨[], room⟩ initialData outcome plainSid).Clean := by
  unfold firstAttempt
  rcases openSession initialData outcome plainSid with ⟨sid, _ | resp, pending⟩
  · exact fun _ => start_untouched rfl
  · have hw := writeTunnelResponse_writer ⟨[], room⟩ resp
    have hcases := writeTunnelResponse_cases ⟨[], room⟩ resp
    dsimp only
    generalize writeTunnelResponse ⟨[], room⟩ resp = wr at hw hcases ⊢
    obtain ⟨w, o⟩ := wr
    dsimp only at hw hcases ⊢
    rcases hcases with ⟨hp, rfl | rfl⟩ | ⟨-, rfl⟩
    · rw [hp, Writer.writeAll_nil] at hw
      dsimp only
      split_ifs
      · exact fun _ _ => by rw [hw]
      · exact fun _ => start_untouched (by rw [hw])
    · rw [hp, Writer.writeAll_nil] at hw
      exact fun _ _ => by rw [hw]
    · split_ifs
      · exact fun r hr => by simp at hr
      · exact nofun
      · exact nofun
      · exact nofun

/-- The loop of an attempt that has not written its first response. -/
theorem loop_safe_iff {s t : LoopState} {es : List Event} (hs : Untouched s ∧ Counted s)
    (hrun : StepRun.run step s es = some t)
    (hend : t.phase = .ended (some (.remoteEof 0))) :
    (t.writer.written = [] ∧ t.consumed = []) ↔ StepRun.AllSteps step Quiet s es := by
  constructor
  · -- backwards along the run: the end is untouched, so every state before it was
    intro ht
    exact (StepRun.allSteps_of_run (fun _ _ _ h ht => untouched_back h ht) hrun ht).2
  · -- forwards: the counter stays honest, and at the end it is zero
    intro hq
    have ht : Counted t := StepRun.run_invariant (fun _ _ _ hp hc h => counted_step hp hc h)
      hs.2 hq hrun
    have htotal : t.totalDownloadBytes = 0 := (ht.result 0 hend).symm
    exact ⟨ht.total (by rw [hend]; nofun) htotal, ht.consumed⟩

/-- The guard of the retry branch. -/
theorem retries_iff {initialData : Option (List UInt8)} {a : AttemptEnd} :
    retries initialData a = true ↔
      a.result = some (.remoteEof 0, false) ∧ initialData.any isTlsRecordHandshake = true := by
  obtain ⟨result, w, read⟩ := a
  rcases result with _ | ⟨_ | _, wrote⟩ <;> simp [retries, canRetryRemoteEof]

/-- **When a transparent retry is safe.** In every run of `tunnel_connection` that takes the retry
branch, nothing has been written to the local socket and everything read from it is replayed if
and only if the first session loop read no data from the local client and wrote no response data
to it during the grace period. -/
theorem retry_safe_iff (room : Option Nat) (initialData : Option (List UInt8))
    (outcome : ConnectDataOutcome) (plainSid : String) (es : List Event) (a : AttemptEnd)
    (hrun : (firstAttempt ⟨[], room⟩ initialData outcome plainSid).run es = some a)
    (hretry : retries initialData a = true) :
    RetrySafe initialData a
      ↔ (firstAttempt ⟨[], room⟩ initialData outcome plainSid).QuietRun es := by
  have hclean := firstAttempt_clean room initialData outcome plainSid
  obtain ⟨hres, htls⟩ := retries_iff.mp hretry
  have hsafe : RetrySafe initialData a ↔ a.writer.written = [] ∧ a.loopRead = [] := by
    unfold RetrySafe
    rw [List.append_right_eq_self]
  rw [hsafe]
  cases hfirst : firstAttempt ⟨[], room⟩ initialData outcome plainSid with
  -- the end came with the first response: no loop ran
  | done result w =>
      rw [hfirst] at hrun hclean
      cases es with
      | cons e es => cases hrun
      | nil =>
          cases hrun
          exact iff_of_true ⟨hclean _ hres, rfl⟩ trivial
  | loop wrote s =>
      rw [hfirst] at hrun hclean
      obtain ⟨t, ht, ha⟩ := Option.bind_eq_some_iff.mp hrun
      cases hph : t.phase with
      | ended r =>
          simp only [hph] at ha
          cases ha
          obtain ⟨r', hr, hrr⟩ := Option.map_eq_some_iff.mp hres
          cases hrr
          exact loop_safe_iff (hclean rfl) ht (by rw [hph, hr])
      | _ => simp [hph] at ha

/-- A ClientHello record, as far as the retry looks at it. -/
def clientHello : List UInt8 := [0x16, 0x03, 0x01]

/-- A reply with sequence number `seq` and the end of the stream. -/
def eofReply (seq : Nat) (d : Option (List Char)) : TunnelResponse :=
  ⟨some "s", d, none, some true, none, none, some seq⟩

/-- The session ends without a byte; the first poll brings the end of the stream. -/
def quietEnd : List Event :=
  [.turn false, .reply ⟨0, true⟩ (.ok (eofReply 0 none)) false false, .turn false]

/-- The loop has read one more byte and sent it when the end of the stream comes, and the reply
to that upload brings a byte in the grace period. -/
def busyEnd : List Event :=
  [.turn false, .read (.data [7]), .turn false,
    .reply ⟨0, true⟩ (.ok (eofReply 0 none)) false false, .turn false,
    .reply ⟨1, false⟩ (.ok (eofReply 1 (some (Base64.encode [72])))) false false, .turn false]

/-- The answer to `connect_data` without data. -/
def openedEmpty : ConnectDataOutcome :=
  .opened "s" ⟨some "s", none, none, some false, none, none, none⟩

theorem retry_safe_iff_quietEnd :
    ∃ a, (firstAttempt ⟨[], none⟩ (some clientHello) openedEmpty "p").run quietEnd = some a ∧
      retries (some clientHello) a = true ∧
      (RetrySafe (some clientHello) a
        ↔ (firstAttempt ⟨[], none⟩ (some clientHello) openedEmpty "p").QuietRun quietEnd) := by
  have hsome : ((firstAttempt ⟨[], none⟩ (some clientHello) openedEmpty "p").run quietEnd).any
      (retries (some clientHello)) = true := by decide
  obtain ⟨a, hrun, hretry⟩ := (Option.any_eq_true _ _).mp hsome
  exact ⟨a, hrun, hretry, retry_safe_iff none (some clientHello) openedEmpty "p" quietEnd a hrun hretry⟩

/-- A byte the client sent is not replayed, and a byte of the first session is on the local socket
before the second one starts. -/
theorem retry_not_safe :
    ¬ ∀ (room : Option Nat) (initialData : Option (List UInt8)) (outcome : ConnectDataOutcome)
        (plainSid : String) (es : List Event) (a : AttemptEnd),
        (firstAttempt ⟨[], room⟩ initialData outcome plainSid).run es = some a →
        retries initialData a = true → RetrySafe initialData a := by
  intro h
  have hsome : ((firstAttempt ⟨[], none⟩ (some clientHello) openedEmpty "p").run busyEnd).any
      (fun a => retries (some clientHello) a && decide (a.writer.written = [72])) = true := by
    decide
  obtain ⟨a, hrun, hboth⟩ := (Option.any_eq_true _ _).mp hsome
  obtain ⟨hretry, hwritten⟩ := Bool.and_eq_true_iff.mp hboth
  have hsafe := (h none (some clientHello) openedEmpty "p" busyEnd a hrun hretry).1
  rw [of_decide_eq_true hwritten] at hsafe
  cases hsafe

end Rahgozar.Tunnel
