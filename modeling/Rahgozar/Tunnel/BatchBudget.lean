import Rahgozar.Tunnel.BatchAnswers

set_option autoImplicit false

/-! # The payload of a batch response

The TCP drains of a batch share `BATCH_RESPONSE_BUDGET`: together they put what the sessions
offer into the response, or the budget if they offer more. The UDP drains that follow have no
budget, so the response keeps to it exactly when no datagram is queued or everything that is
offered fits.
-/

namespace Rahgozar.Tunnel

/-! ## What a session offers -/

/-- What a TCP session gives to a drain without a budget, as a number of bytes, and what becomes
of the session: a turn gives all that is there, up to the cap of `drain_now`, and is the last one
if nothing is there, the cap is reached, the stream has ended or the deadline has passed. -/
def offer (late : Nat → Bool) : Nat → SessionInner → List Arrival → TcpSession × Nat
  | _, inner, [] =>
      (⟨{ inner with readBuf := inner.readBuf.drop tcpDrainMaxBytes }, []⟩,
        min inner.readBuf.length tcpDrainMaxBytes)
  | turn, inner, a :: arriving =>
      let readBuf := inner.readBuf ++ a.bytes
      let eof := inner.eof || a.ended
      let left := { inner with readBuf := readBuf.drop tcpDrainMaxBytes, eof := eof }
      if readBuf = [] ∨ tcpDrainMaxBytes ≤ readBuf.length ∨ eof = true ∨ late turn = true then
        (⟨left, arriving⟩, min readBuf.length tcpDrainMaxBytes)
      else
        ((offer late (turn + 1) left arriving).1,
          readBuf.length + (offer late (turn + 1) left arriving).2)

/-! ## A drain takes what is offered, up to the budget -/

variable {late : Nat → Bool} {remaining turn : Nat} {s : TcpSession} {all : List UInt8}

/-- The session after a turn without a budget. -/
def TcpSession.left (s : TcpSession) : TcpSession :=
  ⟨{ s.inner with readBuf := s.inner.readBuf.drop tcpDrainMaxBytes }, s.arriving⟩

/-- What ends the loop below the budget. -/
def lastTurn (late : Nat → Bool) (turn : Nat) (s : TcpSession) : Prop :=
  tcpDrainMaxBytes ≤ s.inner.readBuf.length ∨ s.inner.eof = true ∨ late turn = true

theorem offer_last {inner : SessionInner} {a : Arrival} {arriving : List Arrival}
    (h : inner.readBuf ++ a.bytes = [] ∨
      lastTurn late turn (⟨inner, a :: arriving⟩ : TcpSession).arrive) :
    offer late turn inner (a :: arriving) =
      ((⟨inner, a :: arriving⟩ : TcpSession).arrive.left,
        min (inner.readBuf ++ a.bytes).length tcpDrainMaxBytes) := if_pos h

theorem offer_again {inner : SessionInner} {a : Arrival} {arriving : List Arrival}
    (h : ¬ (inner.readBuf ++ a.bytes = [] ∨
      lastTurn late turn (⟨inner, a :: arriving⟩ : TcpSession).arrive)) :
    offer late turn inner (a :: arriving) =
      let next := offer late (turn + 1) (⟨inner, a :: arriving⟩ : TcpSession).arrive.left.inner
        arriving
      (next.1, (inner.readBuf ++ a.bytes).length + next.2) := if_neg h

theorem tcpDrainMaxBytes_pos : 0 < tcpDrainMaxBytes := by decide

theorem TcpSession.drain_eq (s : TcpSession) (maxBytes : Nat) :
    s.drain maxBytes =
      (⟨{ s.inner with readBuf := s.inner.readBuf.drop (min maxBytes tcpDrainMaxBytes) },
          s.arriving⟩,
        s.inner.readBuf.take (min maxBytes tcpDrainMaxBytes),
        decide (s.inner.readBuf.length ≤ min maxBytes tcpDrainMaxBytes) && s.inner.eof) := by
  unfold TcpSession.drain drainNow
  dsimp only
  split_ifs with hle
  · rw [List.drop_eq_nil_of_le hle, List.take_of_length_le hle, decide_eq_true hle, Bool.true_and]
  · rw [decide_eq_false hle, Bool.false_and]

/-- Below the budget a turn takes what it takes without one. -/
theorem TcpSession.drain_below {maxBytes : Nat}
    (h : min s.inner.readBuf.length tcpDrainMaxBytes < maxBytes) :
    s.drain maxBytes =
      (s.left, s.inner.readBuf.take tcpDrainMaxBytes,
        decide (s.inner.readBuf.length ≤ tcpDrainMaxBytes) && s.inner.eof) := by
  rw [TcpSession.drain_eq, TcpSession.left]
  by_cases hm : tcpDrainMaxBytes ≤ maxBytes
  · rw [Nat.min_eq_right hm]
  · have hle : s.inner.readBuf.length ≤ min maxBytes tcpDrainMaxBytes := by omega
    have hle' : s.inner.readBuf.length ≤ tcpDrainMaxBytes := by omega
    rw [List.drop_eq_nil_of_le hle, List.take_of_length_le hle, List.drop_eq_nil_of_le hle',
      List.take_of_length_le hle', decide_eq_true hle, decide_eq_true hle']

theorem TcpSession.drain_at {maxBytes : Nat}
    (h : maxBytes ≤ min s.inner.readBuf.length tcpDrainMaxBytes) :
    (s.drain maxBytes).2.1.length = maxBytes := by
  rw [TcpSession.drain_eq, List.length_take]
  omega

/-- A turn that reaches the budget is the last one. -/
theorem drainLoop_at (hlt : all.length < remaining)
    (h : remaining - all.length ≤ min s.arrive.inner.readBuf.length tcpDrainMaxBytes) :
    (drainLoop late remaining turn s all).2.1.length = remaining := by
  have hlen := TcpSession.drain_at h
  have hne : (s.arrive.drain (remaining - all.length)).2.1.isEmpty = false := by
    rw [Bool.eq_false_iff, Ne, List.isEmpty_iff_length_eq_zero, hlen]
    omega
  have hfull : remaining ≤ (all ++ (s.arrive.drain (remaining - all.length)).2.1).length := by
    rw [List.length_append, hlen]
    omega
  rw [drainLoop]
  simp only [hne, Bool.false_eq_true, dite_false, decide_eq_true hfull, Bool.or_true,
    Bool.true_or, if_true]
  rw [List.length_append, hlen]
  omega

/-- A turn that finds nothing is the last one. -/
theorem drainLoop_nothing (h : s.arrive.inner.readBuf = []) :
    (drainLoop late remaining turn s all).1 = s.arrive ∧
      (drainLoop late remaining turn s all).2.1 = all := by
  have hempty : (s.arrive.drain (remaining - all.length)).2.1.isEmpty = true := by
    rw [TcpSession.drain_eq, h, List.take_nil]
    rfl
  rw [drainLoop]
  simp only [hempty, dite_true, and_true]
  rw [TcpSession.drain_eq, h, List.drop_nil, ← h]

theorem drainLoop_last (hne : s.arrive.inner.readBuf ≠ [])
    (hbelow : min s.arrive.inner.readBuf.length tcpDrainMaxBytes < remaining - all.length)
    (hlast : lastTurn late turn s.arrive) :
    (drainLoop late remaining turn s all).1 = s.arrive.left ∧
      (drainLoop late remaining turn s all).2.1 =
        all ++ s.arrive.inner.readBuf.take tcpDrainMaxBytes := by
  have hsome : (s.arrive.inner.readBuf.take tcpDrainMaxBytes).isEmpty = false := by
    simpa [tcpDrainMaxBytes_pos.ne'] using hne
  have hstop : (decide (s.arrive.inner.readBuf.length ≤ tcpDrainMaxBytes) && s.arrive.inner.eof ||
      decide (tcpDrainMaxBytes ≤ (s.arrive.inner.readBuf.take tcpDrainMaxBytes).length) ||
      decide (remaining ≤ (all ++ s.arrive.inner.readBuf.take tcpDrainMaxBytes).length) ||
      late turn) = true := by
    rw [List.length_append, List.length_take]
    rcases hlast with hcap | heof | hlate
    · rw [Nat.min_eq_left hcap]
      simp
    · -- the end of the stream is reported, or held back because the cap is reached
      rw [heof]
      rcases Nat.le_total s.arrive.inner.readBuf.length tcpDrainMaxBytes with hle | hle
      · simp [hle]
      · simp [Nat.min_eq_left hle]
    · simp [hlate]
  rw [drainLoop]
  simp only [TcpSession.drain_below hbelow, hsome, hstop, Bool.false_eq_true, dite_false, if_true,
    and_self]

theorem drainLoop_again (hne : s.arrive.inner.readBuf ≠ [])
    (hbelow : min s.arrive.inner.readBuf.length tcpDrainMaxBytes < remaining - all.length)
    (hgo : ¬ lastTurn late turn s.arrive) :
    drainLoop late remaining turn s all =
      drainLoop late remaining (turn + 1) s.arrive.left (all ++ s.arrive.inner.readBuf) := by
  simp only [lastTurn, not_or, Nat.not_le, Bool.not_eq_true] at hgo
  obtain ⟨hcap, heof, hlate⟩ := hgo
  have htake : s.arrive.inner.readBuf.take tcpDrainMaxBytes = s.arrive.inner.readBuf :=
    List.take_of_length_le (Nat.le_of_lt hcap)
  have hsome : s.arrive.inner.readBuf.isEmpty = false := by simpa using hne
  have hroom : ¬ remaining ≤ (all ++ s.arrive.inner.readBuf).length := by
    rw [List.length_append]
    omega
  conv_lhs => rw [drainLoop]
  simp only [TcpSession.drain_below hbelow, htake, hsome, heof, hlate, Bool.and_false,
    decide_eq_false (Nat.not_le.mpr hcap), decide_eq_false hroom, Bool.or_self,
    Bool.false_eq_true, dite_false, if_false]

/-- A loop below the budget with nothing on the way takes what is there. -/
theorem drainLoop_nil (inner : SessionInner)
    (hbelow : min inner.readBuf.length tcpDrainMaxBytes < remaining - all.length) :
    (drainLoop late remaining turn ⟨inner, []⟩ all).1 = TcpSession.left ⟨inner, []⟩ ∧
      (drainLoop late remaining turn ⟨inner, []⟩ all).2.1 =
        all ++ inner.readBuf.take tcpDrainMaxBytes := by
  by_cases hne : inner.readBuf = []
  · have hnone := @drainLoop_nothing late remaining turn ⟨inner, []⟩ all hne
    rw [hne, List.take_nil, List.append_nil]
    refine ⟨hnone.1.trans ?_, hnone.2⟩
    rw [TcpSession.left, hne, List.drop_nil, ← hne]
    rfl
  · by_cases hlast : lastTurn late turn ⟨inner, []⟩
    · exact drainLoop_last (s := ⟨inner, []⟩) hne hbelow hlast
    · have hcap : inner.readBuf.length ≤ tcpDrainMaxBytes := by
        simp only [lastTurn, not_or, Nat.not_le] at hlast
        exact Nat.le_of_lt hlast.1
      have hempty : (TcpSession.left ⟨inner, []⟩).arrive.inner.readBuf = [] :=
        List.drop_eq_nil_of_le hcap
      rw [drainLoop_again (s := ⟨inner, []⟩) hne hbelow hlast, List.take_of_length_le hcap]
      exact drainLoop_nothing hempty

/-- A drain takes what the session offers, and leaves the session as the offer does; or it takes
the budget, if the session offers as much. -/
theorem drainLoop_offer (arriving : List Arrival) :
    ∀ (turn : Nat) (inner : SessionInner) (all : List UInt8), all.length < remaining →
      (all.length + (offer late turn inner arriving).2 < remaining →
        (drainLoop late remaining turn ⟨inner, arriving⟩ all).1 =
            (offer late turn inner arriving).1 ∧
          (drainLoop late remaining turn ⟨inner, arriving⟩ all).2.1.length =
            all.length + (offer late turn inner arriving).2) ∧
      (remaining ≤ all.length + (offer late turn inner arriving).2 →
        (drainLoop late remaining turn ⟨inner, arriving⟩ all).2.1.length = remaining) := by
  induction arriving with
  | nil =>
      intro turn inner all hlt
      simp only [offer]
      constructor
      · intro hfits
        obtain ⟨hs, hdata⟩ := @drainLoop_nil late remaining turn all inner
          (show min inner.readBuf.length tcpDrainMaxBytes < remaining - all.length by omega)
        refine ⟨hs, ?_⟩
        rw [hdata, List.length_append, List.length_take, Nat.min_comm]
      · intro hmore
        apply drainLoop_at hlt
        show remaining - all.length ≤ min inner.readBuf.length tcpDrainMaxBytes
        omega
  | cons a arriving ih =>
      intro turn inner all hlt
      have harr : (⟨inner, a :: arriving⟩ : TcpSession).arrive =
        ⟨{ inner with readBuf := inner.readBuf ++ a.bytes, eof := inner.eof || a.ended },
          arriving⟩ := rfl
      -- whether or not it is the last one, this turn offers what is there up to the cap
      have hfirst : min (inner.readBuf ++ a.bytes).length tcpDrainMaxBytes ≤
          (offer late turn inner (a :: arriving)).2 := by
        simp only [offer]
        split_ifs <;> omega
      by_cases hhit : remaining - all.length ≤
          min (inner.readBuf ++ a.bytes).length tcpDrainMaxBytes
      · have hat := @drainLoop_at late remaining turn ⟨inner, a :: arriving⟩ all hlt hhit
        exact ⟨fun hfits => by omega, fun _ => hat⟩
      rw [Nat.not_le] at hhit
      by_cases hnil : inner.readBuf ++ a.bytes = []
      · have hnone := @drainLoop_nothing late remaining turn ⟨inner, a :: arriving⟩ all hnil
        rw [offer_last (.inl hnil), hnone.1, hnone.2, TcpSession.left, harr, hnil]
        simp only [List.drop_nil, List.length_nil, Nat.zero_min, Nat.add_zero]
        exact ⟨fun _ => ⟨trivial, trivial⟩, fun h => absurd h (by omega)⟩
      by_cases hlast : lastTurn late turn (⟨inner, a :: arriving⟩ : TcpSession).arrive
      · obtain ⟨hs, hdata⟩ := drainLoop_last (s := ⟨inner, a :: arriving⟩) hnil hhit hlast
        have hlen : (all ++ (inner.readBuf ++ a.bytes).take tcpDrainMaxBytes).length =
            all.length + min (inner.readBuf ++ a.bytes).length tcpDrainMaxBytes := by
          rw [List.length_append, List.length_take, Nat.min_comm]
        rw [offer_last (.inr hlast), hs, hdata]
        exact ⟨fun _ => ⟨rfl, hlen⟩, fun h => absurd h (by dsimp only; omega)⟩
      · rw [offer_again (not_or.mpr ⟨hnil, hlast⟩),
          drainLoop_again (s := ⟨inner, a :: arriving⟩) hnil hhit hlast]
        have hcap : (inner.readBuf ++ a.bytes).length < tcpDrainMaxBytes :=
          Nat.not_le.mp fun hle => hlast (.inl hle)
        have hnext := ih (turn + 1) (⟨inner, a :: arriving⟩ : TcpSession).arrive.left.inner
          (all ++ (inner.readBuf ++ a.bytes)) (by rw [List.length_append]; omega)
        rw [List.length_append, Nat.add_assoc] at hnext
        exact hnext

/-! ## The payload of answers -/

def decodedLength (text : List Char) : Nat := ((Base64.decode text).getD []).length

/-- The raw bytes in an answer. -/
def TunnelResponse.payload (r : TunnelResponse) : Nat :=
  r.d.elim 0 decodedLength + r.pkts.elim 0 fun texts => (texts.map decodedLength).sum

def payloadBytes (rs : List TunnelResponse) : Nat := (rs.map TunnelResponse.payload).sum

theorem decodedLength_encode (bytes : List UInt8) :
    decodedLength (Base64.encode bytes) = bytes.length := by
  rw [decodedLength, Base64.decode_encode, Option.getD_some]

theorem payload_tcpDrainResponse (sid : String) (data : List UInt8) (eof : Bool)
    (seq : Option Nat) : (tcpDrainResponse sid data eof seq).payload = data.length := by
  unfold tcpDrainResponse TunnelResponse.payload
  cases data with
  | nil => rfl
  | cons c data => exact decodedLength_encode (c :: data)

theorem payload_udpDrainResponse (sid : String) (packets : List (List UInt8)) (eof : Bool)
    (seq : Option Nat) :
    (udpDrainResponse sid packets eof seq).payload = (packets.map List.length).sum := by
  unfold udpDrainResponse TunnelResponse.payload
  cases packets with
  | nil => rfl
  | cons p packets =>
      simp [List.map_map, Function.comp_def, decodedLength_encode]

theorem payload_bare {r : TunnelResponse} (h : r.d = none ∧ r.pkts = none) : r.payload = 0 := by
  simp [TunnelResponse.payload, h.1, h.2]

namespace Batch

variable (out : Outside)

def payload (b : Batch) : Nat := payloadBytes (b.results.map Prod.snd)

theorem payload_push (b : Batch) (i : Nat) (r : TunnelResponse) :
    (b.push i r).payload = b.payload + r.payload := by
  simp [payload, push, payloadBytes]

/-- The sort does not change the payload. -/
theorem payloadBytes_responses (b : Batch) : payloadBytes b.responses = b.payload := by
  have hperm := List.mergeSort_perm b.results fun x y => decide (x.1 ≤ y.1)
  exact ((hperm.map Prod.snd).map TunnelResponse.payload).sum_eq

/-! ## What a batch finds -/

/-- What the TCP sessions of a batch offer, one after the other. -/
def offeredTcp : AppState → Nat → List Drain → Nat
  | _, _, [] => 0
  | state, awaits, d :: ds =>
      let state := out.others awaits state
      let s := state.tcp d.inner
      let next := offer (out.late d.i) 0 s.inner s.arriving
      next.2 + offeredTcp { state with tcp := Function.update state.tcp d.inner next.1 }
        (awaits + 1) ds

/-- What is queued in the UDP sessions of a batch, one after the other. -/
def queuedUdp : AppState → Nat → List Drain → Nat
  | _, _, [] => 0
  | state, awaits, d :: ds =>
      let state := out.others awaits state
      let s := state.udp d.inner
      (s.packets.map List.length).sum +
        queuedUdp { state with udp := Function.update state.udp d.inner { s with packets := [] } }
          (awaits + 1) ds

/-- A drain with a budget takes the smaller of budget and offer. -/
theorem drainLoop_length (s : TcpSession) (hpos : 0 < remaining) :
    (drainLoop late remaining 0 s []).2.1.length =
      min remaining (offer late 0 s.inner s.arriving).2 := by
  obtain ⟨hfits, hfull⟩ := @drainLoop_offer late remaining s.arriving 0 s.inner [] hpos
  rw [List.length_nil, Nat.zero_add] at hfits hfull
  rcases Nat.lt_or_ge (offer late 0 s.inner s.arriving).2 remaining with hlt | hge
  · exact (hfits hlt).2.trans (Nat.min_eq_right (Nat.le_of_lt hlt)).symm
  · exact (hfull hge).trans (Nat.min_eq_left hge).symm

/-- A TCP drain moves what it takes from the budget to the payload. -/
theorem drainTcp_payload (acc : Batch × Nat × List String) (d : Drain) :
    (drainTcp out acc d).1.payload + (drainTcp out acc d).2.1 = acc.1.payload + acc.2.1 := by
  obtain ⟨b, remaining, eofSids⟩ := acc
  simp only [drainTcp]
  by_cases hzero : remaining = 0
  · rw [if_pos hzero]
    simp only [payload_push, payload_tcpDrainResponse, List.length_nil, hzero]
  · rw [if_neg hzero]
    have hle := @drainLoop_length (out.late d.i) remaining ((b.await out).state.tcp d.inner)
      (Nat.pos_of_ne_zero hzero)
    rcases hloop : drainLoop (out.late d.i) remaining 0 ((b.await out).state.tcp d.inner) []
      with ⟨s, data, eof⟩
    rw [hloop] at hle
    dsimp only at hle ⊢
    rw [payload_push, payload_tcpDrainResponse]
    show b.payload + data.length + (remaining - data.length) = b.payload + remaining
    omega

/-- The budget that is left after the TCP drains. With nothing left the sessions are not looked
at, so from there on the sessions are not those of the offer. -/
theorem foldl_drainTcp_remaining (ds : List Drain) :
    ∀ acc : Batch × Nat × List String,
      (ds.foldl (drainTcp out) acc).2.1 =
        acc.2.1 - offeredTcp out acc.1.state acc.1.awaits ds := by
  induction ds with
  | nil =>
      intro acc
      rfl
  | cons d ds ih =>
      rintro ⟨b, remaining, eofSids⟩
      rw [List.foldl_cons, ih]
      dsimp only [offeredTcp]
      -- nothing is left: the session is not looked at
      by_cases hzero : remaining = 0
      · have hnone : (drainTcp out (b, remaining, eofSids) d).2.1 = 0 := by
          simp only [drainTcp, if_pos hzero]
        rw [hnone, hzero, Nat.zero_sub, Nat.zero_sub]
      have hlen := @drainLoop_length (out.late d.i) remaining ((b.await out).state.tcp d.inner)
        (Nat.pos_of_ne_zero hzero)
      have hleft : (drainTcp out (b, remaining, eofSids) d).2.1 = remaining -
          (offer (out.late d.i) 0 ((b.await out).state.tcp d.inner).inner
            ((b.await out).state.tcp d.inner).arriving).2 := by
        simp only [drainTcp, if_neg hzero, hlen]
        omega
      rw [hleft, Nat.sub_sub]
      -- the offer fits, so the drain leaves the session as the offer does
      rcases Nat.lt_or_ge (offer (out.late d.i) 0 ((b.await out).state.tcp d.inner).inner
        ((b.await out).state.tcp d.inner).arriving).2 remaining with hlt | hge
      · have hsame := ((@drainLoop_offer (out.late d.i) remaining
          ((b.await out).state.tcp d.inner).arriving 0 ((b.await out).state.tcp d.inner).inner []
          (Nat.pos_of_ne_zero hzero)).1 (by simpa using hlt)).1
        have hstate : (drainTcp out (b, remaining, eofSids) d).1.state =
            ((b.await out).setTcp d.inner (offer (out.late d.i) 0
              ((b.await out).state.tcp d.inner).inner
              ((b.await out).state.tcp d.inner).arriving).1).state := by
          simp only [drainTcp, if_neg hzero, ← hsame]
          rfl
        have hawaits : (drainTcp out (b, remaining, eofSids) d).1.awaits = b.awaits + 1 := by
          simp only [drainTcp, if_neg hzero]
          rfl
        rw [hstate, hawaits]
        rfl
      · have hge' : remaining ≤ (offer (out.late d.i) 0
          ((out.others b.awaits b.state).tcp d.inner).inner
          ((out.others b.awaits b.state).tcp d.inner).arriving).2 := hge
        dsimp only [await] at hge' ⊢
        omega

theorem foldl_drainTcp_payload (ds : List Drain) :
    ∀ acc : Batch × Nat × List String,
      (ds.foldl (drainTcp out) acc).1.payload + (ds.foldl (drainTcp out) acc).2.1 =
        acc.1.payload + acc.2.1 := by
  induction ds with
  | nil =>
      intro acc
      rfl
  | cons d ds ih =>
      intro acc
      rw [List.foldl_cons, ih, drainTcp_payload]

theorem foldl_drainUdp_payload (ds : List Drain) :
    ∀ acc : Batch × List String,
      (ds.foldl (drainUdp out) acc).1.payload =
        acc.1.payload + queuedUdp out acc.1.state acc.1.awaits ds := by
  induction ds with
  | nil =>
      intro acc
      rfl
  | cons d ds ih =>
      rintro ⟨b, eofSids⟩
      rw [List.foldl_cons, ih, queuedUdp, ← Nat.add_assoc]
      have hpush : (drainUdp out (b, eofSids) d).1.payload =
          b.payload + (((b.await out).state.udp d.inner).packets.map List.length).sum := by
        simp only [drainUdp]
        rw [payload_push, payload_udpDrainResponse]
        rfl
      rw [hpush]
      rfl

theorem Keeps.payload {b b' : Batch} (h : Keeps b b') : b'.payload = b.payload := by
  rw [Batch.payload, Batch.payload, h.results]

theorem drainAllTcp_payload (b : Batch) :
    (b.drainAllTcp out).payload =
      b.payload + min batchResponseBudget (offeredTcp out b.state b.awaits b.tcpDrains) := by
  have hkeeps : Keeps (b.tcpDrains.foldl (drainTcp out) (b, batchResponseBudget, [])).1
      (b.drainAllTcp out) := keeps_foldl_remove _ (fun _ _ => keeps_state _ _) _ _
  have hsum := foldl_drainTcp_payload out b.tcpDrains (b, batchResponseBudget, [])
  have hleft := foldl_drainTcp_remaining out b.tcpDrains (b, batchResponseBudget, [])
  rw [hkeeps.payload]
  dsimp only at hsum hleft
  omega

theorem drainAllUdp_payload (b : Batch) :
    (b.drainAllUdp out).payload =
      b.payload + queuedUdp out b.state b.awaits b.udpDrains := by
  have hkeeps : Keeps (b.udpDrains.foldl (drainUdp out) (b, [])).1 (b.drainAllUdp out) :=
    keeps_foldl_remove _ (fun _ _ => keeps_state _ _) _ _
  rw [hkeeps.payload, foldl_drainUdp_payload]

/-! ## Phase 1 leaves no payload -/

/-- Nothing that is answered so far carries data. -/
def Bare (b : Batch) : Prop := ∀ x ∈ b.results, x.2.d = none ∧ x.2.pkts = none

theorem Bare.payload {b : Batch} (h : b.Bare) : b.payload = 0 := by
  rw [Batch.payload, payloadBytes, List.map_map, List.sum_eq_zero]
  intro n hn
  obtain ⟨x, hx, rfl⟩ := List.mem_map.mp hn
  exact payload_bare (h x hx)

theorem Bare.files {i : Nat} {op : BatchOp} {b b' : Batch} {f : Filed} (h : b.Bare)
    (hf : Files i op b b' f) : b'.Bare := by
  intro x hx
  rcases hf.holds (g := .answer x.2) (j := x.1) hx with hold | ⟨-, hnew⟩
  · exact h x hold
  · have hsuits := hf.suits
    rw [← hnew] at hsuits
    exact hsuits.2

/-- A panic leaves the answers as they are, and any other task files one without data. -/
theorem foldl_join_bare (jobs : List (Nat × BatchOp)) :
    ∀ b : Batch, b.Bare → (∀ job ∈ jobs, opensConnection job.2 = true) →
      (jobs.foldl (join out) b).Bare := by
  induction jobs with
  | nil =>
      intro b hb _
      exact hb
  | cons job jobs ih =>
      intro b hb hall
      refine ih (b.join out job) ?_ fun j hj => hall j (List.mem_cons_of_mem _ hj)
      by_cases hp : out.panics job.1 = true
      · rw [join, if_pos hp]
        exact hb
      · obtain ⟨f, hf, -⟩ := @join_files job.1 job.2 b out (Bool.eq_false_iff.mpr hp)
          (hall job List.mem_cons_self)
        exact hb.files hf

/-- Phase 1 and the tasks. -/
def phase1 (state : AppState) (ops : List BatchOp) : Batch :=
  ((start state).dispatchAll out 0 ops).joinAll out

theorem phase1_bare (state : AppState) (ops : List BatchOp) : (phase1 out state ops).Bare := by
  have hfiled := dispatchAll_filing out ops ops 0 (start state) rfl (start_filing state)
  apply foldl_join_bare out
  · intro x hx
    obtain ⟨op, -, -, hbare⟩ := hfiled.suits x.1 (.answer x.2) hx
    exact hbare
  · intro job hjob
    have hmem := (completionOrder_perm _ _).mem_iff.mp hjob
    obtain ⟨op, -, hop, hopens⟩ := hfiled.suits job.1 (.job job.2) hmem
    exact hop ▸ hopens

/-! ## The budget -/

/-- The bytes on offer when phase 2 begins, and the datagrams queued when it comes to them. -/
def offered (state : AppState) (ops : List BatchOp) : Nat :=
  offeredTcp out (phase1 out state ops).state (phase1 out state ops).awaits
    (phase1 out state ops).tcpDrains

def queued (state : AppState) (ops : List BatchOp) : Nat :=
  queuedUdp out ((phase1 out state ops).drainAllTcp out).state
    ((phase1 out state ops).drainAllTcp out).awaits
    ((phase1 out state ops).drainAllTcp out).udpDrains

theorem payloadBytes_execute (state : AppState) (ops : List BatchOp) :
    payloadBytes (execute out state ops).responses =
      min batchResponseBudget (offered out state ops) + queued out state ops := by
  rw [payloadBytes_responses]
  show (((phase1 out state ops).drainAllTcp out).drainAllUdp out).payload = _
  rw [drainAllUdp_payload, drainAllTcp_payload, (phase1_bare out state ops).payload,
    Nat.zero_add]
  rfl

/-- No datagram is queued, or all that the sessions have fits the budget. -/
def FitsBudget (state : AppState) (ops : List BatchOp) : Prop :=
  queued out state ops = 0 ∨ offered out state ops + queued out state ops ≤ batchResponseBudget

end Batch

open Batch

/-- **The response budget.** A response keeps to `BATCH_RESPONSE_BUDGET` exactly when its batch is
answered without an execution, or the execution finds no datagram queued, or the bytes its TCP
sessions offer and the datagrams queued in its UDP sessions fit the budget together. -/
theorem payload_le_budget_iff (out : Outside) (claimed : Claimed) (state : AppState)
    (ops : List BatchOp) :
    payloadBytes (handleBatch out claimed state ops) ≤ batchResponseBudget ↔
      ∀ owner ownerState, claimed.execution out state = some (owner, ownerState) →
        FitsBudget owner ownerState ops := by
  cases hexec : claimed.execution out state with
  | none =>
      rw [handleBatch, hexec]
      constructor
      · intro _ owner ownerState hsome
        cases hsome
      · intro _
        exact Nat.zero_le _
  | some execution =>
      obtain ⟨owner, ownerState⟩ := execution
      have hpayload : payloadBytes (handleBatch out claimed state ops) =
          min batchResponseBudget (offered owner ownerState ops) + queued owner ownerState ops := by
        rw [handleBatch, hexec]
        exact payloadBytes_execute owner ownerState ops
      rw [hpayload]
      constructor
      · intro hle owner' ownerState' hsome
        cases hsome
        rw [FitsBudget]
        omega
      · intro hfits
        have h := hfits owner ownerState rfl
        rw [FitsBudget] at h
        omega

/-! ### Three busy UDP sessions -/

/-- A node with three UDP sessions that have the same datagrams queued. -/
def udpNode (packets : List (List UInt8)) : AppState where
  sessions _ := none
  udpSessions sid :=
    if sid = "u" then some 0 else if sid = "v" then some 1 else if sid = "w" then some 2 else none
  tcp _ := ⟨SessionInner.new none, []⟩
  udp _ := ⟨packets, false, []⟩

/-- A poll of each of them. -/
def udpPolls : List BatchOp :=
  [ ⟨"udp_data", some "u", none, none, none, some 0, none⟩,
    ⟨"udp_data", some "v", none, none, none, some 0, none⟩,
    ⟨"udp_data", some "w", none, none, none, some 0, none⟩ ]

theorem queued_udpPolls (packets : List (List UInt8)) :
    queued quiet (udpNode packets) udpPolls = 3 * (packets.map List.length).sum := by
  have hqueued : queued quiet (udpNode packets) udpPolls =
      (packets.map List.length).sum + ((packets.map List.length).sum +
        ((packets.map List.length).sum + 0)) := rfl
  rw [hqueued]
  omega

/-- A full queue of the longest UDP datagrams. -/
def fullQueue : List (List UInt8) := List.replicate 256 (List.replicate 65507 0)

theorem fullQueue_bytes : (fullQueue.map List.length).sum = 256 * 65507 := by
  rw [fullQueue, List.map_replicate, List.length_replicate, List.sum_replicate, smul_eq_mul]

/-- Three full queues go into one response, 48 MiB of them. -/
theorem udp_over_budget :
    ¬ payloadBytes (handleBatch quiet .execute (udpNode fullQueue) udpPolls) ≤
      batchResponseBudget := by
  have hpayload : payloadBytes (handleBatch quiet .execute (udpNode fullQueue) udpPolls) =
      min batchResponseBudget (offered quiet (udpNode fullQueue) udpPolls) +
        queued quiet (udpNode fullQueue) udpPolls :=
    payloadBytes_execute quiet (udpNode fullQueue) udpPolls
  rw [hpayload, queued_udpPolls, fullQueue_bytes]
  have hbudget : batchResponseBudget = 33554432 := by decide
  omega

end Rahgozar.Tunnel
