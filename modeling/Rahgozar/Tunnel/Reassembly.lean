import Rahgozar.Tunnel.DownlinkOrder

set_option autoImplicit false

/-! # What the client writes to the local socket

The session loop alone, against any node and any relay: the replies to its operations come in any
order and carry anything. Three paths of the loop write a reply: the reply that is next in turn,
the buffered replies behind it, and the grace period after an end of stream. The first two leave
the loop at a reply whose text is not base64; the grace period writes on behind it.

A run records the reply to each operation as it comes. That no operation is answered twice is the
loop's own doing: an operation leaves the set in flight with its reply, and no two of them have
the same `seq`.
-/

namespace Rahgozar.Tunnel

namespace LoopState

/-! ## Operations in flight -/

/-- The operations in flight have distinct numbers, all handed out. -/
structure Tickets (s : LoopState) : Prop where
  lt : ∀ m ∈ s.inflight, m.seq < s.nextSendSeq
  nodup : (s.inflight.map InflightMeta.seq).Nodup

/-- The part of the state that sending changes: what is in flight and the next number. -/
def calls (s : LoopState) : List InflightMeta × Nat := (s.inflight, s.nextSendSeq)

/-- From `s` to `t` at most one operation is sent. -/
def Pushed (s t : LoopState) : Prop :=
  t.calls = s.calls ∨
    ∃ poll, t.calls = (s.inflight ++ [⟨s.nextSendSeq, poll⟩], s.nextSendSeq + 1)

variable {s t u v : LoopState}

theorem pushed_pushPoll (h : u.calls = s.calls) (ht : t.calls = u.pushPoll.calls) :
    Pushed s t := by
  obtain ⟨hi, hn⟩ := Prod.mk.inj h
  refine Or.inr ⟨true, ht.trans ?_⟩
  rw [calls, pushPoll, hi, hn]

theorem pushed_pushUpload (data : List UInt8) (h : u.calls = s.calls)
    (ht : t.calls = (u.pushUpload data).calls) : Pushed s t := by
  obtain ⟨hi, hn⟩ := Prod.mk.inj h
  refine Or.inr ⟨false, ht.trans ?_⟩
  rw [calls, pushUpload, hi, hn]

theorem pushed_turn (s : LoopState) (allLegacy : Bool) : Pushed s (s.turn allLegacy) := by
  unfold turn
  split_ifs
  all_goals first | exact Or.inl rfl | exact pushed_pushPoll rfl rfl

theorem pushed_sendBuffered (s : LoopState) : Pushed s s.sendBuffered := by
  unfold sendBuffered
  split
  next data _ =>
    split_ifs
    · exact pushed_pushUpload data (u := { s with bufferedUpload := none }) rfl rfl
    · exact Or.inl rfl
  next => exact Or.inl rfl

theorem pushed_afterReply (s : LoopState) (hasSeq allLegacy permit : Bool) :
    Pushed s (s.afterReply hasSeq allLegacy permit) := by
  have hdepth : ∀ u : LoopState, (u.adaptDepth permit).calls = u.calls := by
    intro u
    unfold adaptDepth
    split_ifs <;> rfl
  have htimer : ∀ u : LoopState, (u.scheduleRefill allLegacy).calls = u.calls := by
    intro u
    unfold scheduleRefill
    split_ifs <;> rfl
  have hsend : (s.afterReply hasSeq allLegacy permit).calls = s.sendBuffered.calls := by
    unfold afterReply
    cases hasSeq with
    | false => exact htimer _
    | true => exact (htimer _).trans (hdepth _)
  rw [Pushed, hsend]
  exact pushed_sendBuffered s

theorem pushed_refillSend (h : u.calls = s.calls) (ht : t.calls = u.refillSend.calls) :
    Pushed s t := by
  unfold refillSend at ht
  split at ht
  next data _ => exact pushed_pushUpload data (u := { u with bufferedUpload := none }) h ht
  next =>
    split_ifs at ht
    · exact Or.inl (ht.trans h)
    · exact pushed_pushPoll h ht

theorem pushed_onRefill (s : LoopState) (allLegacy : Bool) : Pushed s (s.onRefill allLegacy) := by
  have hrearm : ∀ u : LoopState, u.rearm.calls = u.calls := by
    intro u
    unfold rearm
    split_ifs <;> rfl
  unfold onRefill
  dsimp only
  split_ifs
  · exact Or.inl rfl
  · exact pushed_refillSend (u := { s with refillArmed := false, phase := .top }) rfl (hrearm _)
  · exact Or.inl rfl

theorem pushed_onRead (s : LoopState) (r : ReadResult) : Pushed s (s.onRead r) := by
  cases r with
  | eof => exact Or.inl rfl
  | err => exact Or.inl rfl
  | data bytes =>
      unfold onRead
      dsimp only
      split_ifs
      · exact pushed_pushUpload bytes (u := { s with consumed := s.consumed ++ bytes }) rfl rfl
      · exact pushed_pushUpload bytes (u := { s with consumed := s.consumed ++ bytes }) rfl rfl
      · exact Or.inl rfl

theorem pushed_onLegacyRead (s : LoopState) (r : ReadResult) : Pushed s (s.onLegacyRead r) := by
  cases r with
  | eof => exact Or.inl rfl
  | err => exact Or.inl rfl
  | data bytes =>
      exact pushed_pushUpload bytes (u := { s with consumed := s.consumed ++ bytes }) rfl rfl

theorem deliver_calls (s : LoopState) (resp : TunnelResponse) :
    (deliver s resp).1.calls = s.calls := by
  unfold deliver
  dsimp only
  split <;> rfl

theorem Pushed.of_calls (h : Pushed u t) (hcalls : u.calls = s.calls) : Pushed s t := by
  obtain ⟨hi, hn⟩ := Prod.mk.inj hcalls
  unfold Pushed at h ⊢
  rwa [hcalls, hi, hn] at h

theorem pushed_onReply (s : LoopState) (m : InflightMeta) (resp : TunnelResponse)
    (allLegacy permit : Bool) :
    Pushed (s.takeReply m) ((s.takeReply m).onReply m resp allLegacy permit) := by
  have hcalls : (s.accepted m resp).1.calls = (s.takeReply m).calls :=
    accept_frame calls (fun _ _ _ => rfl) deliver_calls (s.beforeAccept m resp) m.seq resp
  rcases onReply_outcome s m resp allLegacy permit with ⟨-, ht⟩ | ⟨-, -, ht⟩ | ⟨-, -, ht⟩
  · rw [ht]
    exact Or.inl rfl
  · rw [ht]
    exact Or.inl hcalls
  · rw [ht]
    exact (pushed_afterReply _ _ allLegacy permit).of_calls hcalls

/-- The state in which an answered operation has left the set in flight. -/
def answered (s : LoopState) : Event → LoopState
  | .reply m (.ok _) _ _ => s.takeReply m
  | _ => s

/-- **A step of a loop that goes on** gives up the operation it was answered and sends at most
one. -/
theorem step_pushed {e : Event} (h : step s e = some t) (hrun : ∀ r, t.phase ≠ .ended r) :
    Pushed (s.answered e) t := by
  cases step_cases h with
  | turn => exact pushed_turn s _
  | graceTimeout => exact Or.inl rfl
  | refill => exact pushed_onRefill s _
  | read => exact pushed_onRead s _
  | legacyRead => exact pushed_onLegacyRead s _
  | @grace m resp =>
      exact Or.inl (accept_frame calls (fun _ _ _ => rfl) (fun _ _ => rfl) (s.takeReply m) m.seq resp)
  | @reply m resp l p => exact pushed_onReply s m resp l p
  | lost => exact absurd rfl (hrun _)

theorem Tickets.takeReply (h : Tickets s) (m : InflightMeta) : Tickets (s.takeReply m) :=
  ⟨fun x hx => h.lt x (List.mem_of_mem_erase hx),
    h.nodup.sublist (List.erase_sublist.map InflightMeta.seq)⟩

/-- The number of an operation that was answered is gone. -/
theorem Tickets.seq_ne (h : Tickets s) {m x : InflightMeta} (hm : m ∈ s.inflight)
    (hx : x ∈ (s.takeReply m).inflight) : x.seq ≠ m.seq := by
  have hperm := List.perm_cons_erase hm
  have hnodup := (hperm.map InflightMeta.seq).nodup_iff.mp h.nodup
  rw [List.map_cons, List.nodup_cons] at hnodup
  intro heq
  exact hnodup.1 (heq ▸ List.mem_map_of_mem hx)

theorem Tickets.of_pushed (h : Tickets s) (hpush : Pushed s t) : Tickets t := by
  rcases hpush with hsame | ⟨poll, hnew⟩
  · obtain ⟨hi, hn⟩ := Prod.mk.inj hsame
    exact ⟨by rw [hi, hn]; exact h.lt, by rw [hi]; exact h.nodup⟩
  · obtain ⟨hi, hn⟩ := Prod.mk.inj hnew
    constructor
    · rw [hi, hn]
      intro m hm
      rcases List.mem_append.mp hm with hold | hlast
      · exact (h.lt m hold).trans (Nat.lt_succ_self _)
      · rw [List.mem_singleton.mp hlast]
        exact Nat.lt_succ_self _
    · rw [hi, List.map_append, List.nodup_append]
      refine ⟨h.nodup, List.nodup_singleton _, ?_⟩
      intro a ha b hb
      obtain ⟨m, hm, rfl⟩ := List.mem_map.mp ha
      rw [List.mem_singleton.mp hb]
      exact (h.lt m hm).ne

theorem start_tickets (sid : String) (w : Writer) (pending : Option (List UInt8)) :
    Tickets (start sid w pending) := by
  have h0 : Tickets (⟨sid, min inflightOptimist inflightActive, 0, 0, false, 0, 0, 0, 0, false,
      false, .empty, false, none, [], 0, false, .top, w, [], []⟩ : LoopState) :=
    ⟨fun m hm => absurd hm (List.not_mem_nil), List.nodup_nil⟩
  unfold start
  rcases pending with _ | _ | ⟨b, data⟩
  · exact h0.of_pushed (pushed_pushPoll rfl rfl)
  · exact h0.of_pushed (pushed_pushPoll rfl rfl)
  · exact (h0.of_pushed (pushed_pushUpload (b :: data) rfl rfl)).of_pushed
      (pushed_pushPoll rfl rfl)

/-! ## The replies in turn -/

/-- `B64.decode` takes the text of the response, if it has one. -/
def Decodes (resp : TunnelResponse) : Prop :=
  resp.d.all (fun text => (Base64.decode text).isSome) = true

instance (resp : TunnelResponse) : Decidable (Decodes resp) := inferInstanceAs (Decidable (_ = _))

/-- The main wait goes on behind a response only if it decodes. -/
theorem decodes_of_deliver {resp : TunnelResponse} (h : (deliver s resp).2 = true) :
    Decodes resp := by
  unfold deliver writeTunnelResponse at h
  unfold Decodes
  rcases hd : resp.d with _ | _ | ⟨c, text⟩
  · rfl
  · rfl
  · cases hdec : Base64.decode (c :: text) with
    | none => simp [hd, hdec] at h
    | some bytes => simp [hdec]

variable {room : Option Nat} {f : Nat → TunnelResponse} {arrived : Finset Nat}

/-- The local socket has been handed the first `n` responses, which all decode. -/
structure Handed (room : Option Nat) (f : Nat → TunnelResponse) (s : LoopState) (n : Nat) :
    Prop where
  writer : s.writer = ((⟨[], room⟩ : Writer).writeAll (payloads f n)).1
  decodes : ∀ j < n, Decodes (f j)

theorem Handed.frame {n : Nat} (h : Handed room f s n) (hw : t.writer = s.writer) :
    Handed room f t n := ⟨hw.trans h.writer, h.decodes⟩

theorem Handed.next {n : Nat} (h : Handed room f s n) (hdec : Decodes (f n))
    (hw : t.writer = (s.writer.writeAll (payload (f n))).1) : Handed room f t (n + 1) := by
  constructor
  · rw [hw, h.writer, payloads_succ, Writer.writeAll_append]
  · intro j hj
    rcases Nat.lt_succ_iff_lt_or_eq.mp hj with hlt | rfl
    · exact h.decodes j hlt
    · exact hdec

theorem Handed.deliver {n : Nat} (h : Handed room f s n) (hok : (deliver s (f n)).2 = true) :
    Handed room f (deliver s (f n)).1 (n + 1) := by
  rcases deliver_cases s (f n) with ⟨-, -, hd⟩ | ⟨hno, -⟩ | ⟨hno, -⟩
  · exact h.next (decodes_of_deliver hok) (congrArg Downlink.writer hd)
  · rw [hok] at hno
    cases hno
  · rw [hok] at hno
    cases hno

theorem Handed.deliverGrace {n : Nat} (h : Handed room f s n) (hdec : Decodes (f n)) :
    Handed room f (deliverGrace s (f n)).1 (n + 1) :=
  h.next hdec (writeTunnelResponse_writer s.writer (f n))

/-- The responses handed to the local socket: a write that fails leaves the loop before
`next_write_seq` is raised. -/
def takenUp (s : LoopState) : Nat :=
  if s.phase = .ended none then s.nextWriteSeq + 1 else s.nextWriteSeq

/-- The local socket has what it takes of the replies in turn, all of which have come, and nothing
behind a reply that does not decode. -/
structure Reassembled (room : Option Nat) (f : Nat → TunnelResponse) (arrived : Finset Nat)
    (s : LoopState) : Prop where
  arrived : ∀ j < s.takenUp, j ∈ arrived
  written : s.writer.written = (⟨[], room⟩ : Writer).taken (payloads f s.takenUp)
  stops : ∀ j k, j < k → k < s.takenUp → Decodes (f j) ∨ payload (f k) = []

/-- Between two events all responses before the first gap are on the socket. -/
structure InSequence (room : Option Nat) (f : Nat → TunnelResponse) (arrived : Finset Nat)
    (s : LoopState) : Prop where
  gap : InOrder.Gap f arrived s.nextWriteSeq s.pendingWrites
  open_at : s.nextWriteSeq ∉ arrived
  handed : Handed room f s s.nextWriteSeq

theorem Handed.reassembled {n : Nat} (h : Handed room f s n) (hn : s.takenUp = n)
    (hbelow : ∀ j < n, j ∈ arrived) : Reassembled room f arrived s := by
  subst hn
  refine ⟨hbelow, ?_, fun j k hjk hk => Or.inl (h.decodes j (hjk.trans hk))⟩
  rw [h.writer, Writer.writeAll_written]
  rfl

theorem takenUp_of_endsRight (h : s.EndsRight) : s.takenUp = s.nextWriteSeq := by
  refine if_neg fun hp => ?_
  cases h none hp

theorem InSequence.reassembled (h : InSequence room f arrived s) (hend : s.EndsRight) :
    Reassembled room f arrived s :=
  h.handed.reassembled (takenUp_of_endsRight hend) h.gap.below

/-- A response that makes the loop end is not on the socket, or as much of it as the socket took
before it failed. -/
theorem Handed.deliver_left {n : Nat} (h : Handed room f s n) (hbelow : ∀ j < n + 1, j ∈ arrived)
    (hno : (LoopState.deliver s (f n)).2 = false) (pending : BTreeMap TunnelResponse) :
    Reassembled room f arrived
      { (LoopState.deliver s (f n)).1 with nextWriteSeq := n, pendingWrites := pending } := by
  rcases deliver_cases s (f n) with ⟨hok, -⟩ | ⟨-, -, hf⟩ | ⟨-, hph, hd⟩
  · rw [hno] at hok
    cases hok
  · rw [hf]
    have hw : Handed room f { s.finish with nextWriteSeq := n, pendingWrites := pending } n :=
      h.frame rfl
    exact hw.reassembled (takenUp_of_endsRight (finish_endsRight s))
      fun j hj => hbelow j (by omega)
  · have htaken : takenUp { (LoopState.deliver s (f n)).1 with
        nextWriteSeq := n, pendingWrites := pending } = n + 1 := if_pos hph
    refine ⟨htaken ▸ hbelow, ?_, ?_⟩
    · have hw : (LoopState.deliver s (f n)).1.writer = (s.writer.writeAll (payload (f n))).1 :=
        congrArg Downlink.writer hd
      rw [htaken]
      show (LoopState.deliver s (f n)).1.writer.written = _
      rw [hw, h.writer, Writer.writeAll_append, ← payloads_succ, Writer.writeAll_written]
      rfl
    · intro j k hjk hk
      rw [htaken] at hk
      exact Or.inl (h.decodes j (by omega))

theorem InSequence.frame (h : InSequence room f arrived s) (hw : t.writer = s.writer)
    (hn : t.nextWriteSeq = s.nextWriteSeq) (hp : t.pendingWrites = s.pendingWrites) :
    InSequence room f arrived t := by
  refine ⟨?_, ?_, ?_⟩
  · rw [hn, hp]
    exact h.gap
  · rw [hn]
    exact h.open_at
  · rw [hn]
    exact h.handed.frame hw

theorem InSequence.frame_down (h : InSequence room f arrived s) (hdown : t.down = s.down) :
    InSequence room f arrived t := by
  obtain ⟨hw, -, -, hn, hp, -⟩ := Downlink.mk.inj hdown
  exact h.frame hw hn hp

/-- Only the responses that have arrived matter. -/
theorem InSequence.congr (h : InSequence room f arrived s) {g : Nat → TunnelResponse}
    (hg : ∀ j ∈ arrived, g j = f j) : InSequence room g arrived s := by
  have hbelow : ∀ j < s.nextWriteSeq, g j = f j := fun j hj => hg j (h.gap.below j hj)
  refine ⟨h.gap.congr hg, h.open_at, ?_, fun j hj => ?_⟩
  · have hsame : payloads g s.nextWriteSeq = payloads f s.nextWriteSeq :=
      List.flatMap_congr fun j hj => congrArg payload (hbelow j (List.mem_range.mp hj))
    rw [hsame]
    exact h.handed.writer
  · rw [hbelow j hj]
    exact h.handed.decodes j hj

/-- **A reply in the main wait.** -/
theorem accepted_inSequence (h : InSequence room f arrived s) {m : InflightMeta}
    (hm : m.seq ∉ arrived) :
    let a := s.accepted m (f m.seq)
    (a.2 = true ∧ InSequence room f (insert m.seq arrived) a.1) ∨
    (a.2 = false ∧ Reassembled room f (insert m.seq arrived) a.1) := by
  intro a
  have hW : Handed room f (s.beforeAccept m (f m.seq)) s.nextWriteSeq := h.handed.frame rfl
  rcases accept_gap (s := s.beforeAccept m (f m.seq)) (W := Handed room f) h.gap h.open_at hm hW
      deliver_counters (fun u n hw _ hok => hw.deliver hok) with
    ⟨hok, hg, hnext, u, n, p, hw, ha⟩ | ⟨hno, u, n, p, hw, hbelow, hleft, ha⟩
  · refine Or.inl ⟨hok, hg, hnext, ?_⟩
    rw [show a.1 = _ from ha]
    exact hw.frame rfl
  · refine Or.inr ⟨hno, ?_⟩
    rw [show a.1 = _ from ha]
    exact hw.deliver_left hbelow hleft p

/-- **A reply in the grace period,** in which every reply whose turn comes decodes. -/
theorem acceptedGrace_inSequence (h : InSequence room f arrived s) {m : InflightMeta}
    (hm : m.seq ∉ arrived)
    (hdec : ∀ n, s.nextWriteSeq ≤ n → (∀ j < n + 1, j ∈ insert m.seq arrived) → Decodes (f n)) :
    InSequence room f (insert m.seq arrived) (s.acceptedGrace m (f m.seq)) := by
  -- the counter only grows, so what is consumed is at or behind it
  let W : LoopState → Nat → Prop := fun u n => Handed room f u n ∧ s.nextWriteSeq ≤ n
  have hW : W (s.takeReply m) s.nextWriteSeq := ⟨h.handed.frame rfl, le_rfl⟩
  rcases accept_gap (s := s.takeReply m) (W := W) h.gap h.open_at hm hW deliverGrace_counters
      (fun u n hw hbelow _ => ⟨hw.1.deliverGrace (hdec n hw.2 hbelow), hw.2.trans n.le_succ⟩) with
    ⟨-, hg, hnext, u, n, p, hw, ha⟩ | ⟨-, u, n, p, -, -, hno, -⟩
  · refine ⟨hg, hnext, ?_⟩
    rw [show s.acceptedGrace m (f m.seq) = _ from ha]
    exact hw.1.frame rfl
  · cases hno

end LoopState

/-! ## Runs -/

/-- The loop, with the replies that have come to its operations. -/
structure Observed where
  loop : LoopState
  reply : Nat → TunnelResponse
  arrived : Finset Nat

namespace Observed

def start (sid : String) (room : Option Nat) (pendingClientData : Option (List UInt8)) :
    Observed :=
  ⟨LoopState.start sid ⟨[], room⟩ pendingClientData,
    fun _ => ⟨none, none, none, none, none, none, none⟩, ∅⟩

/-- The step of the loop, its reply noted down. -/
def step (o : Observed) (e : LoopState.Event) : Option Observed :=
  match o.loop.step e with
  | none => none
  | some loop =>
      match e with
      | .reply m (.ok resp) _ _ =>
          some ⟨loop, Function.update o.reply m.seq resp, insert m.seq o.arrived⟩
      | _ => some { o with loop := loop }

/-- In the grace period every reply decodes whose turn comes with this one. -/
def GraceDecodes (o : Observed) : LoopState.Event → Prop
  | .reply m (.ok resp) _ _ =>
      o.loop.phase = .grace → ∀ n < o.loop.nextSendSeq, o.loop.nextWriteSeq ≤ n →
        (∀ j < n + 1, j ∈ insert m.seq o.arrived) →
        LoopState.Decodes (Function.update o.reply m.seq resp n)
  | _ => True

instance (o : Observed) : (e : LoopState.Event) → Decidable (GraceDecodes o e)
  | .reply _ (.ok _) _ _ => inferInstanceAs (Decidable (_ → ∀ n < _, _ ≤ n → _ → _))
  | .reply _ (.batchErr _) _ _ => isTrue trivial
  | .reply _ .timeout _ _ => isTrue trivial
  | .reply _ .dropped _ _ => isTrue trivial
  | .turn _ => isTrue trivial
  | .graceTimeout => isTrue trivial
  | .refill _ => isTrue trivial
  | .read _ => isTrue trivial

/-- The local socket holds the replies in turn. -/
def Reassembled (room : Option Nat) (o : Observed) : Prop :=
  LoopState.Reassembled room o.reply o.arrived o.loop

/-- **The invariant.** While the loop runs, the replies in turn are on the socket, and the
operations in flight are distinct and not yet answered. -/
structure Inv (room : Option Nat) (o : Observed) : Prop where
  sequence : (∀ r, o.loop.phase ≠ .ended r) →
    LoopState.InSequence room o.reply o.arrived o.loop ∧ LoopState.Tickets o.loop ∧
      (∀ m ∈ o.loop.inflight, m.seq ∉ o.arrived) ∧ ∀ j ∈ o.arrived, j < o.loop.nextSendSeq
  reassembled : Reassembled room o

variable {room : Option Nat} {o o' : Observed}

/-- The operations in flight after a step have not been answered, with the step's own reply
counted in. -/
theorem unanswered_of_pushed {u t : LoopState} {arrived : Finset Nat}
    (hpush : LoopState.Pushed u t) (hopen : ∀ m ∈ u.inflight, m.seq ∉ arrived)
    (hlt : ∀ j ∈ arrived, j < u.nextSendSeq) :
    (∀ m ∈ t.inflight, m.seq ∉ arrived) ∧ ∀ j ∈ arrived, j < t.nextSendSeq := by
  rcases hpush with hsame | ⟨poll, hnew⟩
  · obtain ⟨hi, hn⟩ := Prod.mk.inj hsame
    rw [hi, hn]
    exact ⟨hopen, hlt⟩
  · obtain ⟨hi, hn⟩ := Prod.mk.inj hnew
    rw [hi, hn]
    refine ⟨fun m hm => ?_, fun j hj => (hlt j hj).trans (Nat.lt_succ_self _)⟩
    rcases List.mem_append.mp hm with hold | hlast
    · exact hopen m hold
    · rw [List.mem_singleton.mp hlast]
      exact fun hmem => absurd (hlt _ hmem) (lt_irrefl _)

/-- **A step without a reply.** -/
theorem Inv.step_other {e : LoopState.Event} {t : LoopState} (h : Inv room o)
    (hs : o.loop.step e = some t) (he : System.isResponse e = false) :
    Inv room { o with loop := t } := by
  obtain ⟨hseq, htick, hopen, hlt⟩ := h.sequence (LoopState.step_running hs)
  have hkept : LoopState.InSequence room o.reply o.arrived t ∧ t.EndsRight := by
    cases LoopState.step_effect hs with
    | passive _ hdown hend => exact ⟨hseq.frame_down hdown, hend⟩
    | read _ hdown hend =>
        obtain ⟨hw, -, -, hn, hp, -⟩ := LoopState.Downlink.mk.inj hdown
        exact ⟨hseq.frame hw hn hp, hend⟩
    | refused => cases he
    | accepted => cases he
    | left => cases he
    | grace => cases he
  refine ⟨fun hrun => ?_, hkept.1.reassembled hkept.2⟩
  have hpush := LoopState.step_pushed hs hrun
  have hsame : o.loop.answered e = o.loop := by
    unfold LoopState.answered
    split
    · cases he
    · rfl
  rw [hsame] at hpush
  exact ⟨hkept.1, htick.of_pushed hpush, unanswered_of_pushed hpush hopen hlt⟩

/-- **A step with a reply.** -/
theorem Inv.step_reply {m : InflightMeta} {resp : TunnelResponse} {l p : Bool} {t : LoopState}
    (h : Inv room o) (hC : GraceDecodes o (.reply m (.ok resp) l p))
    (hs : o.loop.step (.reply m (.ok resp) l p) = some t) :
    Inv room ⟨t, Function.update o.reply m.seq resp, insert m.seq o.arrived⟩ := by
  obtain ⟨hseq, htick, hopen, hlt⟩ := h.sequence (LoopState.step_running hs)
  have hmem : m ∈ o.loop.inflight := by
    by_contra hno
    simp [LoopState.step, hno] at hs
  have hm : m.seq ∉ o.arrived := hopen m hmem
  -- the replies that came before are as they were
  have hnoted : LoopState.InSequence room (Function.update o.reply m.seq resp) o.arrived o.loop :=
    hseq.congr fun j hj => Function.update_of_ne (by rintro rfl; exact hm hj) _ _
  have hresp : Function.update o.reply m.seq resp m.seq = resp := Function.update_self ..
  have hbound : ∀ j ∈ insert m.seq o.arrived, j < o.loop.nextSendSeq := by
    intro j hj
    rcases Finset.mem_insert.mp hj with rfl | hold
    · exact htick.lt m hmem
    · exact hlt j hold
  -- the operations that go on are the other ones
  have hrest : (∀ r, t.phase ≠ .ended r) → LoopState.Tickets t ∧
      (∀ x ∈ t.inflight, x.seq ∉ insert m.seq o.arrived) ∧
        ∀ j ∈ insert m.seq o.arrived, j < t.nextSendSeq := by
    intro hrun
    have hpush := LoopState.step_pushed hs hrun
    refine ⟨(htick.takeReply m).of_pushed hpush, unanswered_of_pushed hpush ?_ hbound⟩
    intro x hx hxmem
    rcases Finset.mem_insert.mp hxmem with heq | hold
    · exact htick.seq_ne hmem hx heq
    · exact hopen x (List.mem_of_mem_erase hx) hold
  have hgoesOn : ∀ {u : LoopState}, t.phase = .top → t.down = u.down →
      LoopState.InSequence room (Function.update o.reply m.seq resp) (insert m.seq o.arrived) u →
      Inv room ⟨t, Function.update o.reply m.seq resp, insert m.seq o.arrived⟩ := by
    intro u htop hdown hu
    have hend : t.EndsRight := LoopState.endsRight_of_running fun r hr => by
      rw [htop] at hr
      cases hr
    exact ⟨fun hrun => ⟨hu.frame_down hdown, hrest hrun⟩,
      (hu.frame_down hdown).reassembled hend⟩
  have hacc := LoopState.accepted_inSequence hnoted hm
  rw [hresp] at hacc
  cases LoopState.step_effect hs with
  | passive he => cases he
  | refused _ _ hdown hend hended =>
      obtain ⟨r, hr⟩ := hended
      refine ⟨fun hrun => absurd hr (hrun r), ?_⟩
      have hkept := hnoted.frame_down hdown
      exact hkept.handed.reassembled (LoopState.takenUp_of_endsRight hend)
        fun j hj => Finset.mem_insert_of_mem (hkept.gap.below j hj)
  | accepted _ _ hok hdown htop =>
      rcases hacc with ⟨-, ha⟩ | ⟨hno, -⟩
      · exact hgoesOn htop hdown ha
      · rw [hok] at hno
        cases hno
  | left _ _ hno ht =>
      obtain ⟨r, hr⟩ := LoopState.accepted_left_phase hno
      rw [ht]
      refine ⟨fun hrun => absurd hr (hrun r), ?_⟩
      rcases hacc with ⟨hok, -⟩ | ⟨-, ha⟩
      · rw [hno] at hok
        cases hok
      · exact ha
  | grace hphase hdown htop =>
      have ha := LoopState.acceptedGrace_inSequence hnoted hm fun n hn hbelow =>
        hC hphase n (hbound n (hbelow n n.lt_succ_self)) hn hbelow
      rw [hresp] at ha
      exact hgoesOn htop hdown ha

theorem step_inv {e : LoopState.Event} (h : Inv room o) (hC : GraceDecodes o e)
    (hs : step o e = some o') : Inv room o' := by
  unfold step at hs
  split at hs
  next => cases hs
  next t ht =>
    split at hs
    next m resp l p =>
      cases hs
      exact h.step_reply hC ht
    next hother =>
      cases hs
      refine h.step_other ht ?_
      unfold System.isResponse
      split
      next m resp l p => exact absurd rfl (hother m resp l p)
      next => rfl

theorem start_inv (sid : String) (room : Option Nat) (pendingClientData : Option (List UInt8)) :
    Inv room (start sid room pendingClientData) := by
  have hdown := LoopState.start_down sid ⟨[], room⟩ pendingClientData
  obtain ⟨hw, -, -, hn, hp, -⟩ := LoopState.Downlink.mk.inj hdown
  have hseq : LoopState.InSequence room (start sid room pendingClientData).reply ∅
      (LoopState.start sid ⟨[], room⟩ pendingClientData) := by
    refine ⟨?_, Finset.notMem_empty _, ?_, ?_⟩
    · rw [hn, hp]
      exact InOrder.Gap.empty _
    · rw [hn, hw]
      exact (Writer.writeAll_nil _).symm
    · rw [hn]
      exact fun j hj => absurd hj (Nat.not_lt_zero j)
  have hend : (LoopState.start sid ⟨[], room⟩ pendingClientData).EndsRight :=
    LoopState.endsRight_of_running fun r hr => by
      rw [LoopState.start_phase] at hr
      cases hr
  exact ⟨fun _ => ⟨hseq, LoopState.start_tickets .., fun _ _ => Finset.notMem_empty _,
    fun j hj => absurd hj (Finset.notMem_empty j)⟩, hseq.reassembled hend⟩

/-- Where every reply decodes that the grace period takes up, the local socket holds the replies
in turn, in every state of the run. -/
theorem replies_reassembled (sid : String) (room : Option Nat)
    (pendingClientData : Option (List UInt8)) (es : List LoopState.Event)
    (h : StepRun.AllSteps step GraceDecodes (start sid room pendingClientData) es) :
    StepRun.AllStates step (Reassembled room) (start sid room pendingClientData) es :=
  StepRun.allStates_of_allSteps (I := Inv room) (fun _ _ _ hinv hC hs => step_inv hinv hC hs)
    (fun _ hinv => hinv.reassembled) (start_inv sid room pendingClientData) h

/-- A reply with the text `d` to operation `seq`. -/
def dataReply (seq : Nat) (d : String) (eof : Bool) : LoopState.Event :=
  .reply ⟨seq, true⟩ (.ok ⟨some "s", some d.toList, none, some eof, none, none, some seq⟩) false
    false

/-- Three polls are out. The reply to the second one comes before the first, which ends the
stream; the third one comes in the grace period. -/
def lateReplies (second third : String) : List LoopState.Event :=
  [.turn false, .refill false, .turn false, .refill false, .turn false,
    dataReply 1 second false, .turn false, dataReply 0 "QQ==" true, .turn false,
    dataReply 2 third false, .turn false]

theorem replies_reassembled_lateReplies :
    StepRun.AllStates step (Reassembled none) (start "s" none none) (lateReplies "Qg==" "Qw==") ∧
      ((StepRun.run step (start "s" none none) (lateReplies "Qg==" "Qw==")).map
        fun o => o.loop.writer.written) = some [65, 66, 67] :=
  ⟨replies_reassembled "s" none none (lateReplies "Qg==" "Qw==") (by decide +kernel), by
    decide +kernel⟩

/-- The stream ends with reply 0; reply 1 has a text that is not base64. -/
def undecodableInGrace : List LoopState.Event :=
  [.turn false, .refill false, .turn false, .refill false, .turn false,
    dataReply 0 "QQ==" true, .turn false, dataReply 1 "?" false, .turn false,
    dataReply 2 "Qw==" false]

/-- In the grace period the loop writes on behind a reply that does not decode. -/
theorem reply_behind_undecodable :
    ¬ ∀ (sid : String) (room : Option Nat) (pendingClientData : Option (List UInt8))
        (es : List LoopState.Event),
      StepRun.AllStates step (Reassembled room) (start sid room pendingClientData) es := by
  intro h
  have hrun : (StepRun.run step (start "s" none none) undecodableInGrace).any (fun o =>
      decide (2 < o.loop.takenUp ∧ ¬ LoopState.Decodes (o.reply 1) ∧
        LoopState.payload (o.reply 2) ≠ [])) = true := by
    decide +kernel
  obtain ⟨o, ho, hbad⟩ := (Option.any_eq_true ..).mp hrun
  obtain ⟨htaken, hdec, hbytes⟩ := of_decide_eq_true hbad
  have hlast := StepRun.allStates_last (h "s" none none undecodableInGrace) ho
  rcases hlast.stops 1 2 (by decide) htaken with hd | hp
  · exact hdec hd
  · exact hbytes hp

end Observed

end Rahgozar.Tunnel
