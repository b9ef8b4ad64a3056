import Rahgozar.Tunnel.Reassembly

set_option autoImplicit false

/-! # Permits for elevated sessions (`TunnelMux` and `tunnel_loop` in `src/tunnel_client.rs`)

All sessions of one mux share the counter `elevated_sessions`. A session raises it when its
pipeline goes past the optimist depth, in a compare-and-exchange loop that stops at
`max_elevated`, and lowers it when the depth collapses or when the loop is left at its end. A
failed write to the local socket leaves `tunnel_loop` by `?`, in front of that end.

Sessions are the loops of `LoopState`, side by side. Every access to the counter is a step of its
own: between the load of the admission loop and each of its exchanges any other session may act,
and an exchange may fail for no reason.
-/

namespace Rahgozar.Tunnel

namespace LoopState

variable {s t u : LoopState}

/-! ## Who changes `is_elevated` -/

theorem turn_isElevated (s : LoopState) (allLegacy : Bool) :
    (s.turn allLegacy).isElevated = s.isElevated := by
  unfold turn
  split_ifs <;> rfl

theorem onRefill_isElevated (s : LoopState) (allLegacy : Bool) :
    (s.onRefill allLegacy).isElevated = s.isElevated := by
  have hrearm : ∀ u : LoopState, u.rearm.isElevated = u.isElevated := by
    intro u
    unfold rearm
    split_ifs <;> rfl
  have hsend : ∀ u : LoopState, u.refillSend.isElevated = u.isElevated := by
    intro u
    unfold refillSend
    split
    · rfl
    · split_ifs <;> rfl
  unfold onRefill
  dsimp only
  split_ifs
  · rfl
  · rw [hrearm, hsend]
  · rfl

theorem onRead_isElevated (s : LoopState) (r : ReadResult) :
    (s.onRead r).isElevated = s.isElevated := by
  cases r with
  | eof => rfl
  | err => rfl
  | data bytes =>
      unfold onRead
      dsimp only
      split_ifs <;> rfl

theorem onLegacyRead_isElevated (s : LoopState) (r : ReadResult) :
    (s.onLegacyRead r).isElevated = s.isElevated := by
  cases r <;> rfl

theorem deliver_isElevated (s : LoopState) (resp : TunnelResponse) :
    (deliver s resp).1.isElevated = s.isElevated := by
  unfold deliver
  dsimp only
  split <;> rfl

/-- Only the depth management behind a reply changes it, and raises it only with a permit. -/
theorem afterReply_isElevated (s : LoopState) (hasSeq allLegacy permit : Bool)
    (h : (s.afterReply hasSeq allLegacy permit).isElevated = true) (hs : s.isElevated = false) :
    permit = true := by
  have hsend : s.sendBuffered.isElevated = s.isElevated := by
    unfold sendBuffered
    split
    · split_ifs <;> rfl
    · rfl
  have htimer : ∀ u : LoopState, (u.scheduleRefill allLegacy).isElevated = u.isElevated := by
    intro u
    unfold scheduleRefill
    split_ifs <;> rfl
  have hdepth : ∀ u : LoopState, (u.adaptDepth permit).isElevated = true →
      u.isElevated = false → permit = true := by
    intro u hu hold
    unfold adaptDepth at hu
    split_ifs at hu with _ _ _ helev hpermit
    · exact absurd (hu.symm.trans hold) (by decide)
    · exact absurd (helev.symm.trans hold) (by decide)
    · exact hpermit
    · exact absurd (hu.symm.trans hold) (by decide)
    · exact absurd (hu.symm.trans hold) (by decide)
  unfold afterReply at h
  cases hasSeq with
  | false =>
      have hkept : s.isElevated = true := hsend ▸ (htimer _ ▸ h)
      exact absurd (hkept.symm.trans hs) (by decide)
  | true => exact hdepth s.sendBuffered (htimer _ ▸ h) (hsend.trans hs)

/-- **How a step changes `is_elevated`:** not at all, or at the end of a reply's turn, and to true
only with a permit. -/
theorem step_isElevated {e : Event} (h : step s e = some t) :
    t.isElevated = s.isElevated ∨
    ∃ m resp l p, e = .reply m (.ok resp) l p ∧ t.phase = .top ∧
      (t.isElevated = true → s.isElevated = false → p = true) := by
  cases step_cases h with
  | turn => exact Or.inl (turn_isElevated s _)
  | graceTimeout => exact Or.inl rfl
  | refill => exact Or.inl (onRefill_isElevated s _)
  | read => exact Or.inl (onRead_isElevated s _)
  | legacyRead => exact Or.inl (onLegacyRead_isElevated s _)
  | @grace m resp =>
      exact Or.inl (accept_frame isElevated (fun _ _ _ => rfl) (fun _ _ => rfl) (s.takeReply m)
        m.seq resp)
  | @reply m resp l p =>
      have hacc : (s.accepted m resp).1.isElevated = s.isElevated :=
        accept_frame isElevated (fun _ _ _ => rfl) deliver_isElevated (s.beforeAccept m resp)
          m.seq resp
      rcases onReply_outcome s m resp l p with ⟨-, ht⟩ | ⟨-, -, ht⟩ | ⟨-, -, ht⟩
      · rw [ht]
        exact Or.inl rfl
      · rw [ht]
        exact Or.inl hacc
      · rw [ht]
        refine Or.inr ⟨m, resp, l, p, rfl, rfl, fun hu hs => ?_⟩
        exact afterReply_isElevated _ _ _ _ hu (hacc.trans hs)
  | lost _ _ hu =>
      rcases hu with rfl | rfl
      · exact Or.inl rfl
      · exact Or.inl rfl

/-! ## When a local write fails -/

/-- A response in the main wait: it is written, or does not decode, or the local socket fails. -/
theorem deliver_outcome (s : LoopState) (resp : TunnelResponse) :
    (Decodes resp ∧ (s.writer.writeAll (payload resp)).2 = true ∧ (deliver s resp).2 = true ∧
      (deliver s resp).1.writer = (s.writer.writeAll (payload resp)).1 ∧
      (deliver s resp).1.phase = s.phase) ∨
    (¬ Decodes resp ∧ payload resp = [] ∧ deliver s resp = (s.finish, false)) ∨
    (Decodes resp ∧ (s.writer.writeAll (payload resp)).2 = false ∧ (deliver s resp).2 = false ∧
      (deliver s resp).1.phase = .ended none) := by
  unfold deliver writeTunnelResponse Decodes payload
  rcases resp.d with _ | _ | ⟨c, text⟩
  · simp
  · simp [Base64.decode]
  · rcases hdec : Base64.decode (c :: text) with _ | _ | ⟨b, bytes⟩
    · simp [hdec]
    · simp [hdec]
    · cases hw : (s.writer.writeAll (b :: bytes)).2 with
      | true => simp [hdec, hw]
      | false => simp [hdec, hw]

/-- The bytes of a response and of the buffered ones in sequence behind it, up to the first that
does not decode: what a response accepted as number `seq` makes the main wait write. -/
def turnBytes (s : LoopState) (seq : Nat) (resp : TunnelResponse) : List UInt8 :=
  if seq = s.nextWriteSeq ∧ Decodes resp then
    (InOrder.flush (fun bytes r => (bytes ++ payload r, decide (Decodes r))) (payload resp)
      (s.nextWriteSeq + 1) s.pendingWrites).state
  else []

theorem turnBytes_extends (bytes : List UInt8) (next : Nat) (pending : BTreeMap TunnelResponse) :
    ∃ more, (InOrder.flush (fun bytes r => (bytes ++ payload r, decide (Decodes r))) bytes next
      pending).state = bytes ++ more := by
  obtain ⟨l, hl⟩ := pending
  unfold InOrder.flush
  induction l generalizing bytes next with
  | nil => exact ⟨[], (List.append_nil _).symm⟩
  | cons e l ih =>
      obtain ⟨key, v⟩ := e
      simp only [InOrder.flushList]
      split_ifs
      · obtain ⟨more, hmore⟩ := ih (bytes ++ payload v) (next + 1) hl.of_cons
        exact ⟨payload v ++ more, by rw [hmore, List.append_assoc]⟩
      · exact ⟨payload v, rfl⟩
      · exact ⟨[], (List.append_nil _).symm⟩

/-- The flush fails to write exactly if the socket does not take all bytes in turn. -/
theorem flush_deliver_failed {w : Writer} {bytes : List UInt8} {u : LoopState}
    (hw : u.writer = (w.writeAll bytes).1) (hok : (w.writeAll bytes).2 = true)
    (hrun : u.phase ≠ .ended none) (next : Nat) (pending : BTreeMap TunnelResponse) :
    (InOrder.flush deliver u next pending).state.phase = .ended none ↔
      (w.writeAll (InOrder.flush (fun bytes r => (bytes ++ payload r, decide (Decodes r))) bytes
        next pending).state).2 = false := by
  obtain ⟨l, hl⟩ := pending
  have hextends := turnBytes_extends
  unfold InOrder.flush at hextends ⊢
  induction l generalizing u bytes next with
  | nil => exact iff_of_false hrun fun hno => absurd (hok.symm.trans hno) (by decide)
  | cons e l ih =>
      obtain ⟨key, v⟩ := e
      simp only [InOrder.flushList]
      by_cases hkey : key = next
      · rw [if_pos hkey, if_pos hkey]
        have happ := Writer.writeAll_append_ok (w := w) (a := bytes) hok (payload v)
        rw [← hw] at happ
        rcases deliver_outcome u v with ⟨hdec, hwr, hgo, hwriter, hphase⟩ | ⟨hdec, hnil, hfin⟩ |
          ⟨hdec, hwr, hno, hphase⟩
        · rw [if_pos hgo, if_pos (decide_eq_true hdec)]
          refine ih ?_ ?_ ?_ (next + 1) hl.of_cons
          · rw [hwriter, hw, Writer.writeAll_append]
          · rw [happ, hwr]
          · rw [hphase]
            exact hrun
        · rw [hfin]
          simp only [Bool.false_eq_true, if_false, decide_eq_true_eq, hdec, hnil, List.append_nil]
          exact iff_of_false (by intro hend; cases hend) (by rw [hok]; decide)
        · rw [if_neg (by rw [hno]; decide), if_pos (decide_eq_true hdec)]
          obtain ⟨more, hmore⟩ := hextends (bytes ++ payload v) (next + 1) ⟨l, hl.of_cons⟩
          refine iff_of_true hphase ?_
          rw [hmore]
          exact Writer.writeAll_failed (happ.trans hwr) more
      · rw [if_neg hkey, if_neg hkey]
        exact iff_of_false hrun (by rw [hok]; decide)

/-- **A reply in the main wait fails to be written** exactly if the socket does not take what is
in turn. -/
theorem accepted_failed {m : InflightMeta} (resp : TunnelResponse)
    (hrun : s.phase ≠ .ended none) :
    (s.accepted m resp).1.phase = .ended none ↔
      (s.writer.writeAll (s.turnBytes m.seq resp)).2 = false := by
  unfold accepted accept turnBytes
  by_cases hseq : m.seq = s.nextWriteSeq
  · rw [if_pos (show m.seq = (s.beforeAccept m resp).nextWriteSeq from hseq)]
    rcases deliver_outcome (s.beforeAccept m resp) resp with ⟨hdec, hwr, hgo, hwriter, hphase⟩ |
      ⟨hdec, -, hfin⟩ | ⟨hdec, hwr, hno, hphase⟩
    · rw [if_pos ⟨hseq, hdec⟩]
      obtain ⟨hn, hp⟩ := deliver_counters (s.beforeAccept m resp) resp
      have hflush := flush_deliver_failed (w := s.writer) hwriter hwr
        (by rw [hphase]; exact hrun) (s.nextWriteSeq + 1) s.pendingWrites
      generalize deliver (s.beforeAccept m resp) resp = a at hgo hn hp hflush
      obtain ⟨u, _ | _⟩ := a
      · cases hgo
      · show (InOrder.flush deliver u (u.nextWriteSeq + 1) u.pendingWrites).state.phase =
          .ended none ↔ _
        rw [show u.nextWriteSeq = s.nextWriteSeq from hn,
          show u.pendingWrites = s.pendingWrites from hp]
        exact hflush
    · rw [if_neg (fun h => hdec h.2), hfin]
      exact iff_of_false (by intro hend; cases hend) (by simp)
    · rw [if_pos ⟨hseq, hdec⟩]
      obtain ⟨more, hmore⟩ := turnBytes_extends (payload resp) (s.nextWriteSeq + 1) s.pendingWrites
      rw [hmore]
      generalize deliver (s.beforeAccept m resp) resp = a at hno hphase
      obtain ⟨u, _ | _⟩ := a
      · exact iff_of_true hphase (Writer.writeAll_failed hwr more)
      · cases hno
  · rw [if_neg (show ¬ m.seq = (s.beforeAccept m resp).nextWriteSeq from hseq),
      if_neg (fun h => hseq h.1)]
    exact iff_of_false hrun (by simp)

theorem accepted_phase {m : InflightMeta} {resp : TunnelResponse}
    (hok : (s.accepted m resp).2 = true) : (s.accepted m resp).1.phase = s.phase := by
  have hdeliver : ∀ u v, (deliver u v).2 = true → (deliver u v).1.phase = u.phase := by
    intro u v huv
    rcases deliver_outcome u v with ⟨-, -, -, -, hphase⟩ | ⟨-, -, hfin⟩ | ⟨-, -, hno, -⟩
    · exact hphase
    · rw [hfin] at huv
      cases huv
    · rw [hno] at huv
      cases huv
  unfold accepted at hok ⊢
  rcases accept_rule (P := fun u _ _ => u.phase = s.phase) (s.beforeAccept m resp) m.seq resp
      (fun _ h => hdeliver _ _ h) (fun u _ _ v hu _ h => (hdeliver u v h).trans hu) with
    ⟨-, ha⟩ | ⟨-, hd, ha⟩ | ⟨-, u, n, p, hu, -, ha⟩ | ⟨-, u, n, p, v, -, -, hd, ha⟩
  · rw [ha]
    rfl
  · rw [ha] at hok
    cases hok
  · rw [ha]
    exact hu
  · rw [ha] at hok
    cases hok

/-- **A step fails at a local write** exactly if it takes up a reply in the main wait that the
socket does not take whole. -/
theorem step_failed {e : Event} (h : step s e = some t) :
    t.phase = .ended none ↔ ∃ m resp l p, e = .reply m (.ok resp) l p ∧ s.phase = .select ∧
      resp.e = none ∧ (s.writer.writeAll (s.turnBytes m.seq resp)).2 = false := by
  have hrun := step_running h none
  cases step_effect h with
  | passive he _ hend =>
      refine iff_of_false (by intro hp; cases hend none hp) ?_
      rintro ⟨m, resp, l, p, rfl, -⟩
      cases he
  | read _ _ hend =>
      refine iff_of_false (by intro hp; cases hend none hp) ?_
      rintro ⟨m, resp, l, p, he, -⟩
      cases he
  | refused _ herr _ hend _ =>
      refine iff_of_false (by intro hp; cases hend none hp) ?_
      rintro ⟨m, resp, l, p, he, -, hnone, -⟩
      cases he
      rw [hnone] at herr
      cases herr
  | accepted _ _ hok _ htop =>
      refine iff_of_false (by rw [htop]; intro hend; cases hend) ?_
      rintro ⟨m, resp, l, p, he, -, -, hwrite⟩
      cases he
      exact hrun ((accepted_phase hok).symm.trans ((accepted_failed _ hrun).mpr hwrite))
  | left hphase herr _ ht =>
      subst ht
      rw [accepted_failed _ hrun]
      constructor
      · exact fun hwrite => ⟨_, _, _, _, rfl, hphase, Option.not_isSome_iff_eq_none.mp
          (by rw [herr]; decide), hwrite⟩
      · rintro ⟨m, resp, l, p, he, -, -, hwrite⟩
        cases he
        exact hwrite
  | grace hphase _ htop =>
      refine iff_of_false (by rw [htop]; intro hend; cases hend) ?_
      rintro ⟨m, resp, l, p, he, hselect, -⟩
      rw [hselect] at hphase
      cases hphase

/-- Does this event lead to the compare-and-exchange loop: a reply after which the loop would be
elevated, with a permit, and is not yet? -/
def asksPermit (s : LoopState) : Event → Bool
  | .reply m (.ok resp) allLegacy _ =>
      match s.step (.reply m (.ok resp) allLegacy true) with
      | some t => !s.isElevated && t.isElevated
      | none => false
  | _ => false

end LoopState

/-! ## The sessions of a mux -/

/-- A session: at an event of its loop, or in the admission loop behind the reply `m`, where `cur`
is the value of the counter it has seen last. -/
inductive Session where
  | running (s : LoopState)
  | admitting (s : LoopState) (m : InflightMeta) (resp : TunnelResponse) (allLegacy : Bool)
      (cur : Nat)

/-- The part of `TunnelMux` the permits are in, and all sessions there have been. -/
structure Mux where
  elevatedSessions : Nat
  maxElevated : Nat
  sessions : List Session

inductive MuxEvent where
  | start (sid : String) (room : Option Nat) (pendingClientData : Option (List UInt8))
  /-- An event of session `i` that does not lead to the admission loop. -/
  | loop (i : Nat) (e : LoopState.Event)
  /-- `elevated_sessions.load`, at the head of the admission loop. -/
  | load (i : Nat) (m : InflightMeta) (resp : TunnelResponse) (allLegacy : Bool)
  /-- One turn of the admission loop; `compare_exchange_weak` may fail spuriously. -/
  | exchange (i : Nat) (spurious : Bool)

/-- `fetch_sub(1)` on a 64-bit counter. -/
def fetchSub (n : Nat) : Nat := if n = 0 then 2 ^ 64 - 1 else n - 1

/-- Does the loop hold a permit, and is it still running? -/
def LoopState.holds (s : LoopState) : Bool :=
  match s.phase with
  | .ended _ => false
  | _ => s.isElevated

def Session.holds : Session → Bool
  | .running s => s.holds
  | .admitting s _ _ _ _ => s.holds

namespace Mux

def init (maxElevated : Nat) : Mux := ⟨0, maxElevated, []⟩

/-- The counter after a step of a loop from `s` to `t`. -/
def release (elevatedSessions : Nat) (s t : LoopState) : Nat :=
  match t.phase with
  -- left by `?`
  | .ended none => elevatedSessions
  -- the end of `tunnel_loop`
  | .ended (some _) => if t.isElevated then fetchSub elevatedSessions else elevatedSessions
  -- the collapse of the depth
  | _ => if s.isElevated && !t.isElevated then fetchSub elevatedSessions else elevatedSessions

def step (w : Mux) : MuxEvent → Option Mux
  | .start sid room pendingClientData =>
      some { w with
        sessions := w.sessions ++ [.running (LoopState.start sid ⟨[], room⟩ pendingClientData)] }
  | .loop i e =>
      match w.sessions[i]? with
      | some (.running s) =>
          if s.asksPermit e then none
          else (s.step e).map fun t => { w with
            elevatedSessions := release w.elevatedSessions s t
            sessions := w.sessions.set i (.running t) }
      | _ => none
  | .load i m resp allLegacy =>
      match w.sessions[i]? with
      | some (.running s) =>
          if s.asksPermit (.reply m (.ok resp) allLegacy true) then some { w with
            sessions := w.sessions.set i (.admitting s m resp allLegacy w.elevatedSessions) }
          else none
      | _ => none
  | .exchange i spurious =>
      match w.sessions[i]? with
      | some (.admitting s m resp allLegacy cur) =>
          if w.maxElevated ≤ cur then
            (s.step (.reply m (.ok resp) allLegacy false)).map fun t =>
              { w with sessions := w.sessions.set i (.running t) }
          else if w.elevatedSessions = cur ∧ spurious = false then
            (s.step (.reply m (.ok resp) allLegacy true)).map fun t => { w with
              elevatedSessions := cur + 1
              sessions := w.sessions.set i (.running t) }
          else some { w with
            sessions := w.sessions.set i (.admitting s m resp allLegacy w.elevatedSessions) }
      | _ => none

/-- The counter is the number of running elevated sessions, within its bound. -/
def Conserved (w : Mux) : Prop :=
  w.elevatedSessions = w.sessions.countP Session.holds ∧ w.elevatedSessions ≤ w.maxElevated

/-- The local socket of an elevated session takes what the session writes to it in the step. -/
def WritesTaken (w : Mux) : MuxEvent → Prop
  | .loop i (.reply m (.ok resp) _ _) =>
      ∀ s, w.sessions[i]? = some (.running s) → s.isElevated = true → s.phase = .select →
        resp.e = none → (s.writer.writeAll (s.turnBytes m.seq resp)).2 = true
  | _ => True

/-! ## One step -/

variable {w v : Mux} {i : Nat}

theorem holds_of_running {s : LoopState} (h : ∀ r, s.phase ≠ .ended r) :
    s.holds = s.isElevated := by
  unfold LoopState.holds
  split
  next r hr => exact absurd hr (h r)
  next => rfl

theorem holds_of_not_elevated {s : LoopState} (h : s.isElevated = false) : s.holds = false := by
  unfold LoopState.holds
  split
  · rfl
  · exact h

/-- One session is exchanged for another. -/
theorem countP_set {l : List Session} {x : Session} (h : l[i]? = some x) (y : Session) :
    (l.set i y).countP Session.holds + x.holds.toNat = l.countP Session.holds + y.holds.toNat := by
  obtain ⟨hi, rfl⟩ := List.getElem?_eq_some_iff.mp h
  have hset := List.countP_set (p := Session.holds) (a := y) hi
  have hle : l[i].holds.toNat ≤ l.countP Session.holds := by
    cases hx : l[i].holds with
    | false => exact Nat.zero_le _
    | true => exact List.countP_pos_iff.mpr ⟨_, List.getElem_mem hi, hx⟩
  cases hx : l[i].holds with
  | false => cases hy : y.holds <;> simp_all
  | true => cases hy : y.holds <;> simp_all

/-- What the sessions in the admission loop are there for. -/
def AllAsk (w : Mux) : Prop :=
  ∀ (i : Nat) (s : LoopState) (m : InflightMeta) (resp : TunnelResponse) (allLegacy : Bool)
    (cur : Nat), w.sessions[i]? = some (.admitting s m resp allLegacy cur) →
    s.asksPermit (.reply m (.ok resp) allLegacy true) = true

theorem asksPermit_iff {s : LoopState} {m : InflightMeta} {resp : TunnelResponse} {l p : Bool} :
    s.asksPermit (.reply m (.ok resp) l p) = true ↔
      s.isElevated = false ∧ ∃ t, s.step (.reply m (.ok resp) l true) = some t ∧
        t.isElevated = true := by
  simp only [LoopState.asksPermit]
  cases hs : s.step (.reply m (.ok resp) l true) with
  | none => simp
  | some t => simp

theorem allAsk_set {y : Session} (h : AllAsk w) {elevatedSessions : Nat}
    (hy : ∀ s m resp l cur, y = .admitting s m resp l cur →
      s.asksPermit (.reply m (.ok resp) l true) = true) :
    AllAsk { w with elevatedSessions := elevatedSessions, sessions := w.sessions.set i y } := by
  intro j s m resp l cur hj
  replace hj : (w.sessions.set i y)[j]? = some (.admitting s m resp l cur) := hj
  rw [List.getElem?_set] at hj
  split_ifs at hj
  · exact hy s m resp l cur (Option.some.inj hj)
  · exact h j s m resp l cur hj

theorem step_allAsk {e : MuxEvent} (h : AllAsk w) (hs : w.step e = some v) : AllAsk v := by
  cases e with
  | start sid room pending =>
      cases hs
      intro j s m resp l cur hj
      replace hj : (w.sessions ++ [_])[j]? = some (.admitting s m resp l cur) := hj
      rcases List.mem_append.mp (List.mem_of_getElem? hj) with hold | hnew
      · obtain ⟨k, hk⟩ := List.mem_iff_getElem?.mp hold
        exact h k s m resp l cur hk
      · cases List.mem_singleton.mp hnew
  | loop i e =>
      simp only [step] at hs
      split at hs
      next s hi =>
        split_ifs at hs
        obtain ⟨t, ht, rfl⟩ := Option.map_eq_some_iff.mp hs
        exact allAsk_set h fun _ _ _ _ _ heq => by cases heq
      next => cases hs
  | load i m resp l =>
      simp only [step] at hs
      split at hs
      next s hi =>
        split_ifs at hs with hask
        cases hs
        refine allAsk_set (w := w) h fun s' m' resp' l' cur' heq => ?_
        cases heq
        exact hask
      next => cases hs
  | exchange i spurious =>
      simp only [step] at hs
      split at hs
      next s m resp l cur hi =>
        split_ifs at hs
        · obtain ⟨t, ht, rfl⟩ := Option.map_eq_some_iff.mp hs
          exact allAsk_set (w := w) h fun _ _ _ _ _ heq => by cases heq
        · obtain ⟨t, ht, rfl⟩ := Option.map_eq_some_iff.mp hs
          exact allAsk_set h fun _ _ _ _ _ heq => by cases heq
        · cases hs
          refine allAsk_set (w := w) h fun s' m' resp' l' cur' heq => ?_
          cases heq
          exact h i s m resp l cur hi
      next => cases hs

/-- A loop that becomes elevated would have asked for a permit. -/
theorem step_unelevated {s t : LoopState} {e : LoopState.Event} (hask : s.asksPermit e = false)
    (ht : s.step e = some t) (hs : s.isElevated = false) : t.isElevated = false := by
  rcases LoopState.step_isElevated ht with hsame | ⟨m, resp, l, p, rfl, -, hpermit⟩
  · exact hsame.trans hs
  · apply Bool.eq_false_of_not_eq_true
    intro helev
    have hp : p = true := hpermit helev hs
    subst hp
    have hyes : s.asksPermit (.reply m (.ok resp) l true) = true :=
      asksPermit_iff.mpr ⟨hs, t, ht, helev⟩
    cases hask.symm.trans hyes

/-- A permit that is given up is released, unless the loop is left by `?`. -/
theorem release_eq {s t : LoopState}
    (hend : ∀ r, t.phase = .ended r → t.isElevated = s.isElevated) (n : Nat) :
    release n s t =
      if s.isElevated = true ∧ t.holds = false ∧ t.phase ≠ .ended none then fetchSub n else n := by
  unfold release LoopState.holds
  cases hp : t.phase with
  | ended r =>
      rw [hend r hp]
      cases r with
      | none => exact (if_neg fun hno => hno.2.2 rfl).symm
      | some r => simp
  | _ => simp

/-- **A step of a session** keeps the accounting unless the session is elevated and its local
socket fails. -/
theorem loop_conserved_iff {e : LoopState.Event} {s t : LoopState} (h : Conserved w)
    (hi : w.sessions[i]? = some (.running s)) (hask : s.asksPermit e = false)
    (ht : s.step e = some t) :
    Conserved { w with
      elevatedSessions := release w.elevatedSessions s t
      sessions := w.sessions.set i (.running t) } ↔
        ¬ (s.isElevated = true ∧ t.phase = .ended none) := by
  obtain ⟨hcount, hmax⟩ := h
  have hs : s.holds = s.isElevated := holds_of_running (LoopState.step_running ht)
  have hset : (w.sessions.set i (.running t)).countP Session.holds + s.isElevated.toNat =
      w.sessions.countP Session.holds + t.holds.toNat := hs ▸ countP_set hi (.running t)
  have hend : ∀ r, t.phase = .ended r → t.isElevated = s.isElevated := by
    intro r hr
    rcases LoopState.step_isElevated ht with hsame | ⟨-, -, -, -, -, htop, -⟩
    · exact hsame
    · cases hr.symm.trans htop
  show release w.elevatedSessions s t = (w.sessions.set i (.running t)).countP Session.holds ∧
    release w.elevatedSessions s t ≤ w.maxElevated ↔ _
  rw [release_eq hend]
  cases hs1 : s.isElevated with
  | false =>
      have hgone : t.holds = false := holds_of_not_elevated (step_unelevated hask ht hs1)
      rw [hs1, hgone] at hset
      rw [if_neg fun hno => Bool.false_ne_true hno.1]
      exact iff_of_true ⟨hcount.trans hset.symm, hmax⟩ fun hno => Bool.false_ne_true hno.1
  | true =>
      rw [hs1] at hset
      cases hkept : t.holds with
      | true =>
          have hrun : t.phase ≠ .ended none := by
            intro hr
            rw [LoopState.holds, hr] at hkept
            cases hkept
          rw [hkept] at hset
          rw [if_neg fun hno => Bool.false_ne_true hno.2.1.symm]
          exact iff_of_true ⟨hcount.trans (Nat.add_right_cancel hset).symm, hmax⟩
            fun hno => hrun hno.2
      | false =>
          -- the session's own permit is among those counted
          rw [hkept, Bool.toNat_true, Bool.toNat_false] at hset
          by_cases hleft : t.phase = .ended none
          · rw [if_neg fun hno => hno.2.2 hleft]
            exact iff_of_false (fun hno => by omega) fun hno => hno ⟨rfl, hleft⟩
          · have hsub : fetchSub w.elevatedSessions = w.elevatedSessions - 1 :=
              if_neg (by omega)
            rw [if_pos ⟨rfl, rfl, hleft⟩, hsub]
            exact iff_of_true ⟨by omega, by omega⟩ fun hno => hleft hno.2

/-- The admission loop: a session that enters or goes round holds no permit, and one that leaves
has got the one it counted. -/
theorem admission_conserved {s : LoopState} {m : InflightMeta} {resp : TunnelResponse} {l : Bool}
    {x y : Session} (h : Conserved w) (hi : w.sessions[i]? = some x) (hx : x.holds = false)
    (hask : s.asksPermit (.reply m (.ok resp) l true) = true) {n : Nat} {permit : Bool}
    {t : LoopState} (ht : s.step (.reply m (.ok resp) l permit) = some t) (hy : y = .running t)
    (hn : n = w.elevatedSessions + permit.toNat) (hroom : n ≤ w.maxElevated) :
    Conserved { w with elevatedSessions := n, sessions := w.sessions.set i y } := by
  subst hy
  obtain ⟨hs, u, hu, helev⟩ := asksPermit_iff.mp hask
  have hset := countP_set hi (.running t)
  have hholds : t.holds = permit := by
    cases permit with
    | false =>
        apply holds_of_not_elevated
        rcases LoopState.step_isElevated ht with hsame | ⟨_, _, _, p, heq, -, hpermit⟩
        · exact hsame.trans hs
        · cases heq
          by_contra ht1
          cases hpermit (Bool.eq_true_of_not_eq_false ht1) hs
    | true =>
        rw [ht] at hu
        cases hu
        rcases LoopState.step_isElevated ht with hsame | ⟨-, -, -, -, -, htop, -⟩
        · rw [hsame, hs] at helev
          cases helev
        · rw [holds_of_running fun r hr => by rw [htop] at hr; cases hr]
          exact helev
  rw [hx, show (Session.running t).holds = permit from hholds] at hset
  obtain ⟨hcount, -⟩ := h
  refine ⟨?_, hroom⟩
  show n = (w.sessions.set i (.running t)).countP Session.holds
  simp only [Bool.toNat_false] at hset
  omega

theorem step_conserved_iff {e : MuxEvent} (hall : AllAsk w) (h : Conserved w)
    (hs : w.step e = some v) : Conserved v ↔ WritesTaken w e := by
  cases e with
  | start sid room pending =>
      cases hs
      refine iff_of_true ⟨?_, h.2⟩ trivial
      have hnew : (LoopState.start sid ⟨[], room⟩ pending).holds = false := by
        apply holds_of_not_elevated
        unfold LoopState.start
        rcases pending with _ | _ | ⟨b, data⟩ <;> rfl
      show w.elevatedSessions = (w.sessions ++ [_]).countP Session.holds
      rw [List.countP_append, List.countP_singleton, h.1]
      simp [Session.holds, hnew]
  | loop i e =>
      simp only [step] at hs
      split at hs
      next s hi =>
        split_ifs at hs with hask
        obtain ⟨t, ht, rfl⟩ := Option.map_eq_some_iff.mp hs
        rw [loop_conserved_iff h hi (Bool.eq_false_of_not_eq_true hask) ht,
          LoopState.step_failed ht]
        constructor
        · intro hno
          unfold WritesTaken
          split
          next j m resp l p heq =>
            cases heq
            intro s' hs' helev hphase herr
            rw [hi] at hs'
            cases hs'
            by_contra hwrite
            exact hno ⟨helev, m, resp, l, p, rfl, hphase, herr,
              Bool.eq_false_of_not_eq_true hwrite⟩
          next => trivial
        · rintro hC ⟨helev, m, resp, l, p, rfl, hphase, herr, hwrite⟩
          rw [hC s hi helev hphase herr] at hwrite
          cases hwrite
      next => cases hs
  | load i m resp l =>
      simp only [step] at hs
      split at hs
      next s hi =>
        split_ifs at hs with hask
        cases hs
        have hset := countP_set hi (.admitting s m resp l w.elevatedSessions)
        refine iff_of_true ⟨?_, h.2⟩ trivial
        have hcount := h.1
        simp only [Session.holds] at hset ⊢
        omega
      next => cases hs
  | exchange i spurious =>
      refine iff_of_true ?_ trivial
      simp only [step] at hs
      split at hs
      next s m resp l cur hi =>
        have hask := hall i s m resp l cur hi
        have hx : (Session.admitting s m resp l cur).holds = false :=
          holds_of_not_elevated (asksPermit_iff.mp hask).1
        split_ifs at hs with hfull hsame
        · obtain ⟨t, ht, rfl⟩ := Option.map_eq_some_iff.mp hs
          exact admission_conserved h hi hx hask ht rfl rfl h.2
        · obtain ⟨t, ht, rfl⟩ := Option.map_eq_some_iff.mp hs
          obtain ⟨rfl, -⟩ := hsame
          exact admission_conserved h hi hx hask ht rfl rfl (Nat.lt_of_not_le hfull)
        · cases hs
          have hset := countP_set hi (.admitting s m resp l w.elevatedSessions)
          have hcount := h.1
          refine ⟨?_, h.2⟩
          simp only [Session.holds] at hset ⊢
          omega
      next => cases hs

/-- In every state of a run the counter is the number of running elevated sessions, and within its
bound, exactly if no local write of an elevated session fails in the run. -/
theorem permits_conserved_iff (maxElevated : Nat) (es : List MuxEvent) :
    StepRun.AllStates step Conserved (init maxElevated) es ↔
      StepRun.AllSteps step WritesTaken (init maxElevated) es :=
  StepRun.allStates_iff_allSteps_of_inv (I := AllAsk) (fun _ _ _ hI hs => step_allAsk hI hs)
    (fun _ _ _ hI hP hs => step_conserved_iff hI hP hs)
    (fun i _ _ _ _ _ hi => by simp [init] at hi) ⟨rfl, Nat.zero_le _⟩ es

end Mux

/-! ## A permit that is lost

The first reply of a session carries 32 KiB, so that the second one elevates it; the socket takes
the two and fails at the third.
-/

namespace LoopState

theorem deliver_text {s : LoopState} {resp : TunnelResponse} {text : List Char}
    {b : UInt8} {bytes : List UInt8} (hd : resp.d = some text)
    (hdec : Base64.decode text = some (b :: bytes))
    (hw : (s.writer.writeAll (b :: bytes)).2 = true) :
    deliver s resp = ({ s with
      writer := (s.writer.writeAll (b :: bytes)).1
      consecutiveEmpty := 0
      consecutiveData := s.consecutiveData + 1
      totalDownloadBytes := s.totalDownloadBytes + downloadBytes resp
      eofSeen := s.eofSeen || resp.eof.getD false }, true) := by
  unfold deliver writeTunnelResponse
  rw [hd]
  cases text with
  | nil => cases hdec
  | cons c text => simp [hdec, hw]

/-- The reply next in turn, with nothing buffered behind it. -/
theorem onReply_next {s u : LoopState} {m : InflightMeta} {resp : TunnelResponse}
    {l p : Bool} (he : resp.e = none) (hr : resp.seq.isSome = true) (hseq : m.seq = s.nextWriteSeq)
    (hd : deliver { s with supportsSeq := true } resp = (u, true)) (hp : u.pendingWrites = .empty) :
    s.onReply m resp l p =
      ({ u with nextWriteSeq := u.nextWriteSeq + 1 } : LoopState).afterReply true l p := by
  obtain ⟨n, hn⟩ := Option.isSome_iff_exists.mp hr
  unfold onReply accept
  simp only [he, hn, Option.isSome_none, Option.isSome_some, Option.isNone_some, Bool.or_true,
    Bool.false_eq_true, if_false]
  rw [if_pos hseq, hd]
  simp [flushPending, hp, InOrder.flush, InOrder.flushList, BTreeMap.empty]

/-- The depth goes past the optimist depth. -/
theorem adaptDepth_elevates {s : LoopState} (hempty : s.consecutiveEmpty = 0)
    (hdata : s.consecutiveData = 2) (hdepth : s.maxInflight = 3) (helev : s.isElevated = false)
    (htotal : 32 * 1024 ≤ s.totalDownloadBytes) :
    s.adaptDepth true = { s with isElevated := true, maxInflight := 4 } := by
  unfold adaptDepth
  rw [hempty, hdata, hdepth, helev, decide_eq_true htotal]
  rfl

end LoopState

namespace Mux

def dataOf (seq : Nat) (text : List Char) : TunnelResponse :=
  ⟨some "s", some text, none, some false, none, none, some seq⟩

/-- A session of which replies have come to all polls up to `n`, and poll `n` is out. -/
def waiting (n depth data total : Nat) (elevated : Bool) (w : Writer) : LoopState :=
  ⟨"s", depth, 0, data, elevated, total, n + 1, n, 0, false, false, .empty, decide (0 < n), none,
    [⟨n, true⟩], 0, true, .select, w, [],
    (List.range (n + 1)).map fun k => sendEmptyPoll "s" k⟩

/-- The same when the reply is written. -/
def answered (n depth data total : Nat) (elevated : Bool) (w : Writer) : LoopState :=
  { waiting n depth data total elevated w with
    nextWriteSeq := n + 1
    supportsSeq := true
    inflight := [] }

/-- The reply that is awaited. -/
theorem waiting_reply {n depth data total : Nat} {elev p : Bool} {w : Writer} {text : List Char}
    {b : UInt8} {bytes : List UInt8} (hdec : Base64.decode text = some (b :: bytes))
    (hw : (w.writeAll (b :: bytes)).2 = true) :
    (waiting n depth data total elev w).step (.reply ⟨n, true⟩ (.ok (dataOf n text)) false p) =
      some { ((answered n depth (data + 1) (total + LoopState.downloadBytes (dataOf n text)) elev
        (w.writeAll (b :: bytes)).1).adaptDepth p).scheduleRefill false with phase := .top } := by
  have hs : (waiting n depth data total elev w).step
      (.reply ⟨n, true⟩ (.ok (dataOf n text)) false p) =
      some (((waiting n depth data total elev w).takeReply ⟨n, true⟩).onReply ⟨n, true⟩
        (dataOf n text) false p) := by
    simp [LoopState.step, waiting]
  rw [hs, LoopState.onReply_next rfl rfl rfl (LoopState.deliver_text rfl hdec hw) rfl]
  have herase : [(⟨n, true⟩ : InflightMeta)].erase ⟨n, true⟩ = [] := by simp
  simp only [LoopState.takeReply, waiting, herase]
  rfl

theorem first_reply {total : Nat} {w : Writer} {p : Bool} :
    ({ ((answered 0 3 1 total false w).adaptDepth p).scheduleRefill false with phase := .top } :
      LoopState) = { answered 0 3 1 total false w with phase := .top } := rfl

theorem second_reply {total : Nat} {w : Writer} (h : 32 * 1024 ≤ total) :
    ({ ((answered 1 3 2 total false w).adaptDepth true).scheduleRefill false with phase := .top } :
      LoopState) = { answered 1 4 2 total true w with phase := .top } := by
  rw [LoopState.adaptDepth_elevates rfl rfl rfl rfl h]
  rfl

/-- The loop goes round, sends a poll and waits for its reply. -/
def nextPoll : List MuxEvent :=
  [.loop 0 (.turn false), .loop 0 (.refill false), .loop 0 (.turn false)]

/-- The text `QQ==`. -/
def oneByte : List Char := ['Q', 'Q', '=', '=']

/-- The first reply carries `text`, the others one byte; the socket takes the first two. -/
def failingWrite (text : List Char) (room : Nat) : List MuxEvent :=
  ([.start "s" (some room) none, .loop 0 (.turn false),
    .loop 0 (.reply ⟨0, true⟩ (.ok (dataOf 0 text)) false false)] : List MuxEvent) ++ nextPoll ++
  ([.load 0 ⟨1, true⟩ (dataOf 1 oneByte) false, .exchange 0 false] : List MuxEvent) ++ nextPoll ++
  ([.loop 0 (.reply ⟨2, true⟩ (.ok (dataOf 2 oneByte)) false false)] : List MuxEvent)

theorem step_loop {s t : LoopState} {e : LoopState.Event} {n k : Nat}
    (hask : s.asksPermit e = false) (ht : s.step e = some t) (hk : release n s t = k) :
    step ⟨n, 30, [.running s]⟩ (.loop 0 e) = some ⟨k, 30, [.running t]⟩ := by
  subst hk
  simp [step, hask, ht]

theorem run_admission {s t : LoopState} {m : InflightMeta} {resp : TunnelResponse} {l : Bool}
    (hs : s.isElevated = false) (ht : s.step (.reply m (.ok resp) l true) = some t)
    (helev : t.isElevated = true) :
    StepRun.run step ⟨0, 30, [.running s]⟩ [.load 0 m resp l, .exchange 0 false] =
      some ⟨1, 30, [.running t]⟩ := by
  have hask : s.asksPermit (.reply m (.ok resp) l true) = true :=
    asksPermit_iff.mpr ⟨hs, t, ht, helev⟩
  simp [StepRun.run, step, hask, ht]

/-- The permit of a session whose local socket fails is lost. -/
theorem run_failingWrite {text : List Char} {b : UInt8} {bytes : List UInt8}
    (hdec : Base64.decode text = some (b :: bytes))
    (hbig : 32 * 1024 ≤ LoopState.downloadBytes (dataOf 0 text)) :
    ∃ w, StepRun.run step (init 30) (failingWrite text (bytes.length + 2)) = some w ∧
      w.elevatedSessions = 1 ∧ w.sessions.countP Session.holds = 0 := by
  have hok : ((⟨[], some (bytes.length + 2)⟩ : Writer).writeAll (b :: bytes)).2 = true := by
    simp [Writer.writeAll]
  have hw : ((⟨[], some (bytes.length + 2)⟩ : Writer).writeAll (b :: bytes)).1 =
      ⟨b :: bytes, some 1⟩ := by
    simp [Writer.writeAll]
  have hbyte : Base64.decode oneByte = some [65] := rfl
  have hthree : LoopState.downloadBytes (dataOf 1 oneByte) = 3 := rfl
  have hfirst : ∀ p, (waiting 0 3 0 0 false ⟨[], some (bytes.length + 2)⟩).step
      (.reply ⟨0, true⟩ (.ok (dataOf 0 text)) false p) =
      some { answered 0 3 1 (0 + LoopState.downloadBytes (dataOf 0 text)) false
        ⟨b :: bytes, some 1⟩ with phase := .top } := by
    intro p
    rw [waiting_reply hdec hok, hw, first_reply]
  have hsecond : (waiting 1 3 1 (0 + LoopState.downloadBytes (dataOf 0 text)) false
      ⟨b :: bytes, some 1⟩).step (.reply ⟨1, true⟩ (.ok (dataOf 1 oneByte)) false true) =
      some { answered 1 4 2 (0 + LoopState.downloadBytes (dataOf 0 text) + 3) true
        ⟨b :: bytes ++ [65], some 0⟩ with phase := .top } := by
    rw [waiting_reply hbyte rfl, hthree, second_reply (by omega)]
    rfl
  generalize 0 + LoopState.downloadBytes (dataOf 0 text) = total at hfirst hsecond
  have hask : (waiting 0 3 0 0 false ⟨[], some (bytes.length + 2)⟩).asksPermit
      (.reply ⟨0, true⟩ (.ok (dataOf 0 text)) false false) = false := by
    simp only [LoopState.asksPermit, hfirst]
    rfl
  have hstart : StepRun.run step (init 30) [.start "s" (some (bytes.length + 2)) none,
      .loop 0 (.turn false), .loop 0 (.reply ⟨0, true⟩ (.ok (dataOf 0 text)) false false)] =
      some ⟨0, 30, [.running { answered 0 3 1 total false ⟨b :: bytes, some 1⟩ with
        phase := .top }]⟩ := by
    show (step ⟨0, 30, [.running (waiting 0 3 0 0 false ⟨[], some (bytes.length + 2)⟩)]⟩ _).bind
      some = _
    rw [step_loop hask (hfirst false) rfl]
    rfl
  have hpoll₀ : StepRun.run step ⟨0, 30, [.running { answered 0 3 1 total false
      ⟨b :: bytes, some 1⟩ with phase := .top }]⟩ nextPoll =
      some ⟨0, 30, [.running (waiting 1 3 1 total false ⟨b :: bytes, some 1⟩)]⟩ := rfl
  have hpoll₁ : StepRun.run step ⟨1, 30, [.running { answered 1 4 2 (total + 3) true
      ⟨b :: bytes ++ [65], some 0⟩ with phase := .top }]⟩ nextPoll =
      some ⟨1, 30, [.running (waiting 2 4 2 (total + 3) true ⟨b :: bytes ++ [65], some 0⟩)]⟩ := rfl
  have hlast : StepRun.run step ⟨1, 30, [.running (waiting 2 4 2 (total + 3) true
      ⟨b :: bytes ++ [65], some 0⟩)]⟩
      [.loop 0 (.reply ⟨2, true⟩ (.ok (dataOf 2 oneByte)) false false)] =
      some ⟨1, 30, [.running { waiting 2 4 2 (total + 3) true
        ⟨b :: bytes ++ [65] ++ [], some 0⟩ with inflight := [], phase := .ended none }]⟩ := rfl
  have hrun : StepRun.run step (init 30) (failingWrite text (bytes.length + 2)) =
      some ⟨1, 30, [.running { waiting 2 4 2 (total + 3) true
        ⟨b :: bytes ++ [65] ++ [], some 0⟩ with inflight := [], phase := .ended none }]⟩ := by
    rw [failingWrite, StepRun.run_append, StepRun.run_append, StepRun.run_append,
      StepRun.run_append, hstart, Option.bind_some, hpoll₀, Option.bind_some,
      run_admission rfl hsecond rfl, Option.bind_some, hpoll₁, Option.bind_some, hlast]
  exact ⟨_, hrun, rfl, rfl⟩

/-- A text of 32 KiB. -/
theorem le_downloadBytes (n : Nat) (seq : Nat) :
    n ≤ LoopState.downloadBytes (dataOf seq (Base64.encode (List.replicate n 0))) := by
  have hlen := Base64.length_encode (List.replicate n 0)
  rw [List.length_replicate] at hlen
  have hle := LoopState.length_le_sum_utf8Size (Base64.encode (List.replicate n 0))
  unfold LoopState.downloadBytes dataOf
  simp only [Option.getD_some]
  omega

/-- A local write that fails while the session is elevated leaves the permit taken for good. -/
theorem permit_lost : ¬ ∀ (maxElevated : Nat) (es : List MuxEvent),
    StepRun.AllStates step Conserved (init maxElevated) es := by
  intro h
  have hdec : Base64.decode (Base64.encode (List.replicate (32 * 1024) 0)) =
      some (0 :: List.replicate (32 * 1024 - 1) 0) := Base64.decode_encode _
  obtain ⟨w, hrun, hcounter, hheld⟩ := run_failingWrite hdec (le_downloadBytes _ 0)
  obtain ⟨hcount, -⟩ := StepRun.allStates_last (h 30 _) hrun
  rw [hcounter, hheld] at hcount
  cases hcount

end Mux

end Rahgozar.Tunnel
