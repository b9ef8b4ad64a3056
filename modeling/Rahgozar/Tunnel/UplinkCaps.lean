import Rahgozar.Tunnel.System

set_option autoImplicit false

/-! # The node's caps on early uploads

`pending_writes` takes at most `MAX_PENDING_WRITES_PER_SESSION` chunks. The client never has many
operations in flight, but an early chunk is answered at once, which frees its slot while an older
one is still on its way. What `pending_writes` holds is the number of chunks that have overtaken
the oldest chunk outstanding, and nothing on either side bounds that number.
-/

namespace Rahgozar.Tunnel

/-! ## What the loop sends -/

/-- An empty poll, or an upload of what one read returns. -/
def Honest (op : BatchOp) : Prop :=
  (∃ sid seq, op = sendEmptyPoll sid seq) ∨
    ∃ sid data seq wseq, data ≠ [] ∧ data.length ≤ clientReadMax ∧
      op = sendDataOp sid data seq wseq

namespace LoopState

/-- From `s` to `t` the loop has sent honest operations, and buffers no upload. -/
structure Sends (s t : LoopState) : Prop where
  buffered : t.bufferedUpload = none
  sent : ∃ new, t.sent = s.sent ++ new ∧ ∀ op ∈ new, Honest op

variable {s t u : LoopState}

theorem Sends.nothing (hb : t.bufferedUpload = none) (ht : t.sent = s.sent) : Sends s t :=
  ⟨hb, [], by rw [ht, List.append_nil], fun _ hop => absurd hop List.not_mem_nil⟩

theorem Sends.poll (hb : t.bufferedUpload = none) {sid : String} {seq : Nat}
    (ht : t.sent = s.sent ++ [sendEmptyPoll sid seq]) : Sends s t := by
  refine ⟨hb, _, ht, fun op hop => ?_⟩
  rw [List.mem_singleton.mp hop]
  exact .inl ⟨sid, seq, rfl⟩

theorem Sends.upload (hb : t.bufferedUpload = none) {sid : String} {data : List UInt8}
    {seq wseq : Nat} (hfits : (ReadResult.data data).Fits)
    (ht : t.sent = s.sent ++ [sendDataOp sid data seq wseq]) : Sends s t := by
  refine ⟨hb, _, ht, fun op hop => ?_⟩
  rw [List.mem_singleton.mp hop]
  exact .inr ⟨sid, data, seq, wseq, List.ne_nil_of_length_pos hfits.1, hfits.2, rfl⟩

theorem turn_sends (hb : s.bufferedUpload = none) (allLegacy : Bool) :
    Sends s (s.turn allLegacy) := by
  unfold turn
  split_ifs
  · exact .nothing hb rfl
  · exact .nothing hb rfl
  · exact .nothing hb rfl
  · exact .nothing hb rfl
  · exact .poll hb rfl
  · exact .nothing hb rfl

theorem onRefill_sends (hb : s.bufferedUpload = none) (allLegacy : Bool) :
    Sends s (s.onRefill allLegacy) := by
  have hsame : ∀ v : LoopState,
      v.rearm.bufferedUpload = v.bufferedUpload ∧ v.rearm.sent = v.sent := by
    intro v
    unfold rearm
    split_ifs <;> exact ⟨rfl, rfl⟩
  have hsend : ∀ v : LoopState, v.bufferedUpload = none → Sends v v.refillSend := by
    intro v hbv
    unfold refillSend
    rw [hbv]
    dsimp only
    split_ifs
    · exact .nothing hbv rfl
    · exact .poll hbv rfl
  -- the timer sends a poll, since there is nothing buffered
  unfold onRefill
  dsimp only
  split_ifs
  · exact .nothing hb rfl
  · obtain ⟨hbuf, hsent⟩ := hsend { s with refillArmed := false, phase := .top } hb
    exact ⟨(hsame _).1.trans hbuf, by rw [(hsame _).2]; exact hsent⟩
  · exact .nothing hb rfl

/-- A slot is free whenever the local socket is read, so an upload is never buffered. -/
theorem onRead_sends (hb : s.bufferedUpload = none) (hcan : s.canRead = true) {r : ReadResult}
    (hfits : r.Fits) : Sends s (s.onRead r) := by
  cases r with
  | eof => exact .nothing hb rfl
  | err => exact .nothing hb rfl
  | data bytes =>
      unfold canRead at hcan
      simp only [Bool.and_eq_true, decide_eq_true_eq] at hcan
      obtain ⟨-, hslot⟩ := hcan
      have hslack : s.inflight.length < s.maxInflight + fastPathSlack := by
        split_ifs at hslot <;> omega
      unfold onRead
      dsimp only
      split_ifs
      · exact .upload hb hfits rfl
      · exact .upload hb hfits rfl

theorem onLegacyRead_sends (hb : s.bufferedUpload = none) {r : ReadResult} (hfits : r.Fits) :
    Sends s (s.onLegacyRead r) := by
  cases r with
  | eof => exact .nothing hb rfl
  | err => exact .nothing hb rfl
  | data bytes => exact .upload hb hfits rfl

/-! Replies send nothing but buffered data, and there is none. -/

/-- The part of the state that sending changes. -/
def up (s : LoopState) : Option (List UInt8) × List BatchOp := (s.bufferedUpload, s.sent)

theorem deliver_up (s : LoopState) (resp : TunnelResponse) : (deliver s resp).1.up = s.up := by
  unfold deliver
  dsimp only
  split <;> rfl

theorem afterReply_up (hb : s.bufferedUpload = none) (hasSeq allLegacy permit : Bool) :
    (s.afterReply hasSeq allLegacy permit).up = s.up := by
  have hsend : s.sendBuffered = s := by
    unfold sendBuffered
    rw [hb]
  have hadapt : (s.adaptDepth permit).up = s.up := by
    unfold adaptDepth
    split_ifs <;> rfl
  have hsched : ∀ v : LoopState, (v.scheduleRefill allLegacy).up = v.up := by
    intro v
    unfold scheduleRefill
    split_ifs <;> rfl
  unfold afterReply
  rw [hsend]
  cases hasSeq with
  | false => exact hsched s
  | true => exact (hsched _).trans hadapt

theorem onReply_up (hb : s.bufferedUpload = none) (m : InflightMeta) (resp : TunnelResponse)
    (allLegacy permit : Bool) : ((s.takeReply m).onReply m resp allLegacy permit).up = s.up := by
  have hup : (s.accepted m resp).1.up = s.up :=
    accept_frame up (fun _ _ _ => rfl) deliver_up (s.beforeAccept m resp) m.seq resp
  rcases onReply_outcome s m resp allLegacy permit with ⟨-, ht⟩ | ⟨-, -, ht⟩ | ⟨-, -, ht⟩
  · rw [ht]
    rfl
  · rw [ht]
    exact hup
  · have hbu : (s.accepted m resp).1.bufferedUpload = none := (congrArg Prod.fst hup).trans hb
    rw [ht]
    exact (afterReply_up hbu _ _ _).trans hup

theorem Sends.of_up (hb : s.bufferedUpload = none) (hup : t.up = s.up) : Sends s t :=
  .nothing ((congrArg Prod.fst hup).trans hb) (congrArg Prod.snd hup)

/-- **One step sends polls and reads.** -/
theorem step_sends {e : Event} (hb : s.bufferedUpload = none) (hs : s.step e = some t) :
    Sends s t := by
  cases step_cases hs with
  | turn => exact turn_sends hb _
  | graceTimeout => exact .nothing hb rfl
  | refill => exact onRefill_sends hb _
  | read _ hfits hcan => exact onRead_sends hb hcan hfits
  | legacyRead _ hfits => exact onLegacyRead_sends hb hfits
  | @grace m resp =>
      exact .of_up hb
        (accept_frame up (fun _ _ _ => rfl) (fun _ _ => rfl) (s.takeReply m) m.seq resp)
  | @reply m resp l p => exact .of_up hb (onReply_up hb m resp l p)
  | lost _ _ hu => rcases hu with rfl | rfl <;> exact .nothing hb rfl

theorem start_sends (sid : String) (w : Writer) {pending : Option (List UInt8)}
    (hfits : ∀ data, pending = some data → data.length ≤ clientReadMax) :
    (start sid w pending).bufferedUpload = none ∧ ∀ op ∈ (start sid w pending).sent, Honest op := by
  unfold start
  rcases pending with _ | _ | ⟨b, data⟩
  · refine ⟨rfl, fun op hop => ?_⟩
    rw [List.mem_singleton.mp hop]
    exact .inl ⟨sid, 0, rfl⟩
  · refine ⟨rfl, fun op hop => ?_⟩
    rw [List.mem_singleton.mp hop]
    exact .inl ⟨sid, 0, rfl⟩
  · refine ⟨rfl, fun op hop => ?_⟩
    rcases List.mem_cons.mp hop with rfl | hop
    · exact .inr ⟨sid, b :: data, 0, 0, nofun, hfits _ rfl, rfl⟩
    · rw [List.mem_singleton.mp hop]
      exact .inl ⟨sid, 1, rfl⟩

end LoopState

/-! ## One chunk at the node -/

theorem Ordered.frame {f : Nat → List UInt8} {arrived : Finset Nat} {inner inner' : SessionInner}
    (h : Ordered False f arrived inner) (hn : inner'.nextWriteSeq = inner.nextWriteSeq)
    (hp : inner'.pendingWrites = inner.pendingWrites) : Ordered False f arrived inner' :=
  ⟨by rw [hn, hp]; exact h.gap, by rw [hn]; exact h.open_at, False.elim⟩

/-- A chunk arrives, maybe again; the numbers alone decide what happens to it. -/
theorem orderedWrite_any {f : Nat → List UInt8} {arrived : Finset Nat} {inner : SessionInner}
    (h : Ordered False f arrived inner) (hf : ∀ j, (f j).length ≤ clientReadMax) (w : Nat)
    {data : List UInt8} (hdata : data.length ≤ clientReadMax)
    (hcap : (orderedWrite inner w data).2 ≠ .capExceeded) :
    ∃ g, (∀ j, (g j).length ≤ clientReadMax) ∧
      Ordered False g (insert w arrived) (orderedWrite inner w data).1 := by
  -- the chunk under `w` may differ from the one that came before, so `f` is updated
  have hg : ∀ j, (Function.update f w data j).length ≤ clientReadMax := by
    intro j
    rw [Function.update_apply]
    split_ifs
    · exact hdata
    · exact hf j
  by_cases hmem : w ∈ arrived
  · revert hcap
    unfold orderedWrite
    dsimp only
    split_ifs with hlt heq hfull
    · intro _
      exact ⟨f, hf, by rw [h.gap.stale hlt]; exact ⟨h.gap, h.open_at, False.elim⟩⟩
    · exact absurd (heq ▸ hmem) h.open_at
    · exact fun hcap => absurd rfl hcap
    · intro _
      have hk : inner.nextWriteSeq.getD 0 < w := by omega
      refine ⟨_, hg, h.gap.replace hk data, ?_, False.elim⟩
      rw [Finset.insert_eq_of_mem hmem]
      exact h.open_at
  · have hord : Ordered False (Function.update f w data) arrived inner :=
      ⟨h.gap.congr fun j hj => Function.update_of_ne (ne_of_mem_of_not_mem hj hmem) data f,
        h.open_at, False.elim⟩
    have hstep := orderedWrite_ordered hord w
    rw [Function.update_self] at hstep
    exact ⟨_, hg, hstep hcap⟩

/-! ## What has arrived -/

namespace System

open StepRun

/-- The number of the chunk that operation `q` has brought to the node. -/
def arrivedAt (s : System) (q : Nat) : Option Nat :=
  match s.ops[q]?, s.client.sent[q]? with
  | some o, some op => if o = .sent then none else op.wseq
  | _, _ => none

def arrived (s : System) : Finset Nat := ((List.range s.ops.length).filterMap s.arrivedAt).toFinset

variable {s t : System} {q w : Nat}

theorem mem_arrived : w ∈ s.arrived ↔ ∃ q, s.arrivedAt q = some w := by
  unfold arrived
  simp only [List.mem_toFinset, List.mem_filterMap, List.mem_range]
  refine ⟨fun ⟨q, _, hq⟩ => ⟨q, hq⟩, fun ⟨q, hq⟩ => ⟨q, ?_, hq⟩⟩
  by_contra hlt
  rw [arrivedAt, List.getElem?_eq_none (Nat.le_of_not_lt hlt)] at hq
  cases hq

theorem arrived_congr (h : ∀ q, t.arrivedAt q = s.arrivedAt q) : t.arrived = s.arrived := by
  ext w
  rw [mem_arrived, mem_arrived]
  exact exists_congr fun q => by rw [h q]

/-- An operation moves on, and was not or is not on its way any more. -/
theorem arrivedAt_set (hclient : t.client = s.client) {o o' : OpState} (hq : s.ops[q]? = some o)
    (hops : t.ops = s.ops.set q o') (ho' : o' ≠ .sent) (j : Nat) :
    t.arrivedAt j = if j = q then s.client.sent[q]?.bind BatchOp.wseq else s.arrivedAt j := by
  have hlt : q < s.ops.length := (List.getElem?_eq_some_iff.mp hq).1
  unfold arrivedAt
  rw [hclient, hops]
  split_ifs with hj
  · subst hj
    rw [List.getElem?_set_self hlt]
    cases s.client.sent[j]? with
    | none => rfl
    | some op => exact if_neg ho'
  · rw [List.getElem?_set_ne (Ne.symm hj)]

theorem arrived_move (hclient : t.client = s.client) {o o' : OpState} (hq : s.ops[q]? = some o)
    (hops : t.ops = s.ops.set q o') (ho' : o' ≠ .sent) (ho : o ≠ .sent) :
    t.arrived = s.arrived := by
  refine arrived_congr fun j => ?_
  rw [arrivedAt_set hclient hq hops ho' j]
  split_ifs with hj
  · subst hj
    rw [arrivedAt, hq]
    cases s.client.sent[j]? with
    | none => rfl
    | some op => exact (if_neg ho).symm
  · rfl

/-- Phase 1 takes up an operation. -/
theorem arrived_arrive (hclient : t.client = s.client) {o' : OpState} (hq : s.ops[q]? = some .sent)
    (hops : t.ops = s.ops.set q o') (ho' : o' ≠ .sent) {op : BatchOp}
    (hop : s.client.sent[q]? = some op) :
    t.arrived = match op.wseq with
      | some w => insert w s.arrived
      | none => s.arrived := by
  have hnone : s.arrivedAt q = none := by
    rw [arrivedAt, hq, hop]
    exact if_pos rfl
  have hat : ∀ j, t.arrivedAt j = if j = q then op.wseq else s.arrivedAt j := by
    intro j
    rw [arrivedAt_set hclient hq hops ho' j, hop]
    rfl
  cases hw : op.wseq with
  | none =>
      refine arrived_congr fun j => ?_
      rw [hat j, hw]
      split_ifs with hj
      · rw [hj, hnone]
      · rfl
  | some w =>
      ext v
      rw [Finset.mem_insert, mem_arrived, mem_arrived]
      constructor
      · rintro ⟨j, hj⟩
        rw [hat j, hw] at hj
        split_ifs at hj
        · exact .inl (Option.some.inj hj).symm
        · exact .inr ⟨j, hj⟩
      · rintro (rfl | ⟨j, hj⟩)
        · exact ⟨q, by rw [hat q, if_pos rfl, hw]⟩
        · have hjq : j ≠ q := by
            rintro rfl
            rw [hnone] at hj
            cases hj
          exact ⟨j, by rw [hat j, if_neg hjq, hj]⟩

/-- The loop sends more, and all that is sent is on its way. -/
theorem arrived_noteSent {client : LoopState} {new : List BatchOp}
    (hlen : s.ops.length = s.client.sent.length) (hsent : client.sent = s.client.sent ++ new)
    (hclient : t.client = client) (hops : t.ops = noteSent s.ops client) :
    t.arrived = s.arrived := by
  refine arrived_congr fun j => ?_
  unfold arrivedAt
  rw [hclient, hops, hsent, noteSent]
  by_cases hj : j < s.ops.length
  · rw [List.getElem?_append_left hj, List.getElem?_append_left (hlen ▸ hj)]
  · -- beyond the old operations everything is still on its way
    have hnew : ∀ o, (s.ops ++ List.replicate (client.sent.length - s.ops.length) .sent)[j]? = some o →
        o = .sent := by
      intro o ho
      rw [List.getElem?_append_right (Nat.le_of_not_lt hj)] at ho
      exact List.eq_of_mem_replicate (List.mem_of_getElem? ho)
    rw [List.getElem?_eq_none (Nat.le_of_not_lt hj)]
    split
    · rename_i o op ho _
      exact if_pos (hnew o ho)
    · rfl

/-! ## The invariant -/

/-- What the client has sent is honest, and `pending_writes` holds the chunks that have arrived
behind the first gap, each of the size of one read at most. -/
structure CapInv (s : System) : Prop where
  length : s.ops.length = s.client.sent.length
  buffered : s.client.bufferedUpload = none
  honest : ∀ op ∈ s.client.sent, Honest op
  ordered : s.present = true → ∃ f, (∀ j, (f j).length ≤ clientReadMax) ∧
    Ordered False f s.arrived s.inner

theorem arrive_capInv (h : CapInv s) (hs : s.arrive q = some t) : CapInv t := by
  unfold arrive at hs
  split at hs
  case h_2 => cases hs
  case h_1 op hq hop =>
    have hmem : op ∈ s.client.sent := List.mem_of_getElem? hop
    split_ifs at hs with hp
    · obtain ⟨f, hf, hord⟩ := h.ordered hp
      -- what phase 1 passes on or refuses for its base64
      have hkeep : (dataOp s.inner op).2 ≠ .capExceeded → ∀ {o' : OpState}, o' ≠ .sent →
          CapInv { s with inner := (dataOp s.inner op).1, ops := s.ops.set q o' } := by
        intro hcap o' ho'
        refine ⟨by rw [List.length_set]; exact h.length, h.buffered, h.honest, fun _ => ?_⟩
        have harr := arrived_arrive (s := s)
          (t := { s with inner := (dataOp s.inner op).1, ops := s.ops.set q o' }) rfl hq rfl ho' hop
        rw [harr]
        rcases h.honest op hmem with ⟨sid, seq, rfl⟩ | ⟨sid, data, seq, w, hne, hlen, rfl⟩
        · exact ⟨f, hf, hord⟩
        · rw [dataOp_sendDataOp s.inner sid hne] at hcap ⊢
          exact orderedWrite_any hord hf w hlen hcap
      rcases hd : dataOp s.inner op with ⟨inner, _ | _ | _⟩ <;> rw [hd] at hs hkeep <;> cases hs
      · exact hkeep nofun nofun
      · exact hkeep nofun nofun
      · exact ⟨by rw [List.length_set]; exact h.length, h.buffered, h.honest, nofun⟩
    · cases hs
      exact ⟨by rw [List.length_set]; exact h.length, h.buffered, h.honest,
        fun hp' => absurd hp' hp⟩

theorem noteSent_capInv (h : CapInv s) (client : LoopState)
    (hsends : LoopState.Sends s.client client) :
    CapInv { s with client := client, ops := noteSent s.ops client } := by
  obtain ⟨hbuf, new, hsent, hnew⟩ := hsends
  refine ⟨?_, hbuf, fun op hop => ?_, fun hp => ?_⟩
  · have hlen := congrArg List.length hsent
    have hold := h.length
    simp only [noteSent, List.length_append, List.length_replicate] at hlen ⊢
    omega
  · replace hop : op ∈ client.sent := hop
    rw [hsent] at hop
    rcases List.mem_append.mp hop with hop | hop
    · exact h.honest op hop
    · exact hnew op hop
  · rw [arrived_noteSent h.length hsent rfl rfl]
    exact h.ordered hp

theorem move_capInv (h : CapInv s) (hclient : t.client = s.client)
    (hpresent : t.present = true → s.present = true) {o o' : OpState} (hq : s.ops[q]? = some o)
    (hops : t.ops = s.ops.set q o') (ho' : o' ≠ .sent) (ho : o ≠ .sent)
    (hup : SameUplink s t) : CapInv t := by
  refine ⟨?_, hclient ▸ h.buffered, hclient ▸ h.honest, fun hp => ?_⟩
  · rw [hops, List.length_set, hclient]
    exact h.length
  · obtain ⟨f, hf, hord⟩ := h.ordered (hpresent hp)
    rw [arrived_move hclient hq hops ho' ho]
    exact ⟨f, hf, hord.frame hup.1 hup.2⟩

/-- **The step lemma.** -/
theorem step_capInv {e : Event} (h : CapInv s) (hs : s.step e = some t) : CapInv t := by
  by_cases he : e.atNode = true
  · have hn := step_node he hs
    rcases hn.ops with ⟨hops, hup⟩ | ⟨q, o, o', hq, hops, -, -, ho', ⟨ho, hup⟩ | rfl⟩
    · refine ⟨?_, hn.client ▸ h.buffered, hn.client ▸ h.honest, fun hp => ?_⟩
      · rw [hops, hn.client]
        exact h.length
      · obtain ⟨f, hf, hord⟩ := h.ordered (hn.present hp)
        have harr : t.arrived = s.arrived := arrived_congr fun j => by
          rw [arrivedAt, arrivedAt, hops, hn.client]
        rw [harr]
        exact ⟨f, hf, hord.frame hup.1 hup.2⟩
    · exact move_capInv h hn.client hn.present hq hops ho' ho hup
    · exact arrive_capInv h hs
  cases e with
  | client e =>
      simp only [step, clientStep] at hs
      split_ifs at hs
      obtain ⟨c, hc, rfl⟩ := Option.map_eq_some_iff.mp hs
      exact noteSent_capInv h _ (LoopState.step_sends h.buffered hc)
  | deliver seq l p =>
      simp only [step, System.deliver] at hs
      split at hs
      case h_2 => cases hs
      case h_1 resp m hq hm =>
        obtain ⟨c, hc, rfl⟩ := Option.map_eq_some_iff.mp hs
        have hmoved : CapInv { s with ops := s.ops.set seq (.delivered resp) } :=
          move_capInv h rfl id hq rfl (fun ho => by cases ho) (fun ho => by cases ho) ⟨rfl, rfl⟩
        exact noteSent_capInv hmoved _ (LoopState.step_sends h.buffered hc)
  | _ => exact absurd rfl he

theorem init_capInv (sid : String) (localRoom upstreamRoom : Option Nat)
    (pending : Option Preread) : CapInv (init sid localRoom upstreamRoom pending) := by
  let client := LoopState.start sid ⟨[], localRoom⟩ (pending.map Subtype.val)
  have hfits : ∀ data, pending.map Subtype.val = some data → data.length ≤ clientReadMax := by
    intro data hdata
    obtain ⟨read, -, rfl⟩ := Option.map_eq_some_iff.mp hdata
    exact read.property
  obtain ⟨hbuf, hhonest⟩ := LoopState.start_sends sid ⟨[], localRoom⟩ hfits
  -- before the first operation is sent
  let s₀ : System := ⟨{ client with sent := [] }, SessionInner.new upstreamRoom, true, [], []⟩
  have h₀ : CapInv s₀ :=
    ⟨rfl, hbuf, fun _ hop => absurd hop List.not_mem_nil,
      fun _ => ⟨fun _ => [], fun _ => Nat.zero_le _, Ordered.new _ False.elim⟩⟩
  exact noteSent_capInv h₀ client ⟨hbuf, client.sent, rfl, hhonest⟩

/-! ## The cap -/

/-- Phase 1 comes to an upload of a session it knows. -/
def ChunkArrives (s : System) (q : Nat) : Prop :=
  s.present = true ∧ s.ops[q]? = some .sent ∧
    ∃ op w, s.client.sent[q]? = some op ∧ op.wseq = some w

/-- When a chunk arrives there is room in `pending_writes`, and the chunk is not answered with
`wseq buffer cap exceeded`. -/
def NoCapHit (s : System) : Event → Prop
  | .arrive q => s.ChunkArrives q → s.inner.pendingWrites.len < maxPendingWritesPerSession ∧
      ∀ op, s.client.sent[q]? = some op → (dataOp s.inner op).2 ≠ .capExceeded
  | _ => True

/-- When a chunk arrives, no chunk that is outstanding has been overtaken by
`MAX_PENDING_WRITES_PER_SESSION` later ones. -/
def NotOvertaken (s : System) : Event → Prop
  | .arrive q => s.ChunkArrives q → ∀ k, k ∉ s.arrived →
      (s.arrived.filter fun j => k < j).card < maxPendingWritesPerSession
  | _ => True

/-- What waits has overtaken the expected chunk, and no other outstanding chunk has been overtaken
by more. -/
theorem pending_lt_iff {f : Nat → List UInt8} {arrived : Finset Nat} {inner : SessionInner}
    (h : Ordered False f arrived inner) (n : Nat) :
    inner.pendingWrites.len < n ↔ ∀ k, k ∉ arrived → (arrived.filter fun j => k < j).card < n := by
  have hlen : inner.pendingWrites.len
      = (arrived.filter fun j => inner.nextWriteSeq.getD 0 < j).card := by
    rw [h.gap.len_eq]
    congr 1
    refine Finset.filter_congr fun j hj => ?_
    have hne : inner.nextWriteSeq.getD 0 ≠ j := fun heq => h.open_at (heq ▸ hj)
    omega
  constructor
  · intro hlt k hk
    -- an outstanding chunk is not below the gap
    have hle : inner.nextWriteSeq.getD 0 ≤ k := by
      by_contra hn
      exact hk (h.gap.below k (by omega))
    calc (arrived.filter fun j => k < j).card
      _ ≤ (arrived.filter fun j => inner.nextWriteSeq.getD 0 < j).card :=
          Finset.card_le_card (Finset.monotone_filter_right _ fun j _ hj => lt_of_le_of_lt hle hj)
      _ < n := hlen ▸ hlt
  · intro hall
    rw [hlen]
    exact hall _ h.open_at

/-- The cap on the bytes is out of reach while the cap on the entries holds. -/
theorem not_pendingFull {f : Nat → List UInt8} {arrived : Finset Nat} {inner : SessionInner}
    (h : Ordered False f arrived inner) (hf : ∀ j, (f j).length ≤ clientReadMax)
    (hlen : inner.pendingWrites.len < maxPendingWritesPerSession) {data : List UInt8}
    (hdata : data.length ≤ clientReadMax) : pendingFull inner.pendingWrites data = false := by
  have hsize : ∀ j v, inner.pendingWrites.get j = some v → v.length ≤ clientReadMax := by
    intro j v hv
    rw [(h.gap.mem_of_get hv).2.2]
    exact hf j
  have hsum := BTreeMap.sum_values_le hsize
  have hmul : inner.pendingWrites.len * clientReadMax ≤ 31 * clientReadMax :=
    Nat.mul_le_mul_right _ (Nat.le_of_lt_succ hlen)
  unfold pendingFull
  rw [Bool.or_eq_false_iff, decide_eq_false_iff_not, decide_eq_false_iff_not]
  -- 32 reads of 64 KiB are far below 16 MiB
  unfold maxPendingWritesPerSession maxPendingWriteBytesPerSession clientReadMax at *
  omega

theorem noCapHit_iff (h : CapInv s) (e : Event) : NoCapHit s e ↔ NotOvertaken s e := by
  cases e with
  | arrive q =>
      refine forall_congr' fun ⟨hp, hq, op, w, hop, hw⟩ => ?_
      obtain ⟨f, hf, hord⟩ := h.ordered hp
      -- the byte cap follows from the entry cap, so only the latter is left
      rw [← pending_lt_iff hord]
      refine ⟨fun hcap => hcap.1, fun hlt => ⟨hlt, fun op' hop' => ?_⟩⟩
      rw [hop] at hop'
      cases hop'
      rcases h.honest op (List.mem_of_getElem? hop) with ⟨sid, seq, rfl⟩ |
        ⟨sid, data, seq, w', hne, hlen, rfl⟩
      · cases hw
      · rw [dataOp_sendDataOp s.inner sid hne, Ne, orderedWrite_capExceeded,
          not_pendingFull hord hf hlt hlen]
        exact fun hfull => Bool.false_ne_true hfull.2
  | _ => exact Iff.rfl

/-- **The cap is hit exactly by overtaking.** A run never hits the cap if and only if in all of it,
whenever a chunk arrives, no outstanding chunk has been overtaken by 32 later ones. -/
theorem cap_not_hit_iff (sid : String) (localRoom upstreamRoom : Option Nat)
    (pending : Option Preread) (es : List Event) :
    AllSteps step NoCapHit (init sid localRoom upstreamRoom pending) es ↔
      AllSteps step NotOvertaken (init sid localRoom upstreamRoom pending) es :=
  allSteps_congr (fun _ _ _ h hs => step_capInv h hs) (fun _ e h => noCapHit_iff h e)
    (init_capInv sid localRoom upstreamRoom pending) es

/-- The first upload, with `seq` 1, is delayed. Each of the following ones reaches the node, waits
there, and is answered, which makes room for the next one. -/
def delayedFirstUpload : List Event :=
  ([.client (.turn false), .client (.read (.data [1]))] : List Event) ++
    (List.range 32).flatMap (fun i =>
      ([.client (.turn false), .client (.read (.data [1])), .arrive (i + 2),
        .startDrain (i + 2) 100, .loadEof (i + 2), .take (i + 2) true, .respond (i + 2),
        .client (.turn false), .deliver (i + 2) false false] : List Event)) ++
    ([.client (.turn false), .client (.read (.data [1]))] : List Event)

theorem cap_hit_by_delayed_upload :
    ¬ ∀ (sid : String) (localRoom upstreamRoom : Option Nat) (pending : Option Preread)
        (es : List Event), AllSteps step NoCapHit (init sid localRoom upstreamRoom pending) es := by
  intro hall
  have hsome : (run step (init "s" none none none) delayedFirstUpload).any
      (fun s => decide (s.present = true ∧ s.ops[34]? = some .sent ∧
        (s.client.sent[34]?).map BatchOp.wseq = some (some 33) ∧
        (s.client.sent[34]?).map (fun op => (dataOp s.inner op).2) = some .capExceeded)
        && (s.step (.arrive 34)).isSome) = true := by decide +kernel
  obtain ⟨s, hrun, hfacts⟩ := (Option.any_eq_true _ _).mp hsome
  obtain ⟨hdec, hstep⟩ := Bool.and_eq_true_iff.mp hfacts
  obtain ⟨hp, hq, hw, hcap⟩ := of_decide_eq_true hdec
  obtain ⟨t, ht⟩ := Option.isSome_iff_exists.mp hstep
  obtain ⟨op, hop, hopw⟩ := Option.map_eq_some_iff.mp hw
  have hhit := allSteps_last (hall "s" none none none (delayedFirstUpload ++ [.arrive 34])) hrun ht
  refine (hhit ⟨hp, hq, op, 33, hop, hopw⟩).2 op hop ?_
  rw [hop] at hcap
  exact Option.some.inj hcap

end System

end Rahgozar.Tunnel
