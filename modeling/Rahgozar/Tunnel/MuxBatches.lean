import Rahgozar.Lib.Packing
import Rahgozar.Tunnel.Uplink

set_option autoImplicit false

/-! # From messages to batches (`mux_loop` in `src/tunnel_client.rs`)

One turn of `mux_loop` collects messages and goes through them. Each message but `Close` brings
an operation and the channel of its reply; the operation joins the batch that is being filled, or
the batch is fired first. The sids to close are kept aside and ride with the last batch.
-/

namespace Rahgozar.Tunnel

open Packing

def maxBatchPayloadBytes : Nat := 4 * 1024 * 1024
def maxBatchOps : Nat := 50

def usizeMax : Nat := 2 ^ 64 - 1

/-- `n.div_ceil(3) * 4`. -/
def encodedLen (n : Nat) : Nat := (n + 2) / 3 * 4

/-! ## The messages -/

inductive MuxMsg (Reply : Type) where
  | connect (host : String) (port : UInt16) (reply : Reply)
  | connectData (host : String) (port : UInt16) (data : List UInt8) (reply : Reply)
  | data (sid : String) (data : List UInt8) (seq wseq : Option Nat) (reply : Reply)
  | udpOpen (host : String) (port : UInt16) (data : List UInt8) (reply : Reply)
  | udpData (sid : String) (data : List UInt8) (reply : Reply)
  | close (sid : String)

variable {Reply : Type}

def connectPendingOp (host : String) (port : UInt16) : PendingOp :=
  ⟨"connect", none, some host, some port, none, false, none, none⟩

def connectDataPendingOp (host : String) (port : UInt16) (data : List UInt8) : PendingOp :=
  ⟨"connect_data", none, some host, some port, some data, true, none, none⟩

def udpOpenPendingOp (host : String) (port : UInt16) (data : List UInt8) : PendingOp :=
  ⟨"udp_open", none, some host, some port, if data.isEmpty then none else some data, false,
    none, none⟩

def udpDataPendingOp (sid : String) (data : List UInt8) : PendingOp :=
  ⟨"udp_data", some sid, none, none, if data.isEmpty then none else some data, false, none, none⟩

def closePendingOp (sid : String) : PendingOp :=
  ⟨"close", some sid, none, none, none, false, none, none⟩

/-! ## The accumulator -/

def shouldFire (pendingLen payloadBytes opBytes : Nat) : Bool :=
  pendingLen > 0 &&
    (pendingLen ≥ maxBatchOps ||
      min (payloadBytes + opBytes) usizeMax > maxBatchPayloadBytes)

/-- What `fire_batch` is called with. -/
structure Fired (Reply : Type) where
  pendingOps : List PendingOp
  dataReplies : List (Nat × Reply)

structure BatchAccum (Reply : Type) where
  pendingOps : List PendingOp
  dataReplies : List (Nat × Reply)
  payloadBytes : Nat

def BatchAccum.new : BatchAccum Reply := ⟨[], [], 0⟩

def BatchAccum.push (accum : BatchAccum Reply) (op : PendingOp) (opBytes : Nat) (reply : Reply) :
    BatchAccum Reply :=
  ⟨accum.pendingOps ++ [op], accum.dataReplies ++ [(accum.pendingOps.length, reply)],
    accum.payloadBytes + opBytes⟩

/-- The accumulator, and the batch that is fired before. -/
def BatchAccum.pushOrFire (accum : BatchAccum Reply) (op : PendingOp) (opBytes : Nat)
    (reply : Reply) : BatchAccum Reply × Option (Fired Reply) :=
  if shouldFire accum.pendingOps.length accum.payloadBytes opBytes then
    (BatchAccum.new.push op opBytes reply, some ⟨accum.pendingOps, accum.dataReplies⟩)
  else (accum.push op opBytes reply, none)

/-! ## The loop -/

/-- The variables of one turn; `fired` are the calls of `fire_batch`. -/
structure MuxTurn (Reply : Type) where
  accum : BatchAccum Reply
  closeSids : List String
  fired : List (Fired Reply)

def MuxTurn.start : MuxTurn Reply := ⟨BatchAccum.new, [], []⟩

def MuxTurn.pushOrFire (t : MuxTurn Reply) (op : PendingOp) (opBytes : Nat) (reply : Reply) :
    MuxTurn Reply :=
  let (accum, fired) := t.accum.pushOrFire op opBytes reply
  { t with accum := accum, fired := t.fired ++ fired.toList }

/-- `match msg`. -/
def MuxTurn.take (t : MuxTurn Reply) : MuxMsg Reply → MuxTurn Reply
  | .connect host port reply => t.pushOrFire (connectPendingOp host port) 0 reply
  | .connectData host port data reply =>
      t.pushOrFire (connectDataPendingOp host port data) (encodedLen data.length) reply
  | .data sid data seq wseq reply =>
      t.pushOrFire (dataPendingOp sid data seq wseq) (encodedLen data.length) reply
  | .udpOpen host port data reply =>
      t.pushOrFire (udpOpenPendingOp host port data) (encodedLen data.length) reply
  | .udpData sid data reply =>
      t.pushOrFire (udpDataPendingOp sid data) (encodedLen data.length) reply
  | .close sid => { t with closeSids := t.closeSids ++ [sid] }

/-- The calls of `fire_batch` for the messages that were collected. -/
def muxTurn (msgs : List (MuxMsg Reply)) : List (Fired Reply) :=
  let t := msgs.foldl MuxTurn.take MuxTurn.start
  let pendingOps := t.accum.pendingOps ++ t.closeSids.map closePendingOp
  if pendingOps.isEmpty then t.fired else t.fired ++ [⟨pendingOps, t.accum.dataReplies⟩]

/-! ## What a message brings -/

/-- The arguments of `push_or_fire`. -/
structure Push (Reply : Type) where
  op : PendingOp
  opBytes : Nat
  reply : Reply

def MuxMsg.push : MuxMsg Reply → Option (Push Reply)
  | .connect host port reply => some ⟨connectPendingOp host port, 0, reply⟩
  | .connectData host port bytes reply =>
      some ⟨connectDataPendingOp host port bytes, encodedLen bytes.length, reply⟩
  | .data sid bytes seq wseq reply =>
      some ⟨dataPendingOp sid bytes seq wseq, encodedLen bytes.length, reply⟩
  | .udpOpen host port bytes reply =>
      some ⟨udpOpenPendingOp host port bytes, encodedLen bytes.length, reply⟩
  | .udpData sid bytes reply => some ⟨udpDataPendingOp sid bytes, encodedLen bytes.length, reply⟩
  | .close _ => none

def MuxMsg.closeSid : MuxMsg Reply → Option String
  | .close sid => some sid
  | _ => none

/-- The length of the payload that `fire_batch` encodes for an operation. -/
def PendingOp.payloadLen (op : PendingOp) : Nat := ((encodePending op).d.getD []).length

/-- `opBytes` is what the payload comes to. -/
theorem payloadLen_push {msg : MuxMsg Reply} {p : Push Reply} (h : msg.push = some p) :
    p.op.payloadLen = p.opBytes := by
  have hsome : ∀ (data : List UInt8) (p : PendingOp), p.data = some data → p.encodeEmpty = true →
      p.payloadLen = encodedLen data.length := by
    intro data p hdata hempty
    cases data with
    | nil => simp [PendingOp.payloadLen, encodePending, hdata, hempty, encodedLen]
    | cons b bytes =>
        simp [PendingOp.payloadLen, encodePending, hdata, Base64.length_encode, encodedLen]
  have hopt : ∀ (data : List UInt8) (p : PendingOp),
      p.data = (if data.isEmpty then none else some data) →
      p.payloadLen = encodedLen data.length := by
    intro data p hdata
    cases data with
    | nil => simp [PendingOp.payloadLen, encodePending, hdata, encodedLen]
    | cons b bytes =>
        simp [PendingOp.payloadLen, encodePending, hdata, Base64.length_encode, encodedLen]
  cases msg with
  | connect host port reply => cases h; rfl
  | connectData host port data reply => cases h; exact hsome data _ rfl rfl
  | data sid data seq wseq reply => cases h; exact hopt data _ rfl
  | udpOpen host port data reply => cases h; exact hopt data _ rfl
  | udpData sid data reply => cases h; exact hopt data _ rfl
  | close sid => cases h

/-! ## The accumulator packs -/

/-- `should_fire`, for a group of operations. -/
def fires (g : List (Push Reply)) (p : Push Reply) : Bool :=
  shouldFire g.length (g.map Push.opBytes).sum p.opBytes

/-- The replies of a group, with the places of their operations. -/
def placedReplies (g : List (Push Reply)) : List (Nat × Reply) :=
  g.zipIdx.map fun p => (p.2, p.1.reply)

def BatchAccum.of (g : List (Push Reply)) : BatchAccum Reply :=
  ⟨g.map Push.op, placedReplies g, (g.map Push.opBytes).sum⟩

def Fired.of (g : List (Push Reply)) : Fired Reply := ⟨g.map Push.op, placedReplies g⟩

theorem BatchAccum.push_of (g : List (Push Reply)) (p : Push Reply) :
    (BatchAccum.of g).push p.op p.opBytes p.reply = BatchAccum.of (g ++ [p]) := by
  simp [BatchAccum.push, BatchAccum.of, placedReplies, List.zipIdx_append]

theorem BatchAccum.pushOrFire_of (g : List (Push Reply)) (p : Push Reply) :
    (BatchAccum.of g).pushOrFire p.op p.opBytes p.reply =
      if fires g p then (BatchAccum.of [p], some (Fired.of g))
      else (BatchAccum.of (g ++ [p]), none) := by
  have hlen : (BatchAccum.of g).pendingOps.length = g.length := List.length_map _
  rw [pushOrFire, hlen, push_of]
  exact if_congr Iff.rfl (congrArg (·, _) (push_of [] p)) rfl

/-- The turn after some messages, by the groups of what they brought. -/
def MuxTurn.of (packed : Packed (Push Reply)) (closeSids : List String) : MuxTurn Reply :=
  ⟨BatchAccum.of packed.last, closeSids, packed.closed.map Fired.of⟩

theorem MuxTurn.pushOrFire_of (packed : Packed (Push Reply)) (closeSids : List String)
    (p : Push Reply) :
    (MuxTurn.of packed closeSids).pushOrFire p.op p.opBytes p.reply =
      MuxTurn.of (packed.push fires p) closeSids := by
  simp only [MuxTurn.pushOrFire, MuxTurn.of, BatchAccum.pushOrFire_of]
  cases h : fires packed.last p with
  | true => simp [Packed.push_cut h]
  | false => simp [Packed.push_join h]

/-- A message brings an operation, or a sid to close. -/
theorem MuxTurn.take_eq (t : MuxTurn Reply) (msg : MuxMsg Reply) :
    (∃ p, msg.push = some p ∧ msg.closeSid = none ∧
      t.take msg = t.pushOrFire p.op p.opBytes p.reply) ∨
    (∃ sid, msg.push = none ∧ msg.closeSid = some sid ∧
      t.take msg = { t with closeSids := t.closeSids ++ [sid] }) := by
  cases msg with
  | close sid => exact Or.inr ⟨sid, rfl, rfl, rfl⟩
  | _ => exact Or.inl ⟨_, rfl, rfl, rfl⟩

def pushes (msgs : List (MuxMsg Reply)) : List (Push Reply) := msgs.filterMap MuxMsg.push

def closeSids (msgs : List (MuxMsg Reply)) : List String := msgs.filterMap MuxMsg.closeSid

theorem foldl_take (msgs : List (MuxMsg Reply)) :
    msgs.foldl MuxTurn.take MuxTurn.start =
      MuxTurn.of (pack fires (pushes msgs)) (closeSids msgs) := by
  induction msgs using List.reverseRecOn with
  | nil => rfl
  | append_singleton msgs msg ih =>
      rw [List.foldl_concat, ih]
      rcases MuxTurn.take_eq (MuxTurn.of (pack fires (pushes msgs)) (closeSids msgs)) msg with
        ⟨p, hpush, hclose, htake⟩ | ⟨sid, hpush, hclose, htake⟩
      · rw [htake, MuxTurn.pushOrFire_of]
        simp [pushes, closeSids, hpush, hclose]
      · rw [htake]
        simp [pushes, closeSids, hpush, hclose, MuxTurn.of]

/-! ## The batches of a turn -/

/-- The last batch, with the sids to close. -/
def Fired.closing (g : List (Push Reply)) (sids : List String) : Fired Reply :=
  ⟨g.map Push.op ++ sids.map closePendingOp, placedReplies g⟩

theorem Fired.closing_nil (g : List (Push Reply)) : Fired.closing g [] = Fired.of g := by
  simp [Fired.closing, Fired.of]

/-- The operations of the last batch that have a reply. -/
def trailing (msgs : List (MuxMsg Reply)) : List (Push Reply) := (pack fires (pushes msgs)).last

theorem muxTurn_cases (msgs : List (MuxMsg Reply)) :
    (trailing msgs = [] ∧ closeSids msgs = [] ∧
      muxTurn msgs = (pack fires (pushes msgs)).closed.map Fired.of) ∨
    muxTurn msgs = (pack fires (pushes msgs)).closed.map Fired.of ++
      [Fired.closing (trailing msgs) (closeSids msgs)] := by
  simp only [muxTurn, foldl_take]
  split
  · rename_i hempty
    have happ := List.append_eq_nil_iff.mp (List.isEmpty_iff.mp hempty)
    exact Or.inl ⟨List.map_eq_nil_iff.mp happ.1, List.map_eq_nil_iff.mp happ.2, rfl⟩
  · exact Or.inr rfl

theorem shouldFire_eq_false {pendingLen payloadBytes opBytes : Nat}
    (h : shouldFire pendingLen payloadBytes opBytes = false) :
    pendingLen = 0 ∨
      pendingLen < maxBatchOps ∧ payloadBytes + opBytes ≤ maxBatchPayloadBytes := by
  simp only [shouldFire, maxBatchOps, maxBatchPayloadBytes, usizeMax, gt_iff_lt, ge_iff_le,
    Bool.and_eq_false_iff, Bool.or_eq_false_iff, decide_eq_false_iff_not] at h ⊢
  omega

/-- A group keeps to the caps; alone, an operation may be too large. -/
def WithinCaps (g : List (Push Reply)) : Prop :=
  g.length ≤ maxBatchOps ∧ (1 < g.length → (g.map Push.opBytes).sum ≤ maxBatchPayloadBytes)

theorem withinCaps_of_length_le_one {g : List (Push Reply)} (h : g.length ≤ 1) : WithinCaps g :=
  ⟨le_trans h (by decide), fun hlt => absurd h (Nat.not_le.mpr hlt)⟩

theorem withinCaps_pack (ps : List (Push Reply)) :
    ∀ g ∈ (pack fires ps).groups, WithinCaps g := by
  apply forall_pack
  · exact withinCaps_of_length_le_one (Nat.zero_le 1)
  · intro p
    exact withinCaps_of_length_le_one (le_refl 1)
  · intro g p _ hfires
    rcases shouldFire_eq_false hfires with hzero | ⟨hlen, hsum⟩
    · apply withinCaps_of_length_le_one
      rw [List.length_append, hzero]
      exact le_refl 1
    · constructor
      · rw [List.length_append]
        exact hlen
      · intro _
        rw [List.map_append, List.sum_append]
        exact hsum

theorem length_placedReplies (g : List (Push Reply)) : (placedReplies g).length = g.length := by
  simp [placedReplies]

/-- Ops that close carry nothing. -/
theorem payloadLen_closing {g : List (Push Reply)}
    (hg : ∀ p ∈ g, p.op.payloadLen = p.opBytes) (sids : List String) :
    ((Fired.closing g sids).pendingOps.map PendingOp.payloadLen).sum =
      (g.map Push.opBytes).sum := by
  have hclose : (sids.map closePendingOp).map PendingOp.payloadLen = sids.map fun _ => 0 := by
    rw [List.map_map]
    rfl
  have hops : (g.map Push.op).map PendingOp.payloadLen = g.map Push.opBytes := by
    rw [List.map_map]
    exact List.map_congr_left hg
  rw [Fired.closing, List.map_append, List.sum_append, hops, hclose]
  simp

/-! ## What the batches hold together -/

/-- The batches divide the messages: every operation with a reply is in one batch, in the order of
the messages, the sids to close follow, and each reply has the place of its own operation. No
batch has too many operations, and only an operation that has no other with it may be too
large. -/
structure Partitioned (msgs : List (MuxMsg Reply)) (fired : List (Fired Reply)) : Prop where
  ops : fired.flatMap Fired.pendingOps =
    (pushes msgs).map Push.op ++ (closeSids msgs).map closePendingOp
  replies : ∃ groups : List (List (Push Reply)), groups.flatten = pushes msgs ∧
    List.Forall₂ (fun g b => g.map Push.op <+: b.pendingOps ∧ b.dataReplies = placedReplies g)
      groups fired
  cap : ∀ b ∈ fired, b.pendingOps.length ≤ maxBatchOps
  payload : ∀ b ∈ fired, 1 < b.dataReplies.length →
    (b.pendingOps.map PendingOp.payloadLen).sum ≤ maxBatchPayloadBytes

/-- The sids to close still fit into the last batch. -/
def ClosesFit (msgs : List (MuxMsg Reply)) : Prop :=
  (trailing msgs).length + (closeSids msgs).length ≤ maxBatchOps

section
variable {msgs : List (MuxMsg Reply)}

theorem pushes_eq (msgs : List (MuxMsg Reply)) :
    (pack fires (pushes msgs)).closed.flatten ++ trailing msgs = pushes msgs := by
  have h := flatten_pack fires (pushes msgs)
  rwa [Packed.groups, List.flatten_concat] at h

/-- A batch, its group and the sids that ride with it. -/
theorem mem_muxTurn {b : Fired Reply} (h : b ∈ muxTurn msgs) :
    ∃ g ∈ (pack fires (pushes msgs)).groups, ∃ sids, b = Fired.closing g sids ∧
      (sids = [] ∨ g = trailing msgs ∧ sids = closeSids msgs) := by
  have hclosed : ∀ b ∈ (pack fires (pushes msgs)).closed.map Fired.of,
      ∃ g ∈ (pack fires (pushes msgs)).groups, ∃ sids, b = Fired.closing g sids ∧
        (sids = [] ∨ g = trailing msgs ∧ sids = closeSids msgs) := by
    intro b hb
    obtain ⟨g, hg, rfl⟩ := List.mem_map.mp hb
    exact ⟨g, List.mem_append_left _ hg, [], (Fired.closing_nil g).symm, Or.inl rfl⟩
  rcases muxTurn_cases msgs with ⟨_, _, heq⟩ | heq
  · rw [heq] at h
    exact hclosed b h
  · rw [heq] at h
    rcases List.mem_append.mp h with hold | hlast
    · exact hclosed b hold
    · exact ⟨trailing msgs, List.mem_append_right _ List.mem_cons_self, closeSids msgs,
        List.mem_singleton.mp hlast, Or.inr ⟨rfl, rfl⟩⟩

theorem muxTurn_ops (msgs : List (MuxMsg Reply)) :
    (muxTurn msgs).flatMap Fired.pendingOps =
      (pushes msgs).map Push.op ++ (closeSids msgs).map closePendingOp := by
  have hclosed : ((pack fires (pushes msgs)).closed.map Fired.of).flatMap Fired.pendingOps =
      (pack fires (pushes msgs)).closed.flatten.map Push.op := by
    rw [List.flatMap_map, List.map_flatten, List.flatMap_def]
    rfl
  have hpushes := congrArg (List.map Push.op) (pushes_eq msgs)
  rw [List.map_append] at hpushes
  rcases muxTurn_cases msgs with ⟨htrailing, hsids, heq⟩ | heq
  · rw [heq, hclosed, ← hpushes, htrailing, hsids]
    simp
  · rw [heq, List.flatMap_append, hclosed, ← hpushes]
    simp [Fired.closing]

theorem forall₂_closed (closed : List (List (Push Reply))) :
    List.Forall₂ (fun g b => g.map Push.op <+: b.pendingOps ∧ b.dataReplies = placedReplies g)
      closed (closed.map Fired.of) := by
  rw [List.forall₂_map_right_iff, List.forall₂_same]
  intro g _
  exact ⟨List.prefix_rfl, rfl⟩

theorem muxTurn_replies (msgs : List (MuxMsg Reply)) :
    ∃ groups : List (List (Push Reply)), groups.flatten = pushes msgs ∧
      List.Forall₂ (fun g b => g.map Push.op <+: b.pendingOps ∧ b.dataReplies = placedReplies g)
        groups (muxTurn msgs) := by
  rcases muxTurn_cases msgs with ⟨htrailing, _, heq⟩ | heq
  · refine ⟨(pack fires (pushes msgs)).closed, ?_, ?_⟩
    · have h := pushes_eq msgs
      rwa [htrailing, List.append_nil] at h
    · rw [heq]
      exact forall₂_closed _
  · refine ⟨(pack fires (pushes msgs)).groups, flatten_pack fires (pushes msgs), ?_⟩
    rw [heq]
    apply List.rel_append (forall₂_closed _)
    exact List.Forall₂.cons ⟨List.prefix_append _ _, rfl⟩ List.Forall₂.nil

theorem muxTurn_payload {b : Fired Reply} (h : b ∈ muxTurn msgs)
    (hlen : 1 < b.dataReplies.length) :
    (b.pendingOps.map PendingOp.payloadLen).sum ≤ maxBatchPayloadBytes := by
  obtain ⟨g, hg, sids, rfl, _⟩ := mem_muxTurn h
  have hbytes : ∀ p ∈ g, p.op.payloadLen = p.opBytes := by
    intro p hp
    have hmem : p ∈ pushes msgs := by
      rw [← flatten_pack fires (pushes msgs)]
      exact List.mem_flatten.mpr ⟨g, hg, hp⟩
    obtain ⟨msg, _, hmsg⟩ := List.mem_filterMap.mp hmem
    exact payloadLen_push hmsg
  rw [payloadLen_closing hbytes]
  apply (withinCaps_pack (pushes msgs) g hg).2
  rwa [← length_placedReplies g]

theorem length_closing (g : List (Push Reply)) (sids : List String) :
    (Fired.closing g sids).pendingOps.length = g.length + sids.length := by
  simp [Fired.closing]

theorem muxTurn_cap (hfit : ClosesFit msgs) {b : Fired Reply} (h : b ∈ muxTurn msgs) :
    b.pendingOps.length ≤ maxBatchOps := by
  obtain ⟨g, hg, sids, rfl, rfl | ⟨rfl, rfl⟩⟩ := mem_muxTurn h
  · exact le_of_eq_of_le (length_closing g []) (withinCaps_pack (pushes msgs) g hg).1
  · exact le_of_eq_of_le (length_closing _ _) hfit

theorem closesFit_of_cap (h : ∀ b ∈ muxTurn msgs, b.pendingOps.length ≤ maxBatchOps) :
    ClosesFit msgs := by
  rcases muxTurn_cases msgs with ⟨htrailing, hsids, _⟩ | heq
  · rw [ClosesFit, htrailing, hsids]
    exact Nat.zero_le _
  · have hlast := h (Fired.closing (trailing msgs) (closeSids msgs)) (by simp [heq])
    rwa [length_closing] at hlast

end

/-- The batches of a turn divide its messages exactly when the sids to close fit into the last
batch, which takes them whatever it holds. -/
theorem muxTurn_partitioned_iff (msgs : List (MuxMsg Reply)) :
    Partitioned msgs (muxTurn msgs) ↔ ClosesFit msgs := by
  constructor
  · intro h
    exact closesFit_of_cap h.cap
  · intro hfit
    exact ⟨muxTurn_ops msgs, muxTurn_replies msgs, fun b hb => muxTurn_cap hfit hb,
      fun b hb hlen => muxTurn_payload hb hlen⟩

/-- Fifty polls, and a session that ends. -/
def pollsAndClose : List (MuxMsg Unit) :=
  List.replicate 50 (.data "s" [] none none ()) ++ [.close "t"]

/-- One batch of fifty-one operations. -/
theorem close_over_cap : ¬ Partitioned pollsAndClose (muxTurn pollsAndClose) := by
  intro h
  have hlen : (muxTurn pollsAndClose).map (fun b => b.pendingOps.length) = [51] := by
    decide +kernel
  obtain ⟨b, hb, hb51⟩ := List.mem_map.mp (hlen ▸ List.mem_singleton_self 51)
  have hcap := h.cap b hb
  rw [hb51] at hcap
  exact absurd hcap (by decide)

end Rahgozar.Tunnel
