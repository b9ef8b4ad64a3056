import Rahgozar.Lib.Base64
import Rahgozar.Lib.InOrder
import Rahgozar.Tunnel.Protocol

set_option autoImplicit false

/-! # Uploads of one TCP session

The client numbers the chunks it reads from the local socket (`wseq`) and sends each in a `data`
operation. The batches they travel in reach the node in any order, some of them more than once,
some never. Phase 1 of `handle_batch` writes a chunk to the upstream socket when its number is
the expected one and keeps it in `pending_writes` when it is early.
-/

namespace Rahgozar.Tunnel

/-! ## Client side -/

/-- An operation on its way to `fire_batch`. -/
structure PendingOp where
  op : String
  sid : Option String
  host : Option String
  port : Option UInt16
  data : Option (List UInt8)
  encodeEmpty : Bool
  seq : Option Nat
  wseq : Option Nat

def encodePending (p : PendingOp) : BatchOp :=
  let d :=
    match p.data, p.encodeEmpty with
    | some (b :: bytes), _ => some (Base64.encode (b :: bytes))
    | some [], true => some []
    | _, _ => none
  ⟨p.op, p.sid, p.host, p.port, d, p.seq, p.wseq⟩

/-- What `mux_loop` makes of `MuxMsg::Data`. -/
def dataPendingOp (sid : String) (data : List UInt8) (seq wseq : Option Nat) : PendingOp :=
  ⟨"data", some sid, none, none, if data.isEmpty then none else some data, false, seq, wseq⟩

/-- The batch operation of `send_data_op`. -/
def sendDataOp (sid : String) (data : List UInt8) (seq wseq : Nat) : BatchOp :=
  encodePending (dataPendingOp sid data (some seq) (some wseq))

/-- The batch operation of `send_empty_poll`. -/
def sendEmptyPoll (sid : String) (seq : Nat) : BatchOp :=
  encodePending (dataPendingOp sid [] (some seq) none)

/-! ## Node side -/

/-- A socket as its writer sees it: what has been written, and how many more bytes are taken
before writes fail (`none`: they never do). -/
structure Writer where
  written : List UInt8
  room : Option Nat
deriving DecidableEq

/-- `write_all`, with its success. -/
def Writer.writeAll (w : Writer) (bytes : List UInt8) : Writer × Bool :=
  match w.room with
  | none => ({ w with written := w.written ++ bytes }, true)
  | some n => (⟨w.written ++ bytes.take n, some (n - bytes.length)⟩, decide (bytes.length ≤ n))

theorem Writer.writeAll_of_room_none {w : Writer} (h : w.room = none) (bytes : List UInt8) :
    w.writeAll bytes = ({ w with written := w.written ++ bytes }, true) := by
  unfold writeAll
  rw [h]

/-- The part of `bytes` the socket takes. -/
def Writer.taken (w : Writer) (bytes : List UInt8) : List UInt8 :=
  match w.room with
  | none => bytes
  | some n => bytes.take n

theorem Writer.writeAll_written (w : Writer) (bytes : List UInt8) :
    (w.writeAll bytes).1.written = w.written ++ w.taken bytes := by
  unfold writeAll taken
  cases w.room <;> rfl

/-- A write that succeeds takes everything. -/
theorem Writer.taken_of_ok {w : Writer} {bytes : List UInt8} (h : (w.writeAll bytes).2 = true) :
    w.taken bytes = bytes := by
  unfold writeAll at h
  unfold taken
  cases hr : w.room with
  | none => rfl
  | some n =>
      simp only [hr, decide_eq_true_eq] at h
      exact List.take_of_length_le h

@[simp] theorem Writer.writeAll_nil_ok (w : Writer) : (w.writeAll []).2 = true := by
  unfold writeAll
  cases w.room <;> simp

theorem Writer.taken_prefix (w : Writer) (bytes : List UInt8) : w.taken bytes <+: bytes := by
  unfold taken
  cases w.room with
  | none => exact List.prefix_rfl
  | some n => exact List.take_prefix n bytes

/-- Two writes are one write of both. -/
theorem Writer.writeAll_append (w : Writer) (a b : List UInt8) :
    ((w.writeAll a).1.writeAll b).1 = (w.writeAll (a ++ b)).1 := by
  obtain ⟨written, room⟩ := w
  cases room with
  | none => simp [writeAll]
  | some n =>
      simp only [writeAll, Writer.mk.injEq, Option.some.injEq, List.length_append,
        List.take_append, List.append_assoc, true_and]
      omega

theorem Writer.writeAll_append_ok {w : Writer} {a : List UInt8} (h : (w.writeAll a).2 = true)
    (b : List UInt8) : (w.writeAll (a ++ b)).2 = ((w.writeAll a).1.writeAll b).2 := by
  obtain ⟨written, room⟩ := w
  cases room with
  | none => rfl
  | some n =>
      simp only [writeAll, decide_eq_true_eq] at h
      simp only [writeAll, List.length_append, decide_eq_decide]
      omega

theorem Writer.writeAll_failed {w : Writer} {a : List UInt8} (h : (w.writeAll a).2 = false)
    (b : List UInt8) : (w.writeAll (a ++ b)).2 = false := by
  obtain ⟨written, room⟩ := w
  cases room with
  | none => cases h
  | some n =>
      simp only [writeAll, decide_eq_false_iff_not] at h
      simp only [writeAll, List.length_append, decide_eq_false_iff_not]
      omega

@[simp] theorem Writer.writeAll_nil (w : Writer) : (w.writeAll []).1 = w := by
  obtain ⟨written, room⟩ := w
  cases room <;> simp [writeAll]

structure SessionInner where
  writer : Writer
  readBuf : List UInt8
  eof : Bool
  nextWriteSeq : Option Nat
  pendingWrites : BTreeMap (List UInt8)

/-- A new session whose upstream socket takes `room` bytes. -/
def SessionInner.new (room : Option Nat) : SessionInner := ⟨⟨[], room⟩, [], false, none, .empty⟩

def maxPendingWritesPerSession : Nat := 32
def maxPendingWriteBytesPerSession : Nat := 16 * 1024 * 1024

/-- What phase 1 makes of a `data` operation on a session: it goes on to the drain phase, or is
answered with an error, which for a full buffer comes with the end of the session. -/
inductive DataResult where
  | drain
  | badBase64
  | capExceeded
deriving DecidableEq

/-- `write_all` of a buffered chunk; its result is ignored. -/
def writeBuffered (w : Writer) (bytes : List UInt8) : Writer × Bool := ((w.writeAll bytes).1, true)

/-- Is there no room in `pending_writes` for `bytes`? -/
def pendingFull (pending : BTreeMap (List UInt8)) (bytes : List UInt8) : Bool :=
  decide (maxPendingWritesPerSession ≤ pending.len) ||
    decide (maxPendingWriteBytesPerSession
      < (pending.values.map List.length).sum + bytes.length)

/-- A chunk with a number. -/
def orderedWrite (inner : SessionInner) (wseq : Nat) (bytes : List UInt8) :
    SessionInner × DataResult :=
  let expected := inner.nextWriteSeq.getD 0
  let inner := { inner with nextWriteSeq := some expected }
  -- a stale chunk has been written before: the retry goes on to the drain phase
  if wseq < expected then (inner, .drain)
  else if wseq = expected then
    let writer := (inner.writer.writeAll bytes).1
    let r := InOrder.flush writeBuffered writer (expected + 1) inner.pendingWrites
    ({ inner with writer := r.state, nextWriteSeq := some r.next, pendingWrites := r.pending },
      .drain)
  else if pendingFull inner.pendingWrites bytes then (inner, .capExceeded)
  else ({ inner with pendingWrites := inner.pendingWrites.insert wseq bytes }, .drain)

/-- Phase 1 for a `data` operation of this session. -/
def dataOp (inner : SessionInner) (op : BatchOp) : SessionInner × DataResult :=
  match op.d with
  | none => (inner, .drain)
  | some [] => (inner, .drain)
  | some (c :: text) =>
      match Base64.decode (c :: text) with
      | none => (inner, .badBase64)
      | some [] => (inner, .drain)
      | some (b :: bytes) =>
          match op.wseq with
          -- a client that does not number its chunks: written as it comes
          | none => ({ inner with writer := (inner.writer.writeAll (b :: bytes)).1 }, .drain)
          | some wseq => orderedWrite inner wseq (b :: bytes)

/-- The node decodes what the client sent. -/
theorem dataOp_sendDataOp (inner : SessionInner) (sid : String) {data : List UInt8}
    (hdata : data ≠ []) (seq wseq : Nat) :
    dataOp inner (sendDataOp sid data seq wseq) = orderedWrite inner wseq data := by
  obtain ⟨b, bytes, rfl⟩ := List.exists_cons_of_ne_nil hdata
  obtain ⟨c, text, htext⟩ :=
    List.exists_cons_of_ne_nil (fun h => hdata (Base64.encode_eq_nil h))
  have hdec : Base64.decode (c :: text) = some (b :: bytes) := by
    rw [← htext, Base64.decode_encode]
  simp [dataOp, sendDataOp, encodePending, dataPendingOp, htext, hdec]

/-- Does `pending_writes` overflow with this operation? -/
def overflows (inner : SessionInner) (op : BatchOp) : Bool :=
  match op.d.bind Base64.decode, op.wseq with
  | some (b :: bytes), some wseq =>
      decide (inner.nextWriteSeq.getD 0 < wseq) && pendingFull inner.pendingWrites (b :: bytes)
  | _, _ => false

theorem orderedWrite_capExceeded (inner : SessionInner) (wseq : Nat) (bytes : List UInt8) :
    (orderedWrite inner wseq bytes).2 = .capExceeded ↔
      inner.nextWriteSeq.getD 0 < wseq ∧ pendingFull inner.pendingWrites bytes = true := by
  unfold orderedWrite
  dsimp only
  split_ifs with hlt heq hfull
  · exact ⟨nofun, fun h => absurd h.1 (by omega)⟩
  · exact ⟨nofun, fun h => absurd h.1 (by omega)⟩
  · exact ⟨fun _ => ⟨by omega, hfull⟩, fun _ => rfl⟩
  · exact ⟨nofun, fun h => absurd h.2 hfull⟩

theorem dataOp_capExceeded (inner : SessionInner) (op : BatchOp) :
    (dataOp inner op).2 = .capExceeded ↔ overflows inner op = true := by
  unfold dataOp overflows
  rcases op.d with _ | _ | ⟨c, text⟩
  · simp
  · simp [Base64.decode]
  · rcases hdec : Base64.decode (c :: text) with _ | _ | ⟨b, bytes⟩ <;>
      cases op.wseq <;> simp [hdec, orderedWrite_capExceeded]

/-! ## The ordering invariant -/

/-- The chunks `f j` with `j ∈ arrived` have been processed: those before the first gap are on
the wire in order, the rest waits. What is on the wire is only known if upstream writes do not
fail (`lossless`). -/
structure Ordered (lossless : Prop) (f : Nat → List UInt8) (arrived : Finset Nat)
    (inner : SessionInner) : Prop where
  gap : InOrder.Gap f arrived (inner.nextWriteSeq.getD 0) inner.pendingWrites
  open_at : inner.nextWriteSeq.getD 0 ∉ arrived
  written : lossless → inner.writer.room = none ∧
    inner.writer.written = (List.range (inner.nextWriteSeq.getD 0)).flatMap f

theorem Ordered.new {lossless : Prop} (f : Nat → List UInt8) {room : Option Nat}
    (hroom : lossless → room = none) : Ordered lossless f ∅ (SessionInner.new room) :=
  ⟨InOrder.Gap.empty f, Finset.notMem_empty _, fun hl => ⟨hroom hl, rfl⟩⟩

variable {lossless : Prop} {f : Nat → List UInt8} {arrived : Finset Nat} {inner : SessionInner}

/-- Writing the chunk whose turn it is. -/
theorem writeAll_ordered {w : Writer} {n : Nat} (hw : w.room = none)
    (hwritten : w.written = (List.range n).flatMap f) :
    (w.writeAll (f n)).1.room = none ∧
      (w.writeAll (f n)).1.written = (List.range (n + 1)).flatMap f := by
  rw [Writer.writeAll_of_room_none hw]
  refine ⟨hw, ?_⟩
  show w.written ++ f n = _
  rw [hwritten, List.range_succ, List.flatMap_append]
  simp

/-- The flush of the early chunks behind the expected one. -/
theorem flush_ordered {writer : Writer} {next : Nat} {pending : BTreeMap (List UInt8)}
    (hgap : InOrder.Gap f arrived next pending)
    (hw : lossless → writer.room = none ∧ writer.written = (List.range next).flatMap f) :
    let r := InOrder.flush writeBuffered writer next pending
    InOrder.Gap f arrived r.next r.pending ∧ r.next ∉ arrived ∧
      (lossless → r.state.room = none ∧ r.state.written = (List.range r.next).flatMap f) := by
  -- the flush keeps the gap relation and, chunk by chunk, what is on the wire
  have hstep : ∀ (w : Writer) (n : Nat) (m : BTreeMap (List UInt8)) (v : List UInt8),
      (InOrder.Gap f arrived n m ∧
        (lossless → w.room = none ∧ w.written = (List.range n).flatMap f)) →
      m.firstEntry = some (n, v) →
      InOrder.Gap f arrived (n + 1) m.popFirst ∧ (lossless →
        (writeBuffered w v).1.room = none ∧
        (writeBuffered w v).1.written = (List.range (n + 1)).flatMap f) := by
    rintro w n m v ⟨hg, hw⟩ hfirst
    refine ⟨hg.pop hfirst, fun hl => ?_⟩
    rw [hg.first_eq hfirst]
    exact writeAll_ordered (hw hl).1 (hw hl).2
  have htotal : ∀ (w : Writer) (v : List UInt8), (writeBuffered w v).2 = true := fun _ _ => rfl
  obtain ⟨⟨hgap, hw⟩, hstop⟩ := InOrder.flush_rule_total htotal hstep ⟨hgap, hw⟩
  exact ⟨hgap, hgap.next_notMem hstop, hw⟩

/-- **One numbered chunk**, in each of the three branches. -/
theorem orderedWrite_ordered (h : Ordered lossless f arrived inner) (k : Nat)
    (hcap : (orderedWrite inner k (f k)).2 ≠ .capExceeded) :
    Ordered lossless f (insert k arrived) (orderedWrite inner k (f k)).1 := by
  revert hcap
  unfold orderedWrite
  dsimp only
  split_ifs with hlt heq hfull
  · intro _
    -- stale: a number below the gap has arrived before
    rw [h.gap.stale hlt]
    exact ⟨h.gap, h.open_at, h.written⟩
  · intro _
    -- in turn: it closes the gap, and the flush runs to the next one
    have hins : insert k arrived = insert (inner.nextWriteSeq.getD 0) arrived := by rw [heq]
    have hchunk : f k = f (inner.nextWriteSeq.getD 0) := by rw [heq]
    rw [hins, hchunk]
    obtain ⟨hg, hopen, hw⟩ := flush_ordered (h.gap.take h.open_at)
      fun hl => writeAll_ordered (h.written hl).1 (h.written hl).2
    exact ⟨hg, hopen, hw⟩
  · exact fun hcap => absurd rfl hcap
  · intro _
    -- early: it waits behind the gap, which stays open
    have hk : inner.nextWriteSeq.getD 0 < k := by omega
    refine ⟨h.gap.keep hk, ?_, h.written⟩
    show inner.nextWriteSeq.getD 0 ∉ insert k arrived
    rw [Finset.mem_insert, not_or]
    exact ⟨by omega, h.open_at⟩

/-! ## Whole schedules -/

/-- Phase 1 over a sequence of `data` operations of the session; `none` as soon as one of them is
not passed on to the drain phase. -/
def processUploads : SessionInner → List BatchOp → Option SessionInner
  | inner, [] => some inner
  | inner, op :: ops =>
      match dataOp inner op with
      | (inner, .drain) => processUploads inner ops
      | _ => none

theorem processUploads_ordered (sid : String) (seqs : Nat → Nat) (hf : ∀ k, f k ≠ [])
    {sched : List Nat} {inner' : SessionInner} (h : Ordered lossless f arrived inner)
    (hrun : processUploads inner (sched.map fun k => sendDataOp sid (f k) (seqs k) k)
      = some inner') :
    Ordered lossless f (arrived ∪ sched.toFinset) inner' := by
  -- on the schedule; the set of arrived numbers and the session both move
  induction sched generalizing inner arrived with
  | nil =>
      cases hrun
      simpa using h
  | cons k sched ih =>
      rw [List.map_cons, processUploads, dataOp_sendDataOp inner sid (hf k)] at hrun
      have hstep := orderedWrite_ordered h k
      rcases ho : orderedWrite inner k (f k) with ⟨next, _ | _ | _⟩
      · rw [ho] at hrun hstep
        have hnext := ih (hstep nofun) hrun
        rwa [Finset.insert_union_comm, ← List.toFinset_cons] at hnext
      · rw [ho] at hrun
        cases hrun
      · rw [ho] at hrun
        cases hrun

theorem flatMap_range_getD (chunks : List (List UInt8)) (d : List UInt8) {m : Nat}
    (hm : m ≤ chunks.length) :
    (List.range m).flatMap (fun k => chunks.getD k d) = (chunks.take m).flatten := by
  induction m with
  | zero => rfl
  | succ m ih =>
      have hlt : m < chunks.length := hm
      rw [List.range_succ, List.flatMap_append, ih (by omega),
        List.take_succ_eq_append_getElem hlt, List.flatten_append]
      congr 1
      simp [hlt]

/-- **The uplink is in order.** The client sends the chunks with `send_data_op`, chunk `k` with
`wseq = k`; the node processes them along any schedule, with repetitions and omissions. While no
operation is refused and upstream writes succeed, the bytes on the wire are the chunks of the
longest run `0 .. m - 1` that has been processed, and `pending_writes` holds the processed chunks
behind it. -/
theorem uplink_in_order (sid : String) (chunks : List (List UInt8)) (seqs : Nat → Nat)
    (sched : List Nat) (inner : SessionInner) (hne : ∀ c ∈ chunks, c ≠ [])
    (hsched : ∀ k ∈ sched, k < chunks.length)
    (hrun : processUploads (SessionInner.new none)
      (sched.map fun k => sendDataOp sid (chunks.getD k []) (seqs k) k) = some inner) :
    ∃ m, (∀ j < m, j ∈ sched) ∧ m ∉ sched ∧ m ≤ chunks.length ∧
      inner.writer.written = (chunks.take m).flatten ∧
      ∀ j, inner.pendingWrites.get j
        = if j ∈ sched ∧ m < j then some (chunks.getD j []) else none := by
  -- numbers that are not in the schedule get a chunk of their own, so that no chunk is empty
  let f : Nat → List UInt8 := fun k => chunks.getD k [0]
  have hf : ∀ k, f k ≠ [] := by
    intro k
    show chunks.getD k [0] ≠ []
    by_cases hk : k < chunks.length
    · simpa [hk] using hne _ (List.getElem_mem hk)
    · simp [hk]
  have hin : ∀ k ∈ sched, chunks.getD k [] = f k := by
    intro k hk
    show _ = chunks.getD k [0]
    simp [hsched k hk]
  have hops : (sched.map fun k => sendDataOp sid (chunks.getD k []) (seqs k) k)
      = sched.map fun k => sendDataOp sid (f k) (seqs k) k :=
    List.map_congr_left fun k hk => by rw [hin k hk]
  rw [hops] at hrun
  have hord := processUploads_ordered sid seqs hf (Ordered.new f fun _ : True => rfl) hrun
  rw [Finset.empty_union] at hord
  have hbelow : ∀ j < inner.nextWriteSeq.getD 0, j ∈ sched :=
    fun j hj => List.mem_toFinset.mp (hord.gap.below j hj)
  have hlen : inner.nextWriteSeq.getD 0 ≤ chunks.length := by
    by_contra hlong
    exact absurd (hsched _ (hbelow chunks.length (by omega))) (lt_irrefl _)
  have hopen : inner.nextWriteSeq.getD 0 ∉ sched :=
    fun h => hord.open_at (List.mem_toFinset.mpr h)
  refine ⟨inner.nextWriteSeq.getD 0, hbelow, hopen, hlen, ?_, fun j => ?_⟩
  · rw [(hord.written trivial).2, flatMap_range_getD chunks [0] hlen]
  · rw [hord.gap.get j]
    by_cases hj : j ∈ sched
    · rw [hin j hj]
      have : inner.nextWriteSeq.getD 0 ≠ j := fun h => hopen (h ▸ hj)
      simp only [List.mem_toFinset, hj, true_and]
      split_ifs <;> first | rfl | omega
    · simp [hj]

/-- Three chunks processed as 2, 0, 0: the first is on the wire, the last waits. -/
theorem uplink_in_order_gap :
    ∃ inner, processUploads (SessionInner.new none)
        ([2, 0, 0].map fun k => sendDataOp "s" (([[1], [2, 3], [4]] : List (List UInt8)).getD k []) k k)
          = some inner ∧
      ∃ m, (∀ j < m, j ∈ [2, 0, 0]) ∧ m ∉ [2, 0, 0] ∧ m ≤ 3 ∧
        inner.writer.written = (([[1], [2, 3], [4]] : List (List UInt8)).take m).flatten ∧
        ∀ j, inner.pendingWrites.get j = if j ∈ [2, 0, 0] ∧ m < j
          then some (([[1], [2, 3], [4]] : List (List UInt8)).getD j []) else none := by
  have hsome : (processUploads (SessionInner.new none)
      ([2, 0, 0].map fun k =>
        sendDataOp "s" (([[1], [2, 3], [4]] : List (List UInt8)).getD k []) k k)).isSome := by
    decide
  obtain ⟨inner, hrun⟩ := Option.isSome_iff_exists.mp hsome
  exact ⟨inner, hrun, uplink_in_order "s" [[1], [2, 3], [4]] id [2, 0, 0] inner (by decide)
    (by decide) hrun⟩

end Rahgozar.Tunnel
