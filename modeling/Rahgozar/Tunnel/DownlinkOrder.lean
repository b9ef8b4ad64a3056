import Rahgozar.Tunnel.System

set_option autoImplicit false

/-! # Order of the downlink

The client writes the answers in the order of their `seq`; the node hands out the bytes of
`read_buf` in the order in which the drain loops of the operations come to them. The two orders
agree in every run in which an operation takes bytes, or reports the end of the stream, only when
all operations sent before it have their answer (`DrainsInTurn`).
-/

namespace Rahgozar.Tunnel

open LoopState (payload)

namespace OpState

/-- The bytes an operation has taken out of `read_buf`. -/
def taken : OpState → List UInt8
  | draining _ data _ => data
  | drained resp => payload resp
  | answered resp => payload resp
  | delivered resp => payload resp
  | _ => []

/-- The answer is fixed. -/
def fixed : OpState → Bool
  | drained _ => true
  | answered _ => true
  | delivered _ => true
  | _ => false

/-- The answer reports the end of the stream. -/
def eof : OpState → Bool
  | drained resp => resp.eof.getD false
  | answered resp => resp.eof.getD false
  | delivered resp => resp.eof.getD false
  | _ => false

end OpState

/-! ## Lists of operations -/

/-- What the operations have taken, in the order of their numbers. -/
def takenBy (ops : List OpState) : List UInt8 := ops.flatMap OpState.taken

theorem takenBy_append (a b : List OpState) : takenBy (a ++ b) = takenBy a ++ takenBy b :=
  List.flatMap_append

theorem takenBy_eq_nil {ops : List OpState} (h : ∀ o ∈ ops, o.taken = []) : takenBy ops = [] :=
  List.flatMap_eq_nil_iff.mpr h

/-- The list around position `q`. -/
theorem split_at {ops : List OpState} {q : Nat} {o : OpState} (h : ops[q]? = some o) :
    ops = ops.take q ++ o :: ops.drop (q + 1) := by
  obtain ⟨hlt, rfl⟩ := List.getElem?_eq_some_iff.mp h
  rw [List.getElem_cons_drop, List.take_append_drop]

theorem set_eq_split {ops : List OpState} {q : Nat} {o : OpState} (h : ops[q]? = some o)
    (o' : OpState) : ops.set q o' = ops.take q ++ o' :: ops.drop (q + 1) :=
  List.set_eq_take_append_cons_drop .. |>.trans (if_pos (List.getElem?_eq_some_iff.mp h).1)

theorem takenBy_set_same {ops : List OpState} {q : Nat} {o o' : OpState} (h : ops[q]? = some o)
    (ht : o'.taken = o.taken) : takenBy (ops.set q o') = takenBy ops := by
  rw [set_eq_split h]
  conv_rhs => rw [split_at h]
  unfold takenBy
  simp [ht]

/-- When nothing behind `q` has taken anything, what `q` takes is appended. -/
theorem takenBy_set_more {ops : List OpState} {q : Nat} {o o' : OpState} (h : ops[q]? = some o)
    {new : List UInt8} (ht : o'.taken = o.taken ++ new)
    (hlater : ∀ (j : Nat) (b : OpState), q < j → ops[j]? = some b → b.taken = []) :
    takenBy (ops.set q o') = takenBy ops ++ new := by
  have hnil : takenBy (ops.drop (q + 1)) = [] := by
    refine takenBy_eq_nil fun b hb => ?_
    obtain ⟨j, hj⟩ := List.mem_iff_getElem?.mp hb
    rw [List.getElem?_drop] at hj
    exact hlater (q + 1 + j) b (by omega) hj
  rw [set_eq_split h]
  conv_rhs => rw [split_at h]
  unfold takenBy at hnil ⊢
  simp [ht, hnil]

theorem takenBy_take_prefix (ops : List OpState) (n : Nat) :
    takenBy (ops.take n) <+: takenBy ops := by
  conv_rhs => rw [← List.take_append_drop n ops, takenBy_append]
  exact List.prefix_append ..

namespace System

/-! ## The node's side -/

/-- Some operation below `i` reports the end of the stream. -/
def EofBelow (ops : List OpState) (i : Nat) : Prop :=
  ∃ (k : Nat) (c : OpState), k < i ∧ ops[k]? = some c ∧ c.eof = true

/-- `read_buf` is what is left of the stream behind the bytes the operations have taken, and they
have taken them in the order of their numbers: behind an operation without an answer none has
taken bytes, and none has reported an end of stream that was not reported before it. -/
structure DrainInv (s : System) : Prop where
  bytes : s.appended = takenBy s.ops ++ s.inner.readBuf
  turn : ∀ (i j : Nat) (a b : OpState), i < j → s.ops[i]? = some a → s.ops[j]? = some b →
    a.fixed = false → b.taken = [] ∧ (b.eof = true → EofBelow s.ops i)
  ended : ∀ (i : Nat) (a : OpState), s.ops[i]? = some a → a.eof = true →
    s.inner.eof = true ∧ s.inner.readBuf = [] ∧
      ∀ (j : Nat) (b : OpState), i < j → s.ops[j]? = some b → b.taken = []
  loaded : ∀ (i remaining : Nat) (data : List UInt8),
    s.ops[i]? = some (.draining remaining data (some true)) → s.inner.eof = true
  absent : s.present = false → ∃ i, EofBelow s.ops i

/-- An operation finds bytes in `read_buf`, or the end of the stream, only when all operations
before it have their answer, and no upload overflows the node's buffer. -/
def drainsInTurn (s : System) : Event → Bool
  | .take q _ =>
      match s.ops[q]? with
      | some (.draining _ _ (some rawEof)) =>
          -- a turn that finds nothing only ends the loop, in whatever order
          (s.inner.readBuf.isEmpty && !rawEof) || (s.ops.take q).all OpState.fixed
      | _ => true
  | .arrive q =>
      match s.ops[q]?, s.client.sent[q]? with
      -- an absent session answers `eof` whatever the upload
      | some .sent, some op => !s.present || !overflows s.inner op
      | _, _ => true
  | _ => true

abbrev DrainsInTurn (s : System) (e : Event) : Prop := drainsInTurn s e = true

variable {s t : System} {q : Nat} {o o' : OpState}

theorem DrainsInTurn.take {late : Bool} (h : DrainsInTurn s (.take q late)) {remaining : Nat}
    {data : List UInt8} {rawEof : Bool}
    (hq : s.ops[q]? = some (.draining remaining data (some rawEof)))
    (hfinds : s.inner.readBuf ≠ [] ∨ rawEof = true) (j : Nat) (a : OpState) (hj : j < q)
    (ha : s.ops[j]? = some a) : a.fixed = true := by
  have hmem : a ∈ s.ops.take q := by
    rw [List.mem_iff_getElem?]
    exact ⟨j, by rw [List.getElem?_take_of_lt hj, ha]⟩
  simp only [DrainsInTurn, drainsInTurn, hq, Bool.or_eq_true, Bool.and_eq_true,
    List.isEmpty_iff, Bool.not_eq_true', List.all_eq_true] at h
  rcases h with ⟨hnil, hopen⟩ | hall
  · rcases hfinds with hne | heof
    · exact absurd hnil hne
    · rw [hopen] at heof
      cases heof
  · exact hall a hmem

theorem DrainsInTurn.arrive (h : DrainsInTurn s (.arrive q)) {op : BatchOp}
    (hq : s.ops[q]? = some .sent) (hop : s.client.sent[q]? = some op) (hp : s.present = true) :
    overflows s.inner op = false := by
  simpa [DrainsInTurn, drainsInTurn, hq, hop, hp] using h

theorem eof_of_not_fixed (h : o.fixed = false) : o.eof = false := by
  cases o <;> first | rfl | cases h

/-- An end of stream stays reported when an operation moves on. -/
theorem EofBelow.set {ops : List OpState} {i : Nat} (h : EofBelow ops i) (hq : ops[q]? = some o)
    (heof : o.eof = true → o'.eof = true) : EofBelow (ops.set q o') i := by
  obtain ⟨k, c, hk, hc, hce⟩ := h
  by_cases hkq : k = q
  · subst hkq
    rw [hq] at hc
    cases hc
    exact ⟨k, o', hk, List.getElem?_set_self (List.getElem?_eq_some_iff.mp hq).1, heof hce⟩
  · exact ⟨k, c, hk, by rw [List.getElem?_set_ne (Ne.symm hkq), hc], hce⟩

/-- An operation changes its state without taking bytes. -/
theorem DrainInv.move (h : DrainInv s) (inner : SessionInner) (present : Bool) (o' : OpState)
    (hq : s.ops[q]? = some o) (hread : inner.readBuf = s.inner.readBuf)
    (hieof : inner.eof = s.inner.eof) (htaken : o'.taken = o.taken) (heof : o'.eof = o.eof)
    (hfixed : o.fixed = true → o'.fixed = true)
    (hraw : ∀ remaining data, o' = .draining remaining data (some true) → s.inner.eof = true)
    (hpresent : present = false → s.present = false ∨ o'.eof = true) :
    DrainInv { s with inner := inner, present := present, ops := s.ops.set q o' } := by
  have hlt : q < s.ops.length := (List.getElem?_eq_some_iff.mp hq).1
  have hset : ∀ {i}, EofBelow s.ops i → EofBelow (s.ops.set q o') i :=
    fun hb => hb.set hq fun he => heof.trans he
  refine ⟨?_, ?_, ?_, ?_, ?_⟩
  · show s.appended = takenBy (s.ops.set q o') ++ inner.readBuf
    rw [takenBy_set_same hq htaken, hread]
    exact h.bytes
  · intro i j a b hij ha hb hfa
    -- `q` is the earlier one, the later one, or neither
    rcases getElem?_set_cases ha with ⟨rfl, rfl⟩ | ⟨-, ha'⟩ <;>
      rcases getElem?_set_cases hb with ⟨rfl, rfl⟩ | ⟨-, hb'⟩
    · omega
    · have hfo : o.fixed = false := by
        by_contra hf
        rw [hfixed (by simpa using hf)] at hfa
        cases hfa
      exact (h.turn i j o b hij hq hb' hfo).imp_right fun hk he => hset (hk he)
    · rw [htaken, heof]
      exact (h.turn i j a o hij ha' hq hfa).imp_right fun hk he => hset (hk he)
    · exact (h.turn i j a b hij ha' hb' hfa).imp_right fun hk he => hset (hk he)
  · intro i a ha hea
    show inner.eof = true ∧ inner.readBuf = [] ∧ _
    rw [hread, hieof]
    have hold : s.inner.eof = true ∧ s.inner.readBuf = [] ∧
        ∀ (j : Nat) (b : OpState), i < j → s.ops[j]? = some b → b.taken = [] := by
      rcases getElem?_set_cases ha with ⟨rfl, rfl⟩ | ⟨-, ha'⟩
      · exact h.ended i o hq (heof ▸ hea)
      · exact h.ended i a ha' hea
    refine ⟨hold.1, hold.2.1, fun j b hij hb => ?_⟩
    rcases getElem?_set_cases hb with ⟨rfl, rfl⟩ | ⟨-, hb'⟩
    · rw [htaken]
      exact hold.2.2 j o hij hq
    · exact hold.2.2 j b hij hb'
  · intro i remaining data hi
    show inner.eof = true
    rw [hieof]
    rcases getElem?_set_cases hi with ⟨rfl, ho'⟩ | ⟨-, hi'⟩
    · exact hraw remaining data ho'.symm
    · exact h.loaded i remaining data hi'
  · intro hp
    rcases hpresent hp with hp | he
    · exact (h.absent hp).imp fun _ hb => hset hb
    · -- the session goes with the end of stream that `q` reports
      exact ⟨q + 1, q, o', Nat.lt_succ_self q, List.getElem?_set_self hlt, he⟩

/-- The first operation without an answer takes bytes or reports the end of the stream. -/
theorem DrainInv.drain (h : DrainInv s) (hq : s.ops[q]? = some o) (ho : o.fixed = false)
    (hlower : ∀ (j : Nat) (a : OpState), j < q → s.ops[j]? = some a → a.fixed = true)
    {new rest : List UInt8} (hbuf : s.inner.readBuf = new ++ rest)
    (htaken : o'.taken = o.taken ++ new) (heof : o'.eof = true → s.inner.eof = true ∧ rest = [])
    (hraw : ∀ remaining data, o' ≠ .draining remaining data (some true)) :
    DrainInv { s with inner := { s.inner with readBuf := rest }, ops := s.ops.set q o' } := by
  -- `q` has no answer, so by the turn rule nothing behind it has taken bytes
  have hlater : ∀ (j : Nat) (b : OpState), q < j → s.ops[j]? = some b → b.taken = [] :=
    fun j b hj hb => (h.turn q j o b hj hq hb ho).1
  have hset : ∀ {i}, EofBelow s.ops i → EofBelow (s.ops.set q o') i :=
    fun hb => hb.set hq fun he => by rw [eof_of_not_fixed ho] at he; cases he
  refine ⟨?_, ?_, ?_, ?_, fun hp => (h.absent hp).imp fun _ hb => hset hb⟩
  · show s.appended = takenBy (s.ops.set q o') ++ rest
    rw [takenBy_set_more hq htaken hlater, List.append_assoc, ← hbuf]
    exact h.bytes
  · intro i j a b hij ha hb hfa
    rcases getElem?_set_cases ha with ⟨rfl, rfl⟩ | ⟨-, ha'⟩ <;>
      rcases getElem?_set_cases hb with ⟨rfl, rfl⟩ | ⟨-, hb'⟩
    · omega
    · exact (h.turn i j o b hij hq hb' ho).imp_right fun hk he => hset (hk he)
    · -- before `q` all have their answer
      rw [hlower i a hij ha'] at hfa
      cases hfa
    · exact (h.turn i j a b hij ha' hb' hfa).imp_right fun hk he => hset (hk he)
  · intro i a ha hea
    show s.inner.eof = true ∧ rest = [] ∧ _
    rcases getElem?_set_cases ha with ⟨rfl, rfl⟩ | ⟨-, ha'⟩
    · refine ⟨(heof hea).1, (heof hea).2, fun j b hij hb => ?_⟩
      rcases getElem?_set_cases hb with ⟨rfl, rfl⟩ | ⟨-, hb'⟩
      · omega
      · exact hlater j b hij hb'
    · -- nothing is left to take behind an end of stream
      obtain ⟨hend, hnil, hpast⟩ := h.ended i a ha' hea
      rw [hbuf] at hnil
      obtain ⟨hnew, hrest⟩ := List.append_eq_nil_iff.mp hnil
      refine ⟨hend, hrest, fun j b hij hb => ?_⟩
      rcases getElem?_set_cases hb with ⟨rfl, rfl⟩ | ⟨-, hb'⟩
      · rw [htaken, hnew, List.append_nil]
        exact hpast j o hij hq
      · exact hpast j b hij hb'
  · intro i remaining data hi
    rcases getElem?_set_cases hi with ⟨rfl, ho'⟩ | ⟨-, hi'⟩
    · exact absurd ho'.symm (hraw remaining data)
    · exact h.loaded i remaining data hi'

/-- An operation that finds the session gone reports the end of the stream again. -/
theorem DrainInv.gone (h : DrainInv s) (hq : s.ops[q]? = some .sent) (hp : s.present = false)
    {resp : TunnelResponse} (hpay : payload resp = []) :
    DrainInv { s with ops := s.ops.set q (.drained resp) } := by
  obtain ⟨-, e, c, -, hc, hce⟩ := h.absent hp
  obtain ⟨hend, hnil, -⟩ := h.ended e c hc hce
  have hset : ∀ {i}, EofBelow s.ops i → EofBelow (s.ops.set q (.drained resp)) i :=
    fun hb => hb.set hq nofun
  refine ⟨?_, ?_, ?_, ?_, fun _ => (h.absent hp).imp fun _ hb => hset hb⟩
  · show s.appended = takenBy (s.ops.set q (.drained resp)) ++ s.inner.readBuf
    have htaken : (OpState.drained resp).taken = OpState.sent.taken := hpay
    rw [takenBy_set_same hq htaken]
    exact h.bytes
  · intro i j a b hij ha hb hfa
    rcases getElem?_set_cases ha with ⟨rfl, rfl⟩ | ⟨-, ha'⟩
    · cases hfa
    rcases getElem?_set_cases hb with ⟨rfl, rfl⟩ | ⟨-, hb'⟩
    · refine ⟨hpay, fun _ => hset ?_⟩
      -- the session went with an end of stream; if that is above `i`, one is below
      rcases Nat.lt_trichotomy e i with hei | rfl | hie
      · exact ⟨e, c, hei, hc, hce⟩
      · rw [ha'] at hc
        cases hc
        rw [eof_of_not_fixed hfa] at hce
        cases hce
      · exact (h.turn i e a c hie ha' hc hfa).2 hce
    · exact (h.turn i j a b hij ha' hb' hfa).imp_right fun hk he => hset (hk he)
  · intro i a ha hea
    show s.inner.eof = true ∧ s.inner.readBuf = [] ∧ _
    refine ⟨hend, hnil, fun j b hij hb => ?_⟩
    rcases getElem?_set_cases hb with ⟨rfl, rfl⟩ | ⟨-, hb'⟩
    · exact hpay
    · rcases getElem?_set_cases ha with ⟨rfl, rfl⟩ | ⟨-, ha'⟩
      · exact (h.turn i j .sent b hij hq hb' rfl).1
      · exact (h.ended i a ha' hea).2.2 j b hij hb'
  · intro i remaining data hi
    rcases getElem?_set_cases hi with ⟨rfl, ho'⟩ | ⟨-, hi'⟩
    · cases ho'
    · exact h.loaded i remaining data hi'

/-- New operations are on their way. -/
theorem DrainInv.noteSent (h : DrainInv s) (client : LoopState) :
    DrainInv { s with client := client, ops := noteSent s.ops client } := by
  unfold System.noteSent
  -- how many were sent does not matter: they have taken nothing and stand behind all others
  generalize client.sent.length - s.ops.length = k
  have hget : ∀ {i : Nat} {a : OpState}, (s.ops ++ List.replicate k .sent)[i]? = some a →
      s.ops[i]? = some a ∨ a = .sent := by
    intro i a ha
    rw [List.getElem?_append] at ha
    split_ifs at ha
    · exact .inl ha
    · exact .inr (List.eq_of_mem_replicate (List.mem_of_getElem? ha))
  have hold : ∀ {i : Nat} {a : OpState}, s.ops[i]? = some a →
      (s.ops ++ List.replicate k .sent)[i]? = some a := fun ha => by
    rw [List.getElem?_append_left (List.getElem?_eq_some_iff.mp ha).1, ha]
  have hbelow : ∀ {i}, EofBelow s.ops i → EofBelow (s.ops ++ List.replicate k .sent) i :=
    fun ⟨j, c, hj, hc, hce⟩ => ⟨j, c, hj, hold hc, hce⟩
  refine ⟨?_, ?_, ?_, ?_, fun hp => (h.absent hp).imp fun _ hb => hbelow hb⟩
  · show s.appended = takenBy (s.ops ++ List.replicate k .sent) ++ s.inner.readBuf
    have hnil : takenBy (List.replicate k .sent) = [] :=
      takenBy_eq_nil fun o ho => by rw [List.eq_of_mem_replicate ho]; rfl
    rw [takenBy_append, hnil, List.append_nil]
    exact h.bytes
  · intro i j a b hij ha hb hfa
    rcases hget hb with hb' | rfl
    · have ha' : s.ops[i]? = some a := by
        have hlt := (List.getElem?_eq_some_iff.mp hb').1
        rwa [List.getElem?_append_left (by omega)] at ha
      exact (h.turn i j a b hij ha' hb' hfa).imp_right fun hk he => hbelow (hk he)
    · exact ⟨rfl, nofun⟩
  · intro i a ha hea
    rcases hget ha with ha' | rfl
    · obtain ⟨hend, hnil, hpast⟩ := h.ended i a ha' hea
      refine ⟨hend, hnil, fun j b hij hb => ?_⟩
      rcases hget hb with hb' | rfl
      · exact hpast j b hij hb'
      · rfl
    · cases hea
  · intro i remaining data hi
    rcases hget hi with hi' | hi'
    · exact h.loaded i remaining data hi'
    · cases hi'

/-! ## One step of the node -/

theorem payload_tcpDrainResponse (sid : String) (data : List UInt8) (eof : Bool)
    (seq : Option Nat) : payload (tcpDrainResponse sid data eof seq) = data := by
  unfold payload tcpDrainResponse
  cases data with
  | nil => rfl
  | cons b bytes => simp [Base64.decode_encode]

theorem drainNow_split (readBuf : List UInt8) (rawEof : Bool) (maxBytes : Nat) :
    readBuf = (drainNow readBuf rawEof maxBytes).1 ++ (drainNow readBuf rawEof maxBytes).2.2 := by
  unfold drainNow
  dsimp only
  split_ifs
  · exact (List.append_nil _).symm
  · exact (List.take_append_drop ..).symm

/-- The end of the stream is reported with an empty buffer only. -/
theorem drainNow_eof {readBuf : List UInt8} {rawEof : Bool} {maxBytes : Nat}
    (h : (drainNow readBuf rawEof maxBytes).2.1 = true) :
    rawEof = true ∧ (drainNow readBuf rawEof maxBytes).2.2 = [] := by
  unfold drainNow at h ⊢
  dsimp only at h ⊢
  split_ifs at h ⊢
  exact ⟨h, rfl⟩

/-- Phase 1 leaves the read side of the session alone. -/
theorem dataOp_readSide (inner : SessionInner) (op : BatchOp) :
    (dataOp inner op).1.readBuf = inner.readBuf ∧ (dataOp inner op).1.eof = inner.eof := by
  unfold dataOp
  split
  · exact ⟨rfl, rfl⟩
  · exact ⟨rfl, rfl⟩
  · split
    · exact ⟨rfl, rfl⟩
    · exact ⟨rfl, rfl⟩
    · split
      · exact ⟨rfl, rfl⟩
      · unfold orderedWrite
        dsimp only
        split_ifs <;> exact ⟨rfl, rfl⟩

theorem arrive_drainInv (h : DrainInv s) (hC : DrainsInTurn s (.arrive q))
    (hs : s.arrive q = some t) : DrainInv t := by
  unfold arrive at hs
  split at hs
  case h_2 => cases hs
  case h_1 op hq hop =>
    split_ifs at hs with hp
    · obtain ⟨hread, hieof⟩ := dataOp_readSide s.inner op
      -- a session that is closed by the cap would go without an end of stream
      have hcap : (dataOp s.inner op).2 ≠ .capExceeded := by
        rw [Ne, dataOp_capExceeded, hC.arrive hq hop hp]
        exact nofun
      rcases hd : dataOp s.inner op with ⟨inner, _ | _ | _⟩ <;> rw [hd] at hs hread hieof hcap
      · cases hs
        exact h.move _ s.present _ hq hread hieof rfl rfl nofun nofun fun hp => .inl hp
      · cases hs
        exact h.move _ s.present _ hq hread hieof rfl rfl nofun nofun fun hp => .inl hp
      · exact absurd rfl hcap
    · cases hs
      exact h.gone hq (by simpa using hp) rfl

theorem startDrain_drainInv {remaining : Nat} (h : DrainInv s)
    (hs : s.startDrain q remaining = some t) : DrainInv t := by
  unfold startDrain at hs
  split at hs
  case h_2 => cases hs
  case h_1 hq =>
    split_ifs at hs
    · cases hs
      exact h.move s.inner s.present _ hq rfl rfl rfl rfl nofun nofun
        fun hp => .inl hp
    · cases hs
      exact h.move s.inner s.present _ hq rfl rfl rfl rfl nofun nofun
        fun hp => .inl hp

theorem loadEof_drainInv (h : DrainInv s) (hs : s.loadEof q = some t) : DrainInv t := by
  unfold loadEof at hs
  split at hs
  case h_2 => cases hs
  case h_1 remaining data hq =>
    cases hs
    refine h.move s.inner s.present _ hq rfl rfl rfl rfl nofun
      (fun r d ho => ?_) fun hp => .inl hp
    injection ho with _ _ hraw
    exact Option.some.inj hraw

theorem take_drainInv {late : Bool} (h : DrainInv s) (hC : DrainsInTurn s (.take q late))
    (hs : s.take q late = some t) : DrainInv t := by
  unfold take at hs
  split at hs
  case h_2 => cases hs
  case h_1 remaining data rawEof hq =>
    dsimp only at hs
    have hsplit := drainNow_split s.inner.readBuf rawEof (remaining - data.length)
    have heof := @drainNow_eof s.inner.readBuf rawEof (remaining - data.length)
    generalize drainNow s.inner.readBuf rawEof (remaining - data.length) = d at hs hsplit heof
    obtain ⟨new, eof, rest⟩ := d
    cases hs
    dsimp only at hsplit heof ⊢
    -- the tests that end the loop; what is taken does not depend on which of them holds
    generalize hstop : (new.isEmpty || eof || decide (tcpDrainMaxBytes ≤ new.length) ||
      decide (remaining ≤ (data ++ new).length) || late) = stop
    by_cases hturn : s.inner.readBuf ≠ [] ∨ rawEof = true
    · refine h.drain hq rfl (hC.take hq hturn) hsplit ?_ ?_ ?_
      · cases stop with
        | true => exact payload_tcpDrainResponse ..
        | false => rfl
      · cases stop with
        | true =>
            intro he
            obtain ⟨hraw, hrest⟩ := heof he
            exact ⟨h.loaded q remaining data (hraw ▸ hq), hrest⟩
        | false => exact nofun
      · cases stop <;> exact nofun
    · -- an empty buffer of an open stream: the loop stops without data
      obtain ⟨hnil, hopen⟩ := not_or.mp hturn
      rw [not_not] at hnil
      obtain ⟨rfl, rfl⟩ := List.append_eq_nil_iff.mp (hsplit.symm.trans hnil)
      have heof' : eof = false := by
        by_contra he
        exact hopen (heof (by simpa using he)).1
      subst heof'
      have htrue : stop = true := by rw [← hstop]; rfl
      rw [htrue, if_pos rfl, List.append_nil]
      exact h.move _ s.present _ hq hnil.symm rfl (payload_tcpDrainResponse ..) rfl nofun
        nofun fun hp => .inl hp

theorem respond_drainInv (h : DrainInv s) (hs : s.respond q = some t) : DrainInv t := by
  unfold respond at hs
  split at hs
  case h_2 => cases hs
  case h_1 resp hq =>
    cases hs
    refine h.move s.inner _ _ hq rfl rfl rfl rfl (fun _ => rfl) nofun fun hp => ?_
    rcases (Bool.and_eq_false_iff.mp hp) with hp | he
    · exact .inl hp
    · exact .inr (by simpa [OpState.eof] using he)

end System

/-! ## The client's side

The loop alone: the responses `f j` with `j ∈ arrived` have reached it. -/

namespace LoopState

variable {f : Nat → TunnelResponse} {arrived : Finset Nat} {s t : LoopState}

/-- The bytes of the first `n` responses. -/
def payloads (f : Nat → TunnelResponse) (n : Nat) : List UInt8 :=
  (List.range n).flatMap fun j => payload (f j)

theorem payloads_succ (f : Nat → TunnelResponse) (n : Nat) :
    payloads f (n + 1) = payloads f n ++ payload (f n) := by
  unfold payloads
  rw [List.range_succ, List.flatMap_append]
  simp

/-- One of the first `n` responses reports the end of the stream. -/
def EofAmong (f : Nat → TunnelResponse) (n : Nat) : Prop := ∃ k < n, (f k).eof.getD false = true

/-- The loop has written the first `n` responses. -/
structure Written (f : Nat → TunnelResponse) (s : LoopState) (n : Nat) : Prop where
  bytes : s.writer.written = payloads f n
  eof : s.eofSeen = true → EofAmong f n

/-- Between two events it has written all responses before the first gap. -/
structure WritesInOrder (f : Nat → TunnelResponse) (arrived : Finset Nat) (s : LoopState) :
    Prop where
  gap : InOrder.Gap f arrived s.nextWriteSeq s.pendingWrites
  open_at : s.nextWriteSeq ∉ arrived
  written : Written f s s.nextWriteSeq

/-- What is on the local socket are responses in order, and all up to an end of stream when the
loop has returned `RemoteEof`. -/
def SocketInOrder (f : Nat → TunnelResponse) (arrived : Finset Nat) (s : LoopState) : Prop :=
  ∃ n, (∀ j < n, j ∈ arrived) ∧ s.writer.written <+: payloads f n ∧
    ∀ b, s.phase = .ended (some (.remoteEof b)) →
      s.writer.written = payloads f n ∧ EofAmong f n

/-- The loop is in order in whatever state it is. -/
def LoopInv (f : Nat → TunnelResponse) (arrived : Finset Nat) (s : LoopState) : Prop :=
  ((∀ r, s.phase ≠ .ended r) → WritesInOrder f arrived s) ∧ SocketInOrder f arrived s

/-- If a loop that has written `n` responses has ended, it ended by `finish`. -/
theorem Written.socketInOrder {n : Nat} (h : Written f s n) (hbelow : ∀ j < n, j ∈ arrived)
    (hend : s.EndsRight) : SocketInOrder f arrived s := by
  refine ⟨n, hbelow, by rw [h.bytes], fun b hb => ⟨h.bytes, h.eof ?_⟩⟩
  have hr := Option.some.inj (hend _ hb)
  split_ifs at hr with heof
  exact heof

theorem Written.frame {n : Nat} (h : Written f s n) (hw : t.writer = s.writer)
    (he : t.eofSeen = s.eofSeen) : Written f t n :=
  ⟨hw ▸ h.bytes, fun ht => h.eof (he ▸ ht)⟩

/-- The response whose turn it is has been written. -/
theorem Written.deliver {n : Nat} (h : Written f s n) (hok : (deliver s (f n)).2 = true) :
    Written f (deliver s (f n)).1 (n + 1) := by
  rcases deliver_cases s (f n) with ⟨-, hwr, hd⟩ | ⟨hno, -⟩ | ⟨hno, -⟩
  · obtain ⟨hw, -, -, -, -, he⟩ := Downlink.mk.inj hd
    refine ⟨?_, fun heof => ?_⟩
    · rw [hw, Writer.writeAll_written, Writer.taken_of_ok hwr, h.bytes, payloads_succ]
    · replace he : (LoopState.deliver s (f n)).1.eofSeen
        = (s.eofSeen || (f n).eof.getD false) := he
      rw [he, Bool.or_eq_true] at heof
      rcases heof with hold | hnew
      · obtain ⟨k, hk, hke⟩ := h.eof hold
        exact ⟨k, by omega, hke⟩
      · exact ⟨n, Nat.lt_succ_self n, hnew⟩
  · rw [hok] at hno
    cases hno
  · rw [hok] at hno
    cases hno

/-- A response that makes the loop end leaves a prefix of the responses on the socket. -/
theorem Written.deliver_left {n : Nat} (h : Written f s n) (hbelow : ∀ j < n + 1, j ∈ arrived)
    (hno : (LoopState.deliver s (f n)).2 = false) (next : Nat)
    (pending : BTreeMap TunnelResponse) :
    SocketInOrder f arrived
      { (LoopState.deliver s (f n)).1 with nextWriteSeq := next, pendingWrites := pending } := by
  rcases deliver_cases s (f n) with ⟨hok, -⟩ | ⟨-, -, hf⟩ | ⟨-, hph, hd⟩
  · rw [hno] at hok
    cases hok
  · rw [hf]
    have hw : Written f { s.finish with nextWriteSeq := next, pendingWrites := pending } n :=
      h.frame rfl rfl
    exact hw.socketInOrder (fun j hj => hbelow j (by omega)) (finish_endsRight s)
  · -- the write failed: the socket took a part of the response
    obtain ⟨hw, -⟩ := Downlink.mk.inj hd
    refine ⟨n + 1, hbelow, ?_, fun b hb => ?_⟩
    · show (LoopState.deliver s (f n)).1.writer.written <+: _
      rw [hw, Writer.writeAll_written, payloads_succ, h.bytes]
      exact List.prefix_append_right_inj .. |>.mpr (Writer.taken_prefix ..)
    · replace hb : (LoopState.deliver s (f n)).1.phase = _ := hb
      rw [hph] at hb
      cases hb

/-- `deliver` leaves the counter and the buffer to its caller. -/
theorem deliver_counters (s : LoopState) (resp : TunnelResponse) :
    (deliver s resp).1.nextWriteSeq = s.nextWriteSeq ∧
      (deliver s resp).1.pendingWrites = s.pendingWrites := by
  unfold deliver
  dsimp only
  split <;> exact ⟨rfl, rfl⟩

theorem with_counters {n : Nat} {p : BTreeMap TunnelResponse} (hn : s.nextWriteSeq = n)
    (hp : s.pendingWrites = p) : s = { s with nextWriteSeq := n, pendingWrites := p } := by
  subst hn hp
  rfl

theorem deliverGrace_counters (u : LoopState) (v : TunnelResponse) :
    (deliverGrace u v).1.nextWriteSeq = u.nextWriteSeq ∧
      (deliverGrace u v).1.pendingWrites = u.pendingWrites :=
  ⟨rfl, rfl⟩

/-- **The reorder buffer.** What `consume` keeps up to the first gap, `accept` keeps up to the
new first gap, unless `consume` makes the loop end at the response `f n` whose turn it is. -/
theorem accept_gap {consume : LoopState → TunnelResponse → LoopState × Bool}
    {W : LoopState → Nat → Prop} {seq : Nat}
    (hgap : InOrder.Gap f arrived s.nextWriteSeq s.pendingWrites) (hopen : s.nextWriteSeq ∉ arrived)
    (hseq : seq ∉ arrived) (hW : W s s.nextWriteSeq)
    (hcounters : ∀ u v, (consume u v).1.nextWriteSeq = u.nextWriteSeq ∧
      (consume u v).1.pendingWrites = u.pendingWrites)
    (hconsume : ∀ u n, W u n → (∀ j < n + 1, j ∈ insert seq arrived) →
      (consume u (f n)).2 = true → W (consume u (f n)).1 (n + 1)) :
    let a := accept consume s seq (f seq)
    (a.2 = true ∧ InOrder.Gap f (insert seq arrived) a.1.nextWriteSeq a.1.pendingWrites ∧
      a.1.nextWriteSeq ∉ insert seq arrived ∧
      ∃ u n p, W u n ∧ a.1 = { u with nextWriteSeq := n, pendingWrites := p }) ∨
    (a.2 = false ∧ ∃ u n p, W u n ∧ (∀ j < n + 1, j ∈ insert seq arrived) ∧
      (consume u (f n)).2 = false ∧
      a.1 = { (consume u (f n)).1 with nextWriteSeq := n, pendingWrites := p }) := by
  intro a
  have hle : s.nextWriteSeq ≤ seq := by
    by_contra hlt
    exact hseq (hgap.below seq (by omega))
  -- the state of the flush loop: `W` up to `n`, and the gap relation from `n` on
  let P : LoopState → Nat → BTreeMap TunnelResponse → Prop :=
    fun u n p => InOrder.Gap f (insert seq arrived) n p ∧ W u n
  have hfill : seq = s.nextWriteSeq →
      InOrder.Gap f (insert seq arrived) (s.nextWriteSeq + 1) s.pendingWrites :=
    fun h => h ▸ hgap.take hopen
  have hstart : seq = s.nextWriteSeq → (consume s (f seq)).2 = true →
      P (consume s (f seq)).1 ((consume s (f seq)).1.nextWriteSeq + 1)
        (consume s (f seq)).1.pendingWrites := by
    intro h hok
    obtain ⟨hn, hp⟩ := hcounters s (f seq)
    rw [hn, hp]
    refine ⟨hfill h, ?_⟩
    rw [h] at hok ⊢
    exact hconsume s _ hW (h ▸ (hfill h).below) hok
  have hstep : ∀ u n p v, P u n p → p.firstEntry = some (n, v) → (consume u v).2 = true →
      P (consume u v).1 (n + 1) p.popFirst := by
    rintro u n p v ⟨hg, hw⟩ hfirst hok
    have hv := hg.first_eq hfirst
    subst hv
    exact ⟨hg.pop hfirst, hconsume u n hw (hg.pop hfirst).below hok⟩
  rcases accept_rule s seq (f seq) hstart hstep with
    ⟨hne, ha⟩ | ⟨h, hno, ha⟩ | ⟨-, u, n, p, ⟨hg, hw⟩, hstop, ha⟩ |
      ⟨-, u, n, p, v, ⟨hg, hw⟩, hfirst, hno, ha⟩
  · -- not its turn: it goes to `pending_writes`
    have hlt : s.nextWriteSeq < seq := by omega
    refine .inl ⟨congrArg Prod.snd ha, ?_⟩
    rw [show a = _ from ha]
    refine ⟨hgap.keep hlt, fun hmem => hopen ?_, s, _, _, hW, rfl⟩
    exact Finset.mem_of_mem_insert_of_ne hmem (Ne.symm hne)
  · -- the response itself makes the loop end
    refine .inr ⟨congrArg Prod.snd ha, s, s.nextWriteSeq, s.pendingWrites, hW, ?_, ?_, ?_⟩
    · exact (hfill h).below
    · rw [← h]
      exact hno
    · rw [show a = _ from ha, h]
      exact with_counters (hcounters s _).1 (hcounters s _).2
  · -- the flush stops before the next gap
    refine .inl ⟨congrArg Prod.snd ha, ?_⟩
    rw [show a = _ from ha]
    exact ⟨hg, hg.next_notMem hstop, u, n, p, hw, rfl⟩
  · -- a buffered response makes the loop end
    have hv := hg.first_eq hfirst
    subst hv
    refine .inr ⟨congrArg Prod.snd ha, u, n, p.popFirst, hw, (hg.pop hfirst).below, hno, ?_⟩
    rw [show a = _ from ha]

/-- **A response in the main wait.** -/
theorem accepted_inOrder (h : WritesInOrder f arrived s) {m : InflightMeta}
    (hm : m.seq ∉ arrived) :
    let a := s.accepted m (f m.seq)
    (a.2 = true ∧ WritesInOrder f (insert m.seq arrived) a.1) ∨
    (a.2 = false ∧ SocketInOrder f (insert m.seq arrived) a.1) := by
  intro a
  have hW : Written f (s.beforeAccept m (f m.seq)) s.nextWriteSeq := h.written.frame rfl rfl
  rcases accept_gap (s := s.beforeAccept m (f m.seq)) (W := Written f) h.gap h.open_at hm hW
      deliver_counters (fun u n hw _ hok => hw.deliver hok) with
    ⟨hok, hg, hnext, u, n, p, hw, ha⟩ | ⟨hno, u, n, p, hw, hbelow, hleft, ha⟩
  · refine Or.inl ⟨hok, hg, hnext, ?_⟩
    rw [show a.1 = _ from ha]
    exact hw.frame rfl rfl
  · refine Or.inr ⟨hno, ?_⟩
    rw [show a.1 = _ from ha]
    exact hw.deliver_left hbelow hleft n p

/-- Responses behind an end of stream carry nothing. -/
def NothingPastEof (f : Nat → TunnelResponse) (arrived : Finset Nat) : Prop :=
  ∀ k ∈ arrived, ∀ j ∈ arrived, k < j → (f k).eof.getD false = true → payload (f j) = []

/-- In the grace period nothing is left to write. -/
theorem Written.deliverGrace {n : Nat} (h : Written f s n) (heof : EofAmong f n)
    (hbelow : ∀ j < n + 1, j ∈ arrived) (hpast : NothingPastEof f arrived) :
    Written f (deliverGrace s (f n)).1 (n + 1) := by
  obtain ⟨k, hk, hke⟩ := heof
  have hnil : payload (f n) = [] :=
    hpast k (hbelow k (by omega)) n (hbelow n (Nat.lt_succ_self n)) hk hke
  refine ⟨?_, fun _ => ⟨k, by omega, hke⟩⟩
  show (writeTunnelResponse s.writer (f n)).1.written = _
  rw [writeTunnelResponse_writer, hnil, Writer.writeAll_nil, payloads_succ, hnil, List.append_nil]
  exact h.bytes

/-- **A response in the grace period.** -/
theorem acceptedGrace_inOrder (h : WritesInOrder f arrived s) (heof : s.eofSeen = true)
    {m : InflightMeta} (hm : m.seq ∉ arrived) (hpast : NothingPastEof f (insert m.seq arrived)) :
    WritesInOrder f (insert m.seq arrived) (s.acceptedGrace m (f m.seq)) := by
  -- as in the main wait, and the end of stream is among what is written
  let W : LoopState → Nat → Prop := fun u n => Written f u n ∧ EofAmong f n
  have hW : W (s.takeReply m) s.nextWriteSeq :=
    ⟨h.written.frame rfl rfl, h.written.eof heof⟩
  have hmore : ∀ {n : Nat}, EofAmong f n → EofAmong f (n + 1) :=
    fun ⟨k, hk, hke⟩ => ⟨k, by omega, hke⟩
  rcases accept_gap (s := s.takeReply m) (W := W) h.gap h.open_at hm hW deliverGrace_counters
      (fun u n hw hbelow _ => ⟨hw.1.deliverGrace hw.2 hbelow hpast, hmore hw.2⟩) with
    ⟨-, hg, hnext, u, n, p, hw, ha⟩ | ⟨-, u, n, p, -, -, hno, -⟩
  · refine ⟨hg, hnext, ?_⟩
    rw [show s.acceptedGrace m (f m.seq) = _ from ha]
    exact hw.1.frame rfl rfl
  · cases hno

theorem WritesInOrder.frame (h : WritesInOrder f arrived s) (hw : t.writer = s.writer)
    (hn : t.nextWriteSeq = s.nextWriteSeq) (hp : t.pendingWrites = s.pendingWrites)
    (he : t.eofSeen = s.eofSeen) : WritesInOrder f arrived t := by
  refine ⟨?_, ?_, ?_⟩
  · rw [hn, hp]
    exact h.gap
  · rw [hn]
    exact h.open_at
  · rw [hn]
    exact h.written.frame hw he

theorem WritesInOrder.frame_down (h : WritesInOrder f arrived s) (hdown : t.down = s.down) :
    WritesInOrder f arrived t := by
  obtain ⟨hw, -, -, hn, hp, he⟩ := Downlink.mk.inj hdown
  exact h.frame hw hn hp he

/-- Only the responses that have arrived matter. -/
theorem WritesInOrder.congr (h : WritesInOrder f arrived s) {g : Nat → TunnelResponse}
    (hg : ∀ j ∈ arrived, g j = f j) : WritesInOrder g arrived s := by
  refine ⟨h.gap.congr hg, h.open_at, ?_, fun heof => ?_⟩
  · rw [h.written.bytes]
    unfold payloads
    refine List.flatMap_congr fun j hj => ?_
    rw [hg j (h.gap.below j (List.mem_range.mp hj))]
  · obtain ⟨k, hk, hke⟩ := h.written.eof heof
    exact ⟨k, hk, by rw [hg k (h.gap.below k hk), hke]⟩

/-- The state between two events, of a loop that goes on or has ended by `finish`. -/
theorem WritesInOrder.loopInv (h : WritesInOrder f arrived s) (hend : s.EndsRight) :
    LoopInv f arrived s :=
  ⟨fun _ => h, h.written.socketInOrder h.gap.below hend⟩

/-- **A step without a response.** -/
theorem step_loopInv {e : Event} (h : WritesInOrder f arrived s) (hs : s.step e = some t)
    (he : System.isResponse e = false) : LoopInv f arrived t := by
  cases step_effect hs with
  | passive _ hdown hend => exact (h.frame_down hdown).loopInv hend
  | read _ hdown hend =>
      obtain ⟨hw, -, -, hn, hp, heof⟩ := Downlink.mk.inj hdown
      exact (h.frame hw hn hp heof).loopInv hend
  | refused => cases he
  | accepted => cases he
  | left => cases he
  | grace => cases he

/-- **A step with a response.** -/
theorem step_reply_loopInv {m : InflightMeta} {l p : Bool} (h : WritesInOrder f arrived s)
    (hgrace : s.phase = .grace → s.eofSeen = true) (hm : m.seq ∉ arrived)
    (hpast : NothingPastEof f (insert m.seq arrived))
    (hs : s.step (.reply m (.ok (f m.seq)) l p) = some t) : LoopInv f (insert m.seq arrived) t := by
  -- a loop that is back at the top has not ended
  have htop : t.phase = .top → t.EndsRight := by
    intro htop
    exact endsRight_of_running fun r hr => by rw [htop] at hr; cases hr
  cases step_effect hs with
  | passive he => cases he
  | refused _ _ hdown hend hended =>
      obtain ⟨hw, -, -, -, -, heof⟩ := Downlink.mk.inj hdown
      obtain ⟨r, hr⟩ := hended
      refine ⟨fun hrun => absurd hr (hrun r), ?_⟩
      exact (h.written.frame hw heof).socketInOrder
        (fun j hj => Finset.mem_insert_of_mem (h.gap.below j hj)) hend
  | accepted _ _ hok hdown ht =>
      rcases accepted_inOrder h hm with ⟨-, ha⟩ | ⟨hno, -⟩
      · exact (ha.frame_down hdown).loopInv (htop ht)
      · rw [hok] at hno
        cases hno
  | left _ _ hno ht =>
      obtain ⟨r, hr⟩ := accepted_left_phase hno
      rw [ht]
      refine ⟨fun hrun => absurd hr (hrun r), ?_⟩
      rcases accepted_inOrder h hm with ⟨hok, -⟩ | ⟨-, hsock⟩
      · rw [hno] at hok
        cases hok
      · exact hsock
  | grace hphase hdown ht =>
      have ha := acceptedGrace_inOrder h (hgrace hphase) hm hpast
      exact (ha.frame_down hdown).loopInv (htop ht)

end LoopState

/-! ## Client and node -/

namespace System

open StepRun
open LoopState (Downlink LoopInv NothingPastEof payloads EofAmong SocketInOrder)

variable {s t : System} {q : Nat} {f : Nat → TunnelResponse} {arrived : Finset Nat}

/-- The responses `f j`, `j ∈ arrived`, are the ones that have been delivered. -/
structure Delivered (f : Nat → TunnelResponse) (arrived : Finset Nat) (ops : List OpState) :
    Prop where
  out : ∀ j ∈ arrived, ops[j]? = some (.delivered (f j))
  all : ∀ (j : Nat) (r : TunnelResponse), ops[j]? = some (.delivered r) → j ∈ arrived

/-- The invariant of the joint run. -/
structure OrderInv (s : System) : Prop where
  node : DrainInv s
  grace : s.client.phase = .grace → s.client.eofSeen = true
  client : ∃ f arrived, Delivered f arrived s.ops ∧ LoopInv f arrived s.client

theorem DrainInv.nothingPastEof (h : DrainInv s) (hd : Delivered f arrived s.ops) :
    NothingPastEof f arrived := by
  intro k hk j hj hkj he
  exact (h.ended k _ (hd.out k hk) he).2.2 j _ hkj (hd.out j hj)

/-- The first operations, once delivered. -/
theorem takenBy_take (hd : Delivered f arrived s.ops) {n : Nat} (hn : ∀ j < n, j ∈ arrived) :
    takenBy (s.ops.take n) = payloads f n := by
  induction n with
  | zero => rfl
  | succ n ih =>
      have hop := hd.out n (hn n (Nat.lt_succ_self n))
      obtain ⟨hlt, hget⟩ := List.getElem?_eq_some_iff.mp hop
      rw [List.take_succ_eq_append_getElem hlt, takenBy_append, ih fun j hj => hn j (by omega),
        LoopState.payloads_succ, hget]
      simp [takenBy, OpState.taken]

/-- **The law, in a state with the invariant.** -/
theorem OrderInv.law (h : OrderInv s) :
    s.client.writer.written <+: s.appended ∧
      ∀ b, s.client.phase = .ended (some (.remoteEof b)) →
        s.client.writer.written = s.appended ∧ s.inner.eof = true := by
  obtain ⟨f, arrived, hd, -, n, hn, hpre, heof⟩ := h.client
  have htake := takenBy_take hd hn
  constructor
  · calc s.client.writer.written
      _ <+: payloads f n := hpre
      _ = takenBy (s.ops.take n) := htake.symm
      _ <+: takenBy s.ops := takenBy_take_prefix ..
      _ <+: s.appended := by rw [h.node.bytes]; exact List.prefix_append ..
  · intro b hb
    obtain ⟨hw, k, hk, hke⟩ := heof b hb
    obtain ⟨hend, hnil, hpast⟩ := h.node.ended k _ (hd.out k (hn k hk)) hke
    refine ⟨?_, hend⟩
    -- behind the reported end of stream no operation has taken anything
    have hrest : takenBy (s.ops.drop n) = [] := by
      refine takenBy_eq_nil fun o ho => ?_
      obtain ⟨j, hj⟩ := List.mem_iff_getElem?.mp ho
      rw [List.getElem?_drop] at hj
      exact hpast (n + j) o (by omega) hj
    calc s.client.writer.written
      _ = payloads f n := hw
      _ = takenBy (s.ops.take n) ++ takenBy (s.ops.drop n) := by rw [htake, hrest, List.append_nil]
      _ = takenBy s.ops := by rw [← takenBy_append, List.take_append_drop]
      _ = s.appended := by rw [h.node.bytes, hnil, List.append_nil]

/-! ## One step of the joint run -/

theorem Delivered.set {ops : List OpState} (h : Delivered f arrived ops) {o o' : OpState}
    (hq : ops[q]? = some o) (ho : o.received = none) (ho' : o'.received = none) :
    Delivered f arrived (ops.set q o') := by
  refine ⟨fun j hj => ?_, fun j r hj => ?_⟩
  · have hjq : q ≠ j := by
      rintro rfl
      rw [h.out q hj] at hq
      cases hq
      cases ho
    rw [List.getElem?_set_ne hjq]
    exact h.out j hj
  · rcases getElem?_set_cases hj with ⟨rfl, rfl⟩ | ⟨-, hj'⟩
    · cases ho'
    · exact h.all j r hj'

theorem Delivered.noteSent {ops : List OpState} (h : Delivered f arrived ops)
    (client : LoopState) : Delivered f arrived (noteSent ops client) := by
  unfold System.noteSent
  refine ⟨fun j hj => ?_, fun j r hj => ?_⟩
  · have hold := h.out j hj
    rw [List.getElem?_append_left (List.getElem?_eq_some_iff.mp hold).1, hold]
  · rw [List.getElem?_append] at hj
    split_ifs at hj
    · exact h.all j r hj
    · cases List.eq_of_mem_replicate (List.mem_of_getElem? hj)

/-- An answer is delivered. -/
theorem Delivered.deliver {ops : List OpState} (h : Delivered f arrived ops)
    {resp : TunnelResponse} (hq : ops[q]? = some (.answered resp)) :
    q ∉ arrived ∧
      Delivered (Function.update f q resp) (insert q arrived) (ops.set q (.delivered resp)) := by
  have hnew : q ∉ arrived := by
    intro hmem
    rw [h.out q hmem] at hq
    cases hq
  have hlt : q < ops.length := (List.getElem?_eq_some_iff.mp hq).1
  refine ⟨hnew, fun j hj => ?_, fun j r hj => ?_⟩
  · rcases Finset.mem_insert.mp hj with rfl | hj'
    · rw [List.getElem?_set_self hlt, Function.update_self]
    · have hjq : j ≠ q := fun hjq => hnew (hjq ▸ hj')
      rw [List.getElem?_set_ne (Ne.symm hjq), Function.update_of_ne hjq]
      exact h.out j hj'
  · rcases getElem?_set_cases hj with ⟨rfl, -⟩ | ⟨-, hj'⟩
    · exact Finset.mem_insert_self ..
    · exact Finset.mem_insert_of_mem (h.all j r hj')

/-- **One step of the node keeps the drain order.** -/
theorem step_drainInv {e : Event} (he : e.atNode = true) (h : DrainInv s) (hC : DrainsInTurn s e)
    (hs : s.step e = some t) : DrainInv t := by
  cases e with
  | client e => cases he
  | deliver seq l p => cases he
  | append bytes =>
      simp only [step] at hs
      split_ifs at hs with hok
      cases hs
      -- nothing is appended behind an end of stream
      have hopen : ∀ {P : Prop}, s.inner.eof = true → P := by
        intro P hend
        rw [hok.2.1] at hend
        cases hend
      refine ⟨?_, h.turn, fun i a ha hea => hopen (h.ended i a ha hea).1, h.loaded, h.absent⟩
      show s.appended ++ bytes = takenBy s.ops ++ (s.inner.readBuf ++ bytes)
      rw [h.bytes, List.append_assoc]
  | upstreamEnd =>
      simp only [step] at hs
      split_ifs at hs
      cases hs
      exact ⟨h.bytes, h.turn, fun i a ha hea => ⟨rfl, (h.ended i a ha hea).2⟩, fun _ _ _ _ => rfl,
        h.absent⟩
  | arrive seq => exact arrive_drainInv h hC hs
  | startDrain seq remaining => exact startDrain_drainInv h hs
  | loadEof seq => exact loadEof_drainInv h hs
  | take seq late => exact take_drainInv h hC hs
  | respond seq => exact respond_drainInv h hs

/-- The loop makes steps only while it runs. -/
theorem OrderInv.running {c : LoopState} {e : LoopState.Event} (hs : s.client.step e = some c)
    (h : LoopInv f arrived s.client) : LoopState.WritesInOrder f arrived s.client :=
  h.1 fun r => LoopState.step_running hs r

/-- **The step lemma.** -/
theorem step_orderInv {e : Event} (h : OrderInv s) (hC : DrainsInTurn s e)
    (hs : s.step e = some t) : OrderInv t := by
  by_cases he : e.atNode = true
  · have hn := step_node he hs
    obtain ⟨f, arrived, hd, hloop⟩ := h.client
    refine ⟨step_drainInv he h.node hC hs, hn.client ▸ h.grace, f, arrived, ?_, hn.client ▸ hloop⟩
    rcases hn.ops with ⟨hsame, -⟩ | ⟨q, o, o', hq, hset, ho, ho', -⟩
    · rw [hsame]
      exact hd
    · rw [hset]
      exact hd.set hq ho ho'
  cases e with
  | client e =>
      simp only [step, clientStep] at hs
      split_ifs at hs with hresp
      obtain ⟨c, hc, rfl⟩ := Option.map_eq_some_iff.mp hs
      obtain ⟨f, arrived, hd, hloop⟩ := h.client
      refine ⟨h.node.noteSent c, LoopState.step_grace hc, f, arrived, hd.noteSent c, ?_⟩
      exact LoopState.step_loopInv (OrderInv.running hc hloop) hc (by simpa using hresp)
  | deliver seq l p =>
      simp only [step, System.deliver] at hs
      split at hs
      case h_2 => cases hs
      case h_1 resp m hq hm =>
        obtain ⟨c, hc, rfl⟩ := Option.map_eq_some_iff.mp hs
        obtain ⟨f, arrived, hd, hloop⟩ := h.client
        have hseq : m.seq = seq := by simpa using List.find?_some hm
        subst hseq
        obtain ⟨hnew, hd'⟩ := hd.deliver hq
        have hnode := h.node.move s.inner s.present (.delivered resp) hq
          rfl rfl rfl rfl (fun _ => rfl) (fun _ _ ho => by cases ho) fun hp => .inl hp
        refine ⟨hnode.noteSent c, LoopState.step_grace hc, _, _, hd'.noteSent c, ?_⟩
        -- the responses that have arrived are not changed by the new one
        have hrun := (OrderInv.running hc hloop).congr (g := Function.update f m.seq resp)
          fun j hj => Function.update_of_ne (ne_of_mem_of_not_mem hj hnew) resp f
        have hc' : s.client.step (.reply m (.ok (Function.update f m.seq resp m.seq)) l p)
            = some c := by
          rw [Function.update_self]
          exact hc
        exact LoopState.step_reply_loopInv hrun h.grace hnew (hnode.nothingPastEof hd') hc'
  | _ => exact absurd rfl he

theorem init_orderInv (sid : String) (localRoom upstreamRoom : Option Nat)
    (pending : Option Preread) : OrderInv (init sid localRoom upstreamRoom pending) := by
  let client := LoopState.start sid ⟨[], localRoom⟩ (pending.map Subtype.val)
  have hdown : client.down = _ := LoopState.start_down ..
  have htop : client.phase = .top := LoopState.start_phase ..
  obtain ⟨hw, -, -, hn, hp, he⟩ := Downlink.mk.inj hdown
  -- before the first operation is sent
  have hnode : DrainInv ⟨client, SessionInner.new upstreamRoom, true, [], []⟩ := by
    refine ⟨rfl, fun i j a b _ ha => ?_, fun i a ha => ?_, fun i r d hi => ?_, nofun⟩
    · cases ha
    · cases ha
    · cases hi
  let f : Nat → TunnelResponse := fun _ => eofResponse sid none
  have hd : Delivered f ∅ [] :=
    ⟨fun j hj => (Finset.notMem_empty j hj).elim, fun j r hj => by cases hj⟩
  refine ⟨hnode.noteSent client, fun hg => ?_, f, ∅, hd.noteSent client, ?_⟩
  · exact absurd (htop.symm.trans hg) nofun
  · have hin : LoopState.WritesInOrder f ∅ client := by
      refine ⟨?_, Finset.notMem_empty _, ?_, fun heof => ?_⟩
      · rw [hn, hp]
        exact InOrder.Gap.empty f
      · rw [hw, hn]
        rfl
      · rw [he] at heof
        cases heof
    refine hin.loopInv (LoopState.endsRight_of_running fun r hr => ?_)
    exact absurd (htop.symm.trans hr) nofun

/-- **The downlink is in order.** In every run in which the operations drain in turn, what is on
the local socket is a prefix of what the destination sent, and all of it once the loop has
returned `RemoteEof`. -/
theorem downlink_in_order (sid : String) (localRoom upstreamRoom : Option Nat)
    (pending : Option Preread) (es : List Event) (s : System)
    (hC : AllSteps step DrainsInTurn (init sid localRoom upstreamRoom pending) es)
    (hrun : run step (init sid localRoom upstreamRoom pending) es = some s) :
    s.client.writer.written <+: s.appended ∧
      ∀ b, s.client.phase = .ended (some (.remoteEof b)) →
        s.client.writer.written = s.appended ∧ s.inner.eof = true :=
  (run_invariant (fun _ _ _ h hc hs => step_orderInv h hc hs)
    (init_orderInv sid localRoom upstreamRoom pending) hC hrun).law

/-- A poll fetches the only byte of the stream, the next one its end. -/
def quietSession : List Event :=
  [.client (.turn false), .arrive 0, .append [65], .startDrain 0 100, .loadEof 0, .take 0 true,
    .respond 0, .upstreamEnd, .deliver 0 false false, .client (.turn false), .client (.refill false),
    .client (.turn false), .arrive 1, .startDrain 1 100, .loadEof 1, .take 1 false, .respond 1,
    .deliver 1 false false, .client (.turn false)]

theorem downlink_in_order_quiet :
    ∃ s, run step (init "s" none none none) quietSession = some s ∧
      s.client.phase = .ended (some (.remoteEof 3)) ∧ s.client.writer.written = s.appended ∧
      s.inner.eof = true := by
  have hsome : (run step (init "s" none none none) quietSession).any
      (fun s => decide (s.client.phase = .ended (some (.remoteEof 3)))) = true := by decide +kernel
  obtain ⟨s, hrun, hend⟩ := (Option.any_eq_true _ _).mp hsome
  have hphase := of_decide_eq_true hend
  exact ⟨s, hrun, hphase, (downlink_in_order "s" none none none quietSession s (by decide +kernel)
    hrun).2 3 hphase⟩

/-- Two polls are at the node. The second one drains first, and its byte waits at the client for
the answer to the first one, which carries a later byte. -/
def swappedDrains : List Event :=
  [.client (.turn false), .client (.refill false), .arrive 0, .arrive 1, .append [65],
    .startDrain 1 100, .loadEof 1, .take 1 true, .append [66], .startDrain 0 100, .loadEof 0,
    .take 0 true, .respond 1, .respond 0, .client (.turn false), .deliver 0 false false]

theorem downlink_out_of_order :
    ¬ ∀ (sid : String) (localRoom upstreamRoom : Option Nat) (pending : Option Preread)
        (es : List Event) (s : System),
      run step (init sid localRoom upstreamRoom pending) es = some s →
        s.client.writer.written <+: s.appended ∧
          ∀ b, s.client.phase = .ended (some (.remoteEof b)) →
            s.client.writer.written = s.appended := by
  intro hall
  have hsome : (run step (init "s" none none none) swappedDrains).any
      (fun s => decide (s.client.writer.written = [66] ∧ s.appended = [65, 66])) = true := by
    decide +kernel
  obtain ⟨s, hrun, hboth⟩ := (Option.any_eq_true _ _).mp hsome
  obtain ⟨hwritten, happended⟩ := of_decide_eq_true hboth
  have hprefix := (hall "s" none none none swappedDrains s hrun).1
  rw [hwritten, happended] at hprefix
  exact absurd hprefix (by decide)

end System

end Rahgozar.Tunnel
