import Rahgozar.Drive.Peers

set_option autoImplicit false

/-! # What a peer sends

The invariant of the sending half, for any schedule of reads, control frames and flushes: the frames
are numbered from 0 on without a gap, what waits is the end of them, and the batches that have been
sealed are made of earlier ones, each with a larger number than the batch before.
-/

namespace Rahgozar.Drive

/-- The payload of a frame that carries bytes of the socket. -/
def WireFrame.read (f : WireFrame) : Option (List UInt8) :=
  if f.kind = .data then some f.payload else none

theorem WireFrame.read_eq_none {f : WireFrame} (h : f.kind ≠ .data) : f.read = none := if_neg h

namespace Sender

structure Inv (s : Sender) : Prop where
  numbered : ∀ (i : Nat) (f : WireFrame), s.pushed[i]? = some f → f.seq = i
  sendable : ∀ f ∈ s.pushed, f.Sendable
  waiting : s.pending <:+ s.pushed
  sealed : ∀ c ∈ s.sealed, c.key = s.key ∧
    ∃ frames, (∀ f ∈ frames, f ∈ s.pushed) ∧ c.plaintext = Batch.encode ⟨frames⟩
  increasing : (s.sealed.map SealCall.seq).Pairwise (· < ·)
  below : ∀ c ∈ s.sealed, c.seq + s.pending.length < s.pushed.length
  reads : s.pushed.filterMap WireFrame.read = s.reads
  ended : s.pushed.Pairwise fun f g => f.kind = .eof → g.kind ≠ .data

/-- The end of the stream has not been pushed. -/
def NoEof (s : Sender) : Prop := ∀ f ∈ s.pushed, f.kind ≠ .eof

/-- The next number is the number of frames so far. -/
def Live (s : Sender) : Prop := s.nextSeq = s.pushed.length

/-- From `s` to `t` frames have been pushed behind the others, under the same key. -/
structure Extends (s t : Sender) : Prop where
  key : t.key = s.key
  pushed : s.pushed <+: t.pushed

variable {s t u : Sender}

theorem Extends.refl (s : Sender) : Extends s s := ⟨rfl, List.prefix_rfl⟩

theorem Extends.trans (h : Extends s t) (h' : Extends t u) : Extends s u :=
  ⟨h'.key.trans h.key, h.pushed.trans h'.pushed⟩

/-! ## Timer and burst flags do not matter -/

/-- The fields the invariant is about. -/
structure Core where
  key : Key
  pending : List WireFrame
  pushed : List WireFrame
  reads : List (List UInt8)
  sealed : List SealCall

def core (s : Sender) : Core := ⟨s.key, s.pending, s.pushed, s.reads, s.sealed⟩

theorem Inv.of_core (h : Inv s) (hcore : t.core = s.core) : Inv t := by
  obtain ⟨hkey, hpending, hpushed, hreads, hsealed⟩ := Core.mk.inj hcore
  refine ⟨?_, ?_, ?_, ?_, ?_, ?_, ?_, ?_⟩
  · rw [hpushed]
    exact h.numbered
  · rw [hpushed]
    exact h.sendable
  · rw [hpending, hpushed]
    exact h.waiting
  · rw [hsealed, hkey, hpushed]
    exact h.sealed
  · rw [hsealed]
    exact h.increasing
  · rw [hsealed, hpending, hpushed]
    exact h.below
  · rw [hpushed, hreads]
    exact h.reads
  · rw [hpushed]
    exact h.ended

theorem flushR2cBatch_core (s : Sender) : s.flushR2cBatch.core = s.flushC2rBatch.core := by
  unfold flushR2cBatch flushC2rBatch
  split_ifs <;> rfl

/-! ## Flush -/

/-- The first frame that waits has the number of the frames that do not. -/
theorem Inv.head_seq (h : Inv s) {f : WireFrame} {rest : List WireFrame}
    (hp : s.pending = f :: rest) : f.seq + s.pending.length = s.pushed.length := by
  obtain ⟨before, hsplit⟩ := h.waiting
  have hget : s.pushed[before.length]? = some f := by
    rw [← hsplit, hp, List.getElem?_append_right le_rfl, Nat.sub_self]
    rfl
  rw [h.numbered _ f hget, ← hsplit, List.length_append]

theorem flushC2rBatch_inv (h : Inv s) : Inv s.flushC2rBatch := by
  unfold flushC2rBatch
  split_ifs with hempty
  · exact h
  obtain ⟨f, rest, hp⟩ := List.exists_cons_of_ne_nil (l := s.pending) fun hnil =>
    hempty (List.isEmpty_iff.mpr hnil)
  -- the batch gets the number of its first frame, which is above all earlier ones
  have hseq := h.head_seq hp
  have hpos : 0 < s.pending.length := by rw [hp]; exact Nat.succ_pos _
  have hmem : ∀ g ∈ s.pending, g ∈ s.pushed := fun g hg => h.waiting.subset hg
  have hfirst : ((s.pending.head?).map WireFrame.seq).getD 0 = f.seq := by rw [hp]; rfl
  refine ⟨h.numbered, h.sendable, List.nil_suffix, ?_, ?_, ?_, h.reads, h.ended⟩
  · intro c hc
    rcases List.mem_append.mp hc with hc | hc
    · exact h.sealed c hc
    · rw [List.mem_singleton.mp hc]
      exact ⟨rfl, s.pending, hmem, rfl⟩
  · show ((s.sealed ++ [_]).map SealCall.seq).Pairwise (· < ·)
    rw [List.map_append, List.pairwise_append]
    refine ⟨h.increasing, List.pairwise_singleton _ _, fun a ha b hb => ?_⟩
    obtain ⟨c, hc, rfl⟩ := List.mem_map.mp ha
    have hb' : b = f.seq := by
      rw [List.map_singleton, List.mem_singleton] at hb
      exact hb.trans hfirst
    have hlt := h.below c hc
    omega
  · intro c hc
    show c.seq + 0 < s.pushed.length
    rcases List.mem_append.mp hc with hc | hc
    · have hlt := h.below c hc
      omega
    · rw [List.mem_singleton.mp hc]
      show ((s.pending.head?).map WireFrame.seq).getD 0 + 0 < s.pushed.length
      rw [hfirst]
      omega

/-! ## Push -/

/-- What a frame of this kind adds to the payloads that were read. -/
def readsOf (kind : FrameKind) (payload : List UInt8) : List (List UInt8) :=
  if kind = .data then [payload] else []

/-- One more frame, read from the socket just before if it carries bytes. -/
theorem append_inv (kind : FrameKind) (h : Inv s) (hlive : Live s) (hroom : s.nextSeq < u64Size)
    {payload : List UInt8} (hfits : payload.length ≤ maxPayload)
    (hopen : kind = .data → NoEof s)
    (ht : t = { s with reads := s.reads ++ readsOf kind payload }) :
    Inv (t.append kind payload) := by
  subst ht
  refine ⟨?_, ?_, ?_, ?_, h.increasing, ?_, ?_, ?_⟩
  · intro i f hf
    replace hf : (s.pushed ++ [_])[i]? = some f := hf
    rw [List.getElem?_append] at hf
    split_ifs at hf with hi
    · exact h.numbered i f hf
    · -- the new frame is at the end, and its number is the length
      obtain ⟨hlt, hget⟩ := List.getElem?_eq_some_iff.mp hf
      rw [List.length_singleton] at hlt
      rw [← hget, List.getElem_singleton]
      show s.nextSeq = i
      rw [hlive]
      omega
  · intro f hf
    rcases List.mem_append.mp hf with hf | hf
    · exact h.sendable f hf
    · rw [List.mem_singleton.mp hf]
      exact ⟨rfl, hroom, hfits⟩
  · -- what was pushed and has not been sent is at the end
    obtain ⟨before, hsplit⟩ := h.waiting
    refine ⟨before, ?_⟩
    show before ++ (s.pending ++ [_]) = s.pushed ++ [_]
    rw [← List.append_assoc, hsplit]
  · intro c hc
    obtain ⟨hkey, frames, hmem, hplain⟩ := h.sealed c hc
    exact ⟨hkey, frames, fun f hf => List.mem_append_left _ (hmem f hf), hplain⟩
  · intro c hc
    have hlt := h.below c hc
    show c.seq + (s.pending ++ [_]).length < (s.pushed ++ [_]).length
    simp only [List.length_append, List.length_singleton]
    omega
  · show (s.pushed ++ [_]).filterMap WireFrame.read = s.reads ++ readsOf kind payload
    rw [List.filterMap_append, h.reads]
    congr 1
    unfold readsOf
    split_ifs with hkind
    · simp [WireFrame.read, buildWireFrame, hkind]
    · simp [WireFrame.read, buildWireFrame, hkind]
  · -- a payload is pushed only while there is no end of stream
    show (s.pushed ++ [_]).Pairwise _
    refine List.pairwise_append.mpr ⟨h.ended, List.pairwise_singleton _ _, ?_⟩
    intro f hf g hg heof
    rw [List.mem_singleton.mp hg]
    exact fun hdata => hopen hdata f hf heof

/-- A push is an append, behind which the batch is flushed or the timer is armed. -/
theorem pushC2rFrame_core (s : Sender) (kind : FrameKind) (payload : List UInt8) (flushNow : Bool) :
    (s.pushC2rFrame kind payload flushNow).core = (s.append kind payload).core ∨
      (s.pushC2rFrame kind payload flushNow).core = (s.append kind payload).flushC2rBatch.core := by
  unfold pushC2rFrame
  dsimp only
  split_ifs
  · exact .inr rfl
  · exact .inl rfl

theorem pushR2cFrame_core (s : Sender) (kind : FrameKind) (payload : List UInt8) (flushNow : Bool) :
    (s.pushR2cFrame kind payload flushNow).core = (s.append kind payload).core ∨
      (s.pushR2cFrame kind payload flushNow).core = (s.append kind payload).flushC2rBatch.core := by
  unfold pushR2cFrame
  dsimp only
  split_ifs
  · exact .inr (flushR2cBatch_core _)
  · exact .inl rfl

theorem pushC2rFrame_nextSeq (s : Sender) (kind : FrameKind) (payload : List UInt8)
    (flushNow : Bool) : (s.pushC2rFrame kind payload flushNow).nextSeq = s.nextSeq + 1 := by
  unfold pushC2rFrame flushC2rBatch
  dsimp only
  split_ifs <;> rfl

theorem pushR2cFrame_nextSeq (s : Sender) (kind : FrameKind) (payload : List UInt8)
    (flushNow : Bool) : (s.pushR2cFrame kind payload flushNow).nextSeq = s.nextSeq + 1 := by
  unfold pushR2cFrame flushR2cBatch
  dsimp only
  split_ifs <;> rfl

/-! ## Steps of a sender -/

/-- A flush: nothing is pushed. -/
structure Flushed (s t : Sender) : Prop where
  inv : Inv t
  key : t.key = s.key
  nextSeq : t.nextSeq = s.nextSeq
  pushed : t.pushed = s.pushed

/-- One frame of a kind is pushed. -/
structure Pushed (kind : FrameKind) (s t : Sender) : Prop where
  inv : Inv t
  key : t.key = s.key
  nextSeq : t.nextSeq = s.nextSeq + 1
  pushed : ∃ f : WireFrame, f.kind = kind ∧ t.pushed = s.pushed ++ [f]

theorem Flushed.live (h : Flushed s t) (hlive : Live s) : Live t := by
  rw [Live, h.nextSeq, h.pushed]
  exact hlive

theorem Flushed.noEof (h : Flushed s t) (hs : NoEof s) : NoEof t := by
  rw [NoEof, h.pushed]
  exact hs

theorem Flushed.ext (h : Flushed s t) : Extends s t := ⟨h.key, h.pushed ▸ List.prefix_rfl⟩

theorem Pushed.live {kind : FrameKind} (h : Pushed kind s t) (hlive : Live s) : Live t := by
  obtain ⟨f, -, hpushed⟩ := h.pushed
  rw [Live, h.nextSeq, hpushed, List.length_append, hlive]
  rfl

theorem Pushed.noEof {kind : FrameKind} (h : Pushed kind s t) (hkind : kind ≠ .eof) (hs : NoEof s) :
    NoEof t := by
  obtain ⟨f, hf, hpushed⟩ := h.pushed
  rw [NoEof, hpushed]
  intro g hg
  rcases List.mem_append.mp hg with hg | hg
  · exact hs g hg
  · rw [List.mem_singleton.mp hg, hf]
    exact hkind

theorem Pushed.ext {kind : FrameKind} (h : Pushed kind s t) : Extends s t := by
  obtain ⟨f, -, hpushed⟩ := h.pushed
  exact ⟨h.key, hpushed ▸ List.prefix_append ..⟩

theorem flushC2rBatch_flushed (h : Inv s) : Flushed s s.flushC2rBatch := by
  refine ⟨flushC2rBatch_inv h, ?_, ?_, ?_⟩
  all_goals
    unfold flushC2rBatch
    split_ifs <;> rfl

theorem flushR2cBatch_flushed (h : Inv s) : Flushed s s.flushR2cBatch := by
  refine ⟨(flushC2rBatch_inv h).of_core (flushR2cBatch_core s), ?_, ?_, ?_⟩
  all_goals
    unfold flushR2cBatch
    split_ifs <;> rfl

/-- Either kind of push. -/
theorem pushed_of_core {kind : FrameKind} {payload : List UInt8} (h : Inv s) (hlive : Live s)
    (hroom : s.nextSeq < u64Size) (hfits : payload.length ≤ maxPayload)
    (hopen : kind = .data → NoEof s)
    (ht : t = { s with reads := s.reads ++ readsOf kind payload })
    (hcore : u.core = (t.append kind payload).core ∨
      u.core = (t.append kind payload).flushC2rBatch.core)
    (hnext : u.nextSeq = t.nextSeq + 1) : Pushed kind s u := by
  have hinv := append_inv kind h hlive hroom hfits hopen ht
  have hkey : (t.append kind payload).key = s.key := by
    subst ht
    rfl
  have hpushed : (t.append kind payload).pushed
      = s.pushed ++ [buildWireFrame kind s.sid s.nextSeq payload] := by
    subst ht
    rfl
  have hseq : u.nextSeq = s.nextSeq + 1 := by
    subst ht
    exact hnext
  rcases hcore with hcore | hcore
  · exact ⟨hinv.of_core hcore, (congrArg Core.key hcore).trans hkey, hseq, _, rfl,
      (congrArg Core.pushed hcore).trans hpushed⟩
  · have hflush := flushC2rBatch_flushed hinv
    exact ⟨hflush.inv.of_core hcore, (congrArg Core.key hcore).trans (hflush.key.trans hkey), hseq, _,
      rfl, (congrArg Core.pushed hcore).trans (hflush.pushed.trans hpushed)⟩

/-- A control frame. -/
theorem pushC2rFrame_pushed (kind : FrameKind) (hkind : kind ≠ .data) (h : Inv s) (hlive : Live s)
    (hroom : s.nextSeq < u64Size) (flushNow : Bool) :
    Pushed kind s (s.pushC2rFrame kind [] flushNow) := by
  refine pushed_of_core h hlive hroom (Nat.zero_le _) (fun hdata => absurd hdata hkind) ?_
    (pushC2rFrame_core s kind [] flushNow) (pushC2rFrame_nextSeq s kind [] flushNow)
  rw [readsOf, if_neg hkind, List.append_nil]

theorem pushR2cFrame_pushed (kind : FrameKind) (hkind : kind ≠ .data) (h : Inv s) (hlive : Live s)
    (hroom : s.nextSeq < u64Size) (flushNow : Bool) :
    Pushed kind s (s.pushR2cFrame kind [] flushNow) := by
  refine pushed_of_core h hlive hroom (Nat.zero_le _) (fun hdata => absurd hdata hkind) ?_
    (pushR2cFrame_core s kind [] flushNow) (pushR2cFrame_nextSeq s kind [] flushNow)
  rw [readsOf, if_neg hkind, List.append_nil]

theorem Chunk.fits (chunk : Chunk) : chunk.val.length ≤ maxPayload :=
  chunk.property.2.trans (by decide)

/-- A read. -/
theorem readC2r_pushed (h : Inv s) (hlive : Live s) (hroom : s.nextSeq < u64Size) (hopen : NoEof s)
    (chunk : Chunk) : Pushed .data s ((s.noteRead chunk.val).pushC2rFrame .data chunk.val false) :=
  pushed_of_core h hlive hroom (Chunk.fits chunk) (fun _ => hopen) rfl
    (pushC2rFrame_core (s.noteRead chunk.val) .data chunk.val false)
    (pushC2rFrame_nextSeq (s.noteRead chunk.val) .data chunk.val false)

theorem readR2c_pushed (h : Inv s) (hlive : Live s) (hroom : s.nextSeq < u64Size) (hopen : NoEof s)
    (chunk : Chunk) : Pushed .data s ((s.noteRead chunk.val).pushR2cFrame .data chunk.val false) :=
  pushed_of_core h hlive hroom (Chunk.fits chunk) (fun _ => hopen) rfl
    (pushR2cFrame_core (s.noteRead chunk.val) .data chunk.val false)
    (pushR2cFrame_nextSeq (s.noteRead chunk.val) .data chunk.val false)

/-- What a sealed batch decodes to are frames of the log. -/
theorem Inv.decoded (h : Inv s) {c : SealCall} (hc : c ∈ s.sealed) {batch : Batch}
    (hdec : Batch.decode c.plaintext = .ok batch) {w : WireFrame} (hw : w ∈ batch.frames) :
    s.pushed[w.seq]? = some w := by
  obtain ⟨-, frames, hmem, hplain⟩ := h.sealed c hc
  rw [hplain] at hdec
  have hbatch := Batch.eq_of_decode_encode (fun f hf => h.sendable f (hmem f hf)) hdec
  rw [hbatch] at hw
  obtain ⟨i, hi⟩ := List.mem_iff_getElem?.mp (hmem w hw)
  rw [h.numbered i w hi]
  exact hi

end Sender

end Rahgozar.Drive
