import Rahgozar.Lib.Run
import Rahgozar.Tunnel.DownlinkOrder

set_option autoImplicit false

/-! # The read buffer of one session (`tunnel-node/src/main.rs`)

`reader_task` appends what the destination sends to `read_buf` and sets `eof` when there is no
more. `drain_now` and `wait_and_drain` take bytes out again, any number of them at a time. All of
them change the buffer and `buf_len` under the buffer's lock; `eof` is an atomic of its own, which
`drain_now` loads before it has the lock and `wait_and_drain` while it has it.

The steps are the accesses to the shared state one by one. A drain call is over when it gives the
lock back: there is no await behind that, and what it returns is fixed.
-/

namespace Rahgozar.Tunnel

/-! ## The state -/

/-- Where `reader_task` is. -/
inductive Reader where
  /-- looks whether the buffer has room -/
  | gate
  | reading
  /-- has read these bytes and not yet appended them -/
  | received (bytes : List UInt8)
  | appended
  /-- the read found the end of the stream, or failed -/
  | ending
  | done
deriving DecidableEq

/-- A drain call that does not hold the lock. -/
inductive DrainCall where
  | now (maxBytes : Nat)
  /-- `drain_now` with the value of `eof` it has loaded -/
  | loaded (maxBytes : Nat) (rawEof : Bool)
  /-- `wait_and_drain` in its loop -/
  | polling
  | waiting
deriving DecidableEq

/-- How far the holder of the lock is. -/
inductive Holder where
  | readerLocked
  | readerExtended
  | readerStored
  | nowLocked (maxBytes : Nat) (rawEof : Bool)
  | nowTook (data : List UInt8) (eof : Bool)
  | waitLocked
  | waitTook (data : List UInt8)
  | waitLoaded (data : List UInt8) (eof : Bool)
  /-- `buf_len` is stored; the lock goes back with the result -/
  | drained (data : List UInt8) (eof : Bool)
deriving DecidableEq

/-- The read side of a `SessionInner` with the tasks at work on it. `received` is what the reader
has got from the destination, `appended` what it has put into the buffer, and `returned` what the
drain calls have returned, in the order in which they gave the lock back. -/
structure ReadSide where
  readBuf : List UInt8
  bufLen : Nat
  eof : Bool
  lock : Option Holder
  reader : Reader
  calls : List DrainCall
  received : List UInt8
  appended : List UInt8
  returned : List (List UInt8 × Bool)

namespace ReadSide

def start : ReadSide := ⟨[], 0, false, none, .gate, [], [], [], []⟩

/-! ## Steps -/

inductive Event where
  /-- the reader finds room in the buffer, or does not and waits for a drain -/
  | gate
  | read (bytes : List UInt8)
  | readEnd
  | readerLock
  | setEof
  | callNow (maxBytes : Nat)
  | callWait
  /-- `drain_now` loads `eof` -/
  | load (i : Nat)
  /-- one turn of `wait_and_drain`'s loop; `leave` is one of its two deadlines -/
  | poll (i : Nat) (leave : Bool)
  | acquire (i : Nat)
  /-- the holder of the lock does its next step -/
  | hold

/-- The next step of the holder of the lock. -/
def holdStep (s : ReadSide) : Holder → Option ReadSide
  | .readerLocked =>
      match s.reader with
      | .received bytes =>
          some { s with
            readBuf := s.readBuf ++ bytes
            appended := s.appended ++ bytes
            reader := .appended
            lock := some .readerExtended }
      | _ => none
  | .readerExtended => some { s with bufLen := s.readBuf.length, lock := some .readerStored }
  | .readerStored => some { s with lock := none, reader := .gate }
  | .nowLocked maxBytes rawEof =>
      let (data, eof, rest) := drainNow s.readBuf rawEof maxBytes
      some { s with readBuf := rest, lock := some (.nowTook data eof) }
  | .nowTook data eof =>
      some { s with bufLen := s.readBuf.length, lock := some (.drained data eof) }
  | .waitLocked => some { s with readBuf := [], lock := some (.waitTook s.readBuf) }
  | .waitTook data => some { s with lock := some (.waitLoaded data s.eof) }
  | .waitLoaded data eof => some { s with bufLen := 0, lock := some (.drained data eof) }
  | .drained data eof => some { s with lock := none, returned := s.returned ++ [(data, eof)] }

/-- Call `i` gets the lock. -/
def acquireStep (s : ReadSide) (i : Nat) : Option ReadSide :=
  match s.lock, s.calls[i]? with
  | none, some (.loaded maxBytes rawEof) =>
      some { s with lock := some (.nowLocked maxBytes rawEof), calls := s.calls.eraseIdx i }
  | none, some .waiting => some { s with lock := some .waitLocked, calls := s.calls.eraseIdx i }
  | _, _ => none

def step (s : ReadSide) : Event → Option ReadSide
  | .gate =>
      if s.reader = .gate ∧ s.lock = none then
        some { s with reader := if s.readBuf.length < readBufCap then .reading else .gate }
      else none
  | .read bytes =>
      if s.reader = .reading ∧ 0 < bytes.length ∧ bytes.length ≤ readerBufSize then
        some { s with reader := .received bytes, received := s.received ++ bytes }
      else none
  | .readEnd => if s.reader = .reading then some { s with reader := .ending } else none
  | .readerLock =>
      match s.reader, s.lock with
      | .received _, none => some { s with lock := some .readerLocked }
      | _, _ => none
  | .setEof => if s.reader = .ending then some { s with eof := true, reader := .done } else none
  | .callNow maxBytes => some { s with calls := s.calls ++ [.now maxBytes] }
  | .callWait => some { s with calls := s.calls ++ [.polling] }
  | .load i =>
      match s.calls[i]? with
      | some (.now maxBytes) => some { s with calls := s.calls.set i (.loaded maxBytes s.eof) }
      | _ => none
  | .poll i leave =>
      match s.lock, s.calls[i]? with
      | none, some .polling =>
          some { s with calls := s.calls.set i (if s.eof || leave then .waiting else .polling) }
      | _, _ => none
  | .acquire i => s.acquireStep i
  | .hold => s.lock.bind s.holdStep

/-! ## What is where -/

/-- The bytes the holder of the lock has taken out of the buffer. -/
def inHand (s : ReadSide) : List UInt8 :=
  match s.lock with
  | some (.nowTook data _) => data
  | some (.waitTook data) => data
  | some (.waitLoaded data _) => data
  | some (.drained data _) => data
  | _ => []

/-- The bytes the reader has read and not yet appended. -/
def readerHand (s : ReadSide) : List UInt8 :=
  match s.reader with
  | .received bytes => bytes
  | _ => []

/-- The chunks the calls have returned, one behind the other. -/
def returnedBytes (s : ReadSide) : List UInt8 := s.returned.flatMap Prod.fst

/-- Nothing is lost and nothing comes twice: what was returned, what the holder of the lock has in
hand and what is in the buffer make up what was appended; `buf_len` is right whenever the lock is
free; and with a returned end of stream everything the destination sent has been returned, the
reader being at its end. -/
structure Lossless (s : ReadSide) : Prop where
  bytes : s.returnedBytes ++ s.inHand ++ s.readBuf = s.appended
  len : s.lock = none → s.bufLen = s.readBuf.length
  eof : ∀ data, (data, true) ∈ s.returned → s.returnedBytes = s.received ∧ s.reader = .done

/-- With the lock free there is nothing in hand. -/
theorem inHand_of_free {s : ReadSide} (h : s.lock = none) : s.inHand = [] := by
  rw [inHand, h]

end ReadSide

/-! ## The invariant -/

namespace Holder

/-- `buf_len` is up to date. -/
def settled : Holder → Bool
  | readerExtended | nowTook _ _ | waitTook _ | waitLoaded _ _ => false
  | _ => true

/-- The holder has found the end of the stream. -/
def sawEof : Holder → Bool
  | nowLocked _ rawEof => rawEof
  | nowTook _ eof | waitLoaded _ eof | drained _ eof => eof
  | _ => false

/-- The reader has appended and not yet given the lock back. -/
def afterAppend : Holder → Bool
  | readerExtended | readerStored => true
  | _ => false

/-- The holder has left nothing in the buffer. -/
def emptied : Holder → Bool
  | waitTook _ | waitLoaded _ _ => true
  | nowTook _ eof | drained _ eof => eof
  | _ => false

end Holder

namespace ReadSide

/-- An end of stream that anyone has seen is the flag's, and the flag is set behind the last
append; whoever reports it has emptied the buffer. -/
structure Inv (s : ReadSide) : Prop where
  bytes : s.returnedBytes ++ s.inHand ++ s.readBuf = s.appended
  received : s.appended ++ s.readerHand = s.received
  len : s.lock.all Holder.settled → s.bufLen = s.readBuf.length
  emptied : ∀ h, s.lock = some h → h.emptied → s.readBuf = []
  ended : s.eof = true → s.reader = .done
  appending : ∀ h, s.lock = some h → h.afterAppend → s.reader = .appended
  called : ∀ maxBytes, .loaded maxBytes true ∈ s.calls → s.eof = true
  held : ∀ h, s.lock = some h → h.sawEof → s.eof = true
  returned : ∀ data, (data, true) ∈ s.returned → s.eof = true ∧ s.returnedBytes = s.received

variable {s t : ReadSide}

theorem start_inv : Inv start :=
  ⟨rfl, rfl, fun _ => rfl, nofun, nofun, nofun, nofun, nofun, nofun⟩

/-- At the end of the reader everything received is appended. -/
theorem Inv.received_eq_appended (h : Inv s) (heof : s.eof = true) : s.received = s.appended := by
  rw [← h.received, readerHand, h.ended heof]
  exact List.append_nil _

theorem Inv.lossless (h : Inv s) : Lossless s where
  bytes := h.bytes
  len hfree := h.len (by simp [hfree])
  eof data hmem := ⟨(h.returned data hmem).2, h.ended (h.returned data hmem).1⟩

/-- A reader that holds no bytes moves to where it holds none either. -/
theorem Inv.moveReader (h : Inv s) (heof : s.eof = false) {r : Reader}
    (hr : s.reader ≠ .appended) (hand : s.readerHand = [])
    (hand' : readerHand { s with reader := r } = []) : Inv { s with reader := r } where
  bytes := h.bytes
  received := by
    show s.appended ++ readerHand { s with reader := r } = s.received
    rw [hand', ← hand]
    exact h.received
  len := h.len
  emptied := h.emptied
  ended he := absurd (heof ▸ he) nofun
  appending k hk ha := absurd (h.appending k hk ha) hr
  called := h.called
  held := h.held
  returned := h.returned

/-- Before its end the reader has not set `eof`. -/
theorem Inv.eof_false (h : Inv s) (hr : s.reader ≠ .done) : s.eof = false := by
  cases he : s.eof with
  | false => rfl
  | true => exact absurd (h.ended he) hr

/-- A change to the waiting calls that brings in no unseen end of stream. -/
theorem Inv.setCalls (h : Inv s) {calls : List DrainCall}
    (hcalls : ∀ maxBytes, .loaded maxBytes true ∈ calls → s.eof = true) :
    Inv { s with calls := calls } :=
  ⟨h.bytes, h.received, h.len, h.emptied, h.ended, h.appending, hcalls, h.held, h.returned⟩

theorem gate_inv (h : Inv s) (hs : s.step .gate = some t) : Inv t := by
  obtain ⟨⟨hr, -⟩, rfl⟩ : (s.reader = .gate ∧ s.lock = none) ∧ _ = t := by
    simpa [step] using hs
  refine h.moveReader (h.eof_false (by simp [hr])) (by simp [hr]) (by simp [readerHand, hr]) ?_
  simp only [readerHand]
  split_ifs <;> rfl

theorem read_inv {bytes : List UInt8} (h : Inv s) (hs : s.step (.read bytes) = some t) : Inv t := by
  obtain ⟨⟨hr, -, -⟩, rfl⟩ : (s.reader = .reading ∧ 0 < bytes.length ∧ _) ∧ _ = t := by
    simpa [step] using hs
  have heof := h.eof_false (by simp [hr])
  have hrec : s.appended = s.received := by
    rw [← h.received, readerHand, hr]
    exact (List.append_nil _).symm
  refine ⟨h.bytes, ?_, h.len, h.emptied, ?_, ?_, h.called, h.held, ?_⟩
  · show s.appended ++ bytes = s.received ++ bytes
    rw [hrec]
  · exact fun he => absurd (heof ▸ he) nofun
  · exact fun k hk ha => absurd (h.appending k hk ha) (by simp [hr])
  · exact fun data hmem => absurd (heof ▸ (h.returned data hmem).1) nofun

theorem readEnd_inv (h : Inv s) (hs : s.step .readEnd = some t) : Inv t := by
  obtain ⟨hr, rfl⟩ : s.reader = .reading ∧ _ = t := by simpa [step] using hs
  exact h.moveReader (h.eof_false (by simp [hr])) (by simp [hr]) (by simp [readerHand, hr]) rfl

theorem setEof_inv (h : Inv s) (hs : s.step .setEof = some t) : Inv t := by
  obtain ⟨hr, rfl⟩ : s.reader = .ending ∧ _ = t := by simpa [step] using hs
  have heof := h.eof_false (by simp [hr])
  refine ⟨h.bytes, ?_, h.len, h.emptied, fun _ => rfl, ?_, fun _ _ => rfl, fun _ _ _ => rfl, ?_⟩
  · have hrec := h.received
    rw [readerHand, hr] at hrec
    exact hrec
  · exact fun k hk ha => absurd (h.appending k hk ha) (by simp [hr])
  · exact fun data hmem => absurd (heof ▸ (h.returned data hmem).1) nofun

theorem readerLock_inv (h : Inv s) (hs : s.step .readerLock = some t) : Inv t := by
  have hfree : s.lock = none ∧ t = { s with lock := some .readerLocked } := by
    cases hr : s.reader <;> cases hl : s.lock <;> simp_all [step]
  obtain ⟨hl, rfl⟩ := hfree
  have hb : s.returnedBytes ++ s.inHand ++ s.readBuf = s.appended := h.bytes
  rw [inHand_of_free hl] at hb
  refine ⟨hb, h.received, fun _ => h.len (by simp [hl]), ?_, h.ended, ?_, h.called, ?_, h.returned⟩
  · intro k hk hemp
    cases hk
    cases hemp
  · intro k hk ha
    cases hk
    cases ha
  · intro k hk hsaw
    cases hk
    cases hsaw

theorem load_inv {i : Nat} (h : Inv s) (hs : s.step (.load i) = some t) : Inv t := by
  simp only [step] at hs
  cases hc : s.calls[i]? with
  | none => simp [hc] at hs
  | some c =>
      cases c with
      | now maxBytes =>
          simp only [hc, Option.some.injEq] at hs
          subst hs
          refine h.setCalls fun m hm => ?_
          rcases List.mem_or_eq_of_mem_set hm with hm' | heq
          · exact h.called m hm'
          · exact (DrainCall.loaded.inj heq).2.symm
      | loaded maxBytes rawEof => simp [hc] at hs
      | polling => simp [hc] at hs
      | waiting => simp [hc] at hs

theorem poll_inv {i : Nat} {leave : Bool} (h : Inv s) (hs : s.step (.poll i leave) = some t) :
    Inv t := by
  have ht : ∃ c, (c = .waiting ∨ c = .polling) ∧ t = { s with calls := s.calls.set i c } := by
    simp only [step] at hs
    cases hl : s.lock <;> cases hc : s.calls[i]? <;> simp only [hl, hc, reduceCtorEq] at hs
    split at hs
    · cases hs
      refine ⟨_, ?_, rfl⟩
      split_ifs
      · exact .inl rfl
      · exact .inr rfl
    · cases hs
  obtain ⟨c, hc, rfl⟩ := ht
  refine h.setCalls fun m hm => ?_
  rcases List.mem_or_eq_of_mem_set hm with hm' | heq
  · exact h.called m hm'
  · rcases hc with rfl | rfl <;> cases heq

/-- A call gets the free lock; what it saw before is the flag's. -/
theorem Inv.takeLock (h : Inv s) (hfree : s.lock = none) {k : Holder} {calls : List DrainCall}
    (hcalls : ∀ c ∈ calls, c ∈ s.calls) (hemp : k.emptied = false) (happ : k.afterAppend = false)
    (hhand : inHand { s with lock := some k } = []) (hsaw : k.sawEof → s.eof = true) :
    Inv { s with lock := some k, calls := calls } := by
  have hb := h.bytes
  rw [inHand_of_free hfree] at hb
  refine ⟨?_, h.received, fun _ => h.len (by simp [hfree]), ?_, h.ended, ?_, ?_, ?_, h.returned⟩
  · show s.returnedBytes ++ inHand { s with lock := some k } ++ s.readBuf = s.appended
    rw [hhand]
    exact hb
  · intro k' hk hemp'
    cases hk
    rw [hemp] at hemp'
    cases hemp'
  · intro k' hk ha
    cases hk
    rw [happ] at ha
    cases ha
  · exact fun m hm => h.called m (hcalls _ hm)
  · intro k' hk
    cases hk
    exact hsaw

theorem acquire_inv {i : Nat} (h : Inv s) (hs : s.step (.acquire i) = some t) : Inv t := by
  simp only [step, acquireStep] at hs
  cases hl : s.lock with
  | some k => simp [hl] at hs
  | none =>
      have hsub : ∀ c ∈ s.calls.eraseIdx i, c ∈ s.calls := fun c => List.mem_of_mem_eraseIdx
      cases hc : s.calls[i]? with
      | none => simp [hl, hc] at hs
      | some c =>
          have hmem : c ∈ s.calls := List.mem_of_getElem? hc
          cases c with
          | now maxBytes => simp [hl, hc] at hs
          | polling => simp [hl, hc] at hs
          | loaded maxBytes rawEof =>
              simp only [hl, hc, Option.some.injEq] at hs
              subst hs
              refine h.takeLock hl hsub rfl rfl rfl fun hsaw => h.called maxBytes ?_
              have hraw : rawEof = true := hsaw
              exact hraw ▸ hmem
          | waiting =>
              simp only [hl, hc, Option.some.injEq] at hs
              subst hs
              exact h.takeLock hl hsub rfl rfl rfl nofun

/-! ## Under the lock -/

/-- The holder moves on without touching the buffer; `buf_len` may be stored. -/
theorem Inv.advance (h : Inv s) {k' : Holder} (len : Nat)
    (hhand : inHand { s with lock := some k' } = s.inHand)
    (hlen : k'.settled → len = s.readBuf.length) (hemp : k'.emptied → s.readBuf = [])
    (happ : k'.afterAppend → s.reader = .appended) (hsaw : k'.sawEof → s.eof = true) :
    Inv { s with lock := some k', bufLen := len } where
  bytes := by
    show s.returnedBytes ++ inHand { s with lock := some k' } ++ s.readBuf = s.appended
    rw [hhand]
    exact h.bytes
  received := h.received
  len hset := hlen hset
  emptied k'' hk'' he := hemp (Option.some.inj hk'' ▸ he)
  ended := h.ended
  appending k'' hk'' ha := happ (Option.some.inj hk'' ▸ ha)
  called := h.called
  held k'' hk'' hs := hsaw (Option.some.inj hk'' ▸ hs)
  returned := h.returned

/-- The holder takes the front of the buffer. -/
theorem Inv.takeFront (h : Inv s) {k' : Holder} (hnone : s.inHand = []) {data rest : List UInt8}
    (hsplit : s.readBuf = data ++ rest)
    (hhand : inHand { s with readBuf := rest, lock := some k' } = data)
    (hset : k'.settled = false) (happ : k'.afterAppend = false) (hemp : k'.emptied → rest = [])
    (hsaw : k'.sawEof → s.eof = true) :
    Inv { s with readBuf := rest, lock := some k' } where
  bytes := by
    have hb := h.bytes
    rw [hnone, List.append_nil, hsplit] at hb
    show s.returnedBytes ++ inHand { s with readBuf := rest, lock := some k' } ++ rest = s.appended
    rw [hhand, List.append_assoc]
    exact hb
  received := h.received
  len hs := by
    have hs' : k'.settled = true := hs
    rw [hset] at hs'
    cases hs'
  emptied k'' hk'' he := hemp (Option.some.inj hk'' ▸ he)
  ended := h.ended
  appending k'' hk'' ha := by
    rw [← Option.some.inj hk'', happ] at ha
    cases ha
  called := h.called
  held k'' hk'' hs := hsaw (Option.some.inj hk'' ▸ hs)
  returned := h.returned

theorem append_inv {bytes : List UInt8} (h : Inv s) (hk : s.lock = some .readerLocked)
    (hr : s.reader = .received bytes) :
    Inv { s with
      readBuf := s.readBuf ++ bytes
      appended := s.appended ++ bytes
      reader := .appended
      lock := some .readerExtended } := by
  have heof := h.eof_false (by simp [hr])
  have hb := h.bytes
  have hrec := h.received
  rw [inHand, hk, List.append_nil] at hb
  rw [readerHand, hr] at hrec
  refine ⟨?_, ?_, nofun, ?_, ?_, fun _ _ _ => rfl, h.called, ?_, h.returned⟩
  · show s.returnedBytes ++ [] ++ (s.readBuf ++ bytes) = s.appended ++ bytes
    rw [List.append_nil, ← List.append_assoc, hb]
  · show s.appended ++ bytes ++ [] = s.received
    rw [List.append_nil]
    exact hrec
  · rintro k hk' hemp
    cases hk'
    cases hemp
  · exact fun he => absurd (heof ▸ he) nofun
  · rintro k hk' hsaw
    cases hk'
    cases hsaw

/-- The lock goes back with the call's result. -/
theorem return_inv {data : List UInt8} {eof : Bool} (h : Inv s)
    (hk : s.lock = some (.drained data eof)) :
    Inv { s with lock := none, returned := s.returned ++ [(data, eof)] } := by
  have hb := h.bytes
  have hhand : s.inHand = data := by rw [inHand, hk]
  rw [hhand] at hb
  have hret : (s.returned ++ [(data, eof)]).flatMap Prod.fst = s.returnedBytes ++ data := by
    simp [returnedBytes]
  refine ⟨?_, h.received, fun _ => h.len (by simp [hk, Holder.settled]), nofun, h.ended, nofun,
    h.called, nofun, ?_⟩
  · show (s.returned ++ [(data, eof)]).flatMap Prod.fst ++ [] ++ s.readBuf = s.appended
    rw [hret, List.append_nil]
    exact hb
  · intro d hmem
    show s.eof = true ∧ (s.returned ++ [(data, eof)]).flatMap Prod.fst = s.received
    rw [hret]
    rcases List.mem_append.mp hmem with hold | hnew
    · -- the end was reported before: there was nothing left to take
      obtain ⟨he, hall⟩ := h.returned d hold
      refine ⟨he, ?_⟩
      have happ := h.received_eq_appended he
      have hnil : data ++ s.readBuf = [] := by
        rw [← happ, ← hall, List.append_assoc] at hb
        exact List.append_right_eq_self.mp hb
      rw [(List.append_eq_nil_iff.mp hnil).1, List.append_nil]
      exact hall
    · have heq : (d, true) = (data, eof) := List.mem_singleton.mp hnew
      have heof : eof = true := (congrArg Prod.snd heq).symm
      have he := h.held _ hk heof
      have hemp := h.emptied _ hk heof
      refine ⟨he, ?_⟩
      rw [h.received_eq_appended he, ← hb, hemp, List.append_nil]

theorem hold_inv (h : Inv s) (hs : s.step .hold = some t) : Inv t := by
  obtain ⟨k, hk, hstep⟩ := Option.bind_eq_some_iff.mp hs
  cases k with
  | readerLocked =>
      simp only [holdStep] at hstep
      cases hr : s.reader with
      | received bytes =>
          simp only [hr, Option.some.injEq] at hstep
          subst hstep
          exact append_inv h hk hr
      | _ => simp [hr] at hstep
  | readerExtended =>
      cases hstep
      exact h.advance _ (by simp [inHand, hk]) (fun _ => rfl) nofun
        (fun _ => h.appending _ hk rfl) nofun
  | readerStored =>
      -- the bytes are in the buffer, and the reader lets go of the lock
      cases hstep
      have hr := h.appending _ hk rfl
      have heof := h.eof_false (by simp [hr])
      have hb := h.bytes
      have hrec := h.received
      rw [inHand, hk] at hb
      rw [readerHand, hr] at hrec
      exact ⟨hb, hrec, fun _ => h.len (by simp [hk, Holder.settled]), nofun,
        fun he => absurd (heof ▸ he) nofun, nofun, h.called, nofun, h.returned⟩
  | nowLocked maxBytes rawEof =>
      have hsplit := System.drainNow_split s.readBuf rawEof maxBytes
      have hend := @System.drainNow_eof s.readBuf rawEof maxBytes
      simp only [holdStep, Option.some.injEq] at hstep
      subst hstep
      refine h.takeFront (by simp [inHand, hk]) hsplit rfl rfl rfl (fun he => (hend he).2) ?_
      exact fun he => h.held _ hk (hend he).1
  | nowTook data eof =>
      cases hstep
      exact h.advance _ (by simp [inHand, hk]) (fun _ => rfl) (fun he => h.emptied _ hk he) nofun
        (fun he => h.held _ hk he)
  | waitLocked =>
      cases hstep
      exact h.takeFront (by simp [inHand, hk]) (List.append_nil _).symm rfl rfl rfl
        (fun _ => rfl) nofun
  | waitTook data =>
      cases hstep
      exact h.advance _ (by simp [inHand, hk]) nofun (fun _ => h.emptied _ hk rfl) nofun id
  | waitLoaded data eof =>
      cases hstep
      have hemp := h.emptied _ hk rfl
      exact h.advance _ (by simp [inHand, hk]) (fun _ => by rw [hemp]; rfl) (fun _ => hemp) nofun
        (fun he => h.held _ hk he)
  | drained data eof =>
      cases hstep
      exact return_inv h hk

/-- **Every step keeps the invariant.** -/
theorem step_inv {e : Event} (h : Inv s) (hs : s.step e = some t) : Inv t := by
  cases e with
  | gate => exact gate_inv h hs
  | read bytes => exact read_inv h hs
  | readEnd => exact readEnd_inv h hs
  | readerLock => exact readerLock_inv h hs
  | setEof => exact setEof_inv h hs
  | callNow maxBytes =>
      cases hs
      exact h.setCalls fun m hm => h.called m (by simpa using hm)
  | callWait =>
      cases hs
      exact h.setCalls fun m hm => h.called m (by simpa using hm)
  | load i => exact load_inv h hs
  | poll i leave => exact poll_inv h hs
  | acquire i => exact acquire_inv h hs
  | hold => exact hold_inv h hs

/-- **The drains of a session lose nothing and return nothing twice**, in every state of every
interleaving of the reader's steps and those of any number of drain calls. -/
theorem drains_lossless (es : List Event) : StepRun.AllStates step Lossless start es :=
  StepRun.allStates_of_inv (fun _ _ _ => step_inv) (fun _ => Inv.lossless) start_inv es

end ReadSide

end Rahgozar.Tunnel
