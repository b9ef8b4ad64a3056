import Rahgozar.Lib.RecordStream

set_option autoImplicit false

/-! # The udpgw server (`tunnel-node/src/udpgw.rs`)

The in-process udpgw session receives a byte stream of frames

    LEN (2) | FLAGS (1) | CONN_ID (2) | ATYP (1) | DST.ADDR | DST.PORT (2) | DATA

with big-endian fields. `tryParseFrame` recognises one frame, `udpgwServerTask` is the read
loop around it. The loop makes one pass over its buffer per read and leaves the pass at a
malformed frame, so the frames it hands to `handle_frame` depend on the read boundaries;
`frames_independent_iff` says for which streams they do not.
-/

namespace Rahgozar.Udpgw

/-! ## `String::from_utf8_lossy` -/

/-- Length of the sequence a leading byte announces, `0` for a byte that cannot lead. -/
def utf8CharWidth (b : UInt8) : Nat :=
  if b.toNat < 0x80 then 1
  else if b.toNat < 0xC2 then 0
  else if b.toNat < 0xE0 then 2
  else if b.toNat < 0xF0 then 3
  else if b.toNat < 0xF5 then 4
  else 0

/-- `10xxxxxx` -/
def isContinuation (b : UInt8) : Bool := 0x80 ≤ b.toNat && b.toNat < 0xC0

/-- The second bytes that make neither an overlong form, nor a surrogate, nor a value above
`U+10FFFF`. -/
def validSecond (b0 b1 : UInt8) : Bool :=
  isContinuation b1 &&
    match b0.toNat with
    | 0xE0 => 0xA0 ≤ b1.toNat
    | 0xED => b1.toNat < 0xA0
    | 0xF0 => 0x90 ≤ b1.toNat
    | 0xF4 => b1.toNat < 0x90
    | _ => true

/-- `U+FFFD`, which stands for each maximal ill-formed piece. -/
def replacement : Char := Char.ofNat 0xFFFD

def fromUtf8Lossy : List UInt8 → List Char
  | [] => []
  | b0 :: r0 =>
      match utf8CharWidth b0, r0 with
      | 1, r0 => Char.ofNat b0.toNat :: fromUtf8Lossy r0
      | 2, b1 :: r1 =>
          if isContinuation b1 then
            Char.ofNat ((b0.toNat % 32) * 64 + b1.toNat % 64) :: fromUtf8Lossy r1
          else replacement :: fromUtf8Lossy (b1 :: r1)
      | 3, b1 :: b2 :: r2 =>
          if validSecond b0 b1 then
            if isContinuation b2 then
              Char.ofNat ((b0.toNat % 16) * 4096 + (b1.toNat % 64) * 64 + b2.toNat % 64)
                :: fromUtf8Lossy r2
            else replacement :: fromUtf8Lossy (b2 :: r2)
          else replacement :: fromUtf8Lossy (b1 :: b2 :: r2)
      | 3, [b1] => if validSecond b0 b1 then [replacement] else replacement :: fromUtf8Lossy [b1]
      | 4, b1 :: b2 :: b3 :: r3 =>
          if validSecond b0 b1 then
            if isContinuation b2 then
              if isContinuation b3 then
                Char.ofNat ((b0.toNat % 8) * 262144 + (b1.toNat % 64) * 4096
                  + (b2.toNat % 64) * 64 + b3.toNat % 64) :: fromUtf8Lossy r3
              else replacement :: fromUtf8Lossy (b3 :: r3)
            else replacement :: fromUtf8Lossy (b2 :: b3 :: r3)
          else replacement :: fromUtf8Lossy (b1 :: b2 :: b3 :: r3)
      | 4, [b1, b2] =>
          if validSecond b0 b1 then
            if isContinuation b2 then [replacement] else replacement :: fromUtf8Lossy [b2]
          else replacement :: fromUtf8Lossy [b1, b2]
      | 4, [b1] => if validSecond b0 b1 then [replacement] else replacement :: fromUtf8Lossy [b1]
      | _, r0 => replacement :: fromUtf8Lossy r0

/-! ## Frames -/

def flagData : UInt8 := 0x02

def atypIpv4 : UInt8 := 0x01
def atypDomain : UInt8 := 0x03
def atypIpv6 : UInt8 := 0x04

inductive DstAddr where
  | v4 (ip : UInt8 × UInt8 × UInt8 × UInt8) (port : UInt16)
  | v6 (ip : { octets : List UInt8 // octets.length = 16 }) (port : UInt16)
  | domain (name : List Char) (port : UInt16)
deriving DecidableEq

structure Frame where
  flags : UInt8
  connId : UInt16
  addr : Option DstAddr
  payload : List UInt8
deriving DecidableEq

/-- `u16::from_be_bytes` -/
def u16FromBeBytes (hi lo : UInt8) : UInt16 := UInt16.ofNat (hi.toNat * 256 + lo.toNat)

/-- `{:02x}` -/
def hexByte (b : UInt8) : String :=
  String.ofList [Nat.digitChar (b.toNat / 16), Nat.digitChar (b.toNat % 16)]

/-- The SOCKS5-style address at the start of `rest`, and where the payload starts. -/
def parseAddr (rest : List UInt8) : Except String (DstAddr × Nat) :=
  match rest with
  | [] => .error "missing ATYP"
  | atyp :: _ =>
      if atyp = atypIpv4 then
        match rest with
        | _ :: a :: b :: c :: d :: p0 :: p1 :: _ => .ok (.v4 (a, b, c, d) (u16FromBeBytes p0 p1), 7)
        | _ => .error "short IPv4 addr"
      else if atyp = atypIpv6 then
        if h : rest.length < 1 + 16 + 2 then .error "short IPv6 addr"
        else
          .ok (.v6 ⟨(rest.drop 1).take 16, by simp only [List.length_take, List.length_drop]; omega⟩
            (u16FromBeBytes (rest.getD 17 0) (rest.getD 18 0)), 19)
      else if atyp = atypDomain then
        if rest.length < 2 then .error "short domain addr"
        else
          let dlen := (rest.getD 1 0).toNat
          if rest.length < 2 + dlen + 2 then .error "short domain addr"
          else
            .ok (.domain (fromUtf8Lossy ((rest.drop 2).take dlen))
              (u16FromBeBytes (rest.getD (2 + dlen) 0) (rest.getD (3 + dlen) 0)), 2 + dlen + 2)
      else .error ("unknown ATYP 0x" ++ hexByte atyp)

/-- A frame from its body, the declared number of bytes after the length field. -/
def parseBody (body : List UInt8) : Except String Frame :=
  match body with
  | flags :: c0 :: c1 :: rest =>
      if flags &&& flagData ≠ 0 then
        match parseAddr rest with
        | .error e => .error e
        | .ok (addr, start) => .ok ⟨flags, u16FromBeBytes c0 c1, some addr, rest.drop start⟩
      else .ok ⟨flags, u16FromBeBytes c0 c1, none, rest⟩
  | _ => .error "frame too short"

/-- The length of the frame that starts the buffer, length field included, once its length
field has arrived. -/
def declaredLen : List UInt8 → Option Nat
  | b0 :: b1 :: _ => some (2 + (b0.toNat * 256 + b1.toNat))
  | _ => none

/-- One frame from the buffer with the bytes it used; `ok none` when no complete frame is
there yet. -/
def tryParseFrame (buf : List UInt8) : Except String (Option (Frame × Nat)) :=
  match declaredLen buf with
  | none => .ok none
  | some total =>
      if buf.length < total then .ok none
      else
        match parseBody ((buf.take total).drop 2) with
        | .error e => .error e
        | .ok frame => .ok (some (frame, total))

/-! ## The read loop -/

def bufMax : Nat := 65536 * 4

/-- The inner loop of `udpgw_server_task`: the frames handed to `handle_frame` and the buffer
left. Every round but the last takes at least two bytes, so `buf.length` rounds suffice. -/
def parseLoop : Nat → List UInt8 → List Frame × List UInt8
  | 0, buf => ([], buf)
  | fuel + 1, buf =>
      match tryParseFrame buf with
      | .ok (some (frame, consumed)) =>
          (frame :: (parseLoop fuel (buf.drop consumed)).1, (parseLoop fuel (buf.drop consumed)).2)
      | .ok none => if bufMax ≤ buf.length then ([], []) else ([], buf)
      | .error _ =>
          -- `break`: the rest of the buffer waits for the next read
          match declaredLen buf with
          | some skip => ([], buf.drop (min skip buf.length))
          | none => ([], [])

/-- The frames handed to `handle_frame` when the duplex stream delivers `reads` and then ends.
A read of zero bytes is the end of the stream. -/
def serverLoop (buf : List UInt8) : List (List UInt8) → List Frame
  | [] => []
  | r :: rs =>
      if r.isEmpty then []
      else
        (parseLoop (buf ++ r).length (buf ++ r)).1
          ++ serverLoop (parseLoop (buf ++ r).length (buf ++ r)).2 rs

def udpgwServerTask (reads : List (List UInt8)) : List Frame := serverLoop [] reads

/-- The read loop's `tmp` buffer. -/
def readMax : Nat := 65536

/-! ## Frames as records -/

theorem declaredLen_append {buf : List UInt8} {n : Nat} (x : List UInt8)
    (h : declaredLen buf = some n) : declaredLen (buf ++ x) = some n := by
  match buf, h with
  | b0 :: b1 :: rest, h => exact h

theorem declaredLen_bounds {buf : List UInt8} {n : Nat} (h : declaredLen buf = some n) :
    2 ≤ n ∧ n ≤ 65537 ∧ 2 ≤ buf.length := by
  match buf, h with
  | b0 :: b1 :: rest, h =>
      have h0 := b0.toNat_lt
      have h1 := b1.toNat_lt
      simp only [declaredLen, Option.some.injEq] at h
      simp only [List.length_cons]
      omega

theorem declaredLen_of_append {buf x : List UInt8} {n : Nat}
    (h : declaredLen (buf ++ x) = some n) (hn : n ≤ buf.length) : declaredLen buf = some n := by
  have h2 := (declaredLen_bounds h).1
  match buf, h with
  | [], _ => simp at hn; omega
  | [b0], _ => simp at hn; omega
  | b0 :: b1 :: rest, h => exact h

/-- A frame is a record that ends where its length field says; a frame that does not parse is
a malformed record. -/
def frameCutter : RecordStream.Cutter UInt8 Frame where
  cut buf :=
    match declaredLen buf with
    | none => none
    | some total =>
        if buf.length < total then none
        else some ((parseBody ((buf.take total).drop 2)).toOption, total)
  pos {b r n} h := by
    cases hd : declaredLen b with
    | none => simp [hd] at h
    | some t =>
        have := declaredLen_bounds hd
        simp only [hd] at h
        split at h <;> simp at h
        omega
  le {b r n} h := by
    cases hd : declaredLen b with
    | none => simp [hd] at h
    | some t =>
        simp only [hd] at h
        split at h <;> simp at h
        omega
  stable {b r n} x h := by
    cases hd : declaredLen b with
    | none => simp [hd] at h
    | some t =>
        simp only [hd] at h
        split at h
        · simp at h
        · rename_i hlen
          rw [declaredLen_append x hd]
          simp only [Option.some.injEq, Prod.mk.injEq] at h
          obtain ⟨rfl, rfl⟩ := h
          simp only [List.length_append]
          rw [if_neg (by omega), List.take_append_of_le_length (by omega)]
  «local» {b r n} x h hn := by
    cases hd : declaredLen (b ++ x) with
    | none => simp [hd] at h
    | some t =>
        simp only [hd] at h
        split at h
        · simp at h
        · simp only [Option.some.injEq, Prod.mk.injEq] at h
          obtain ⟨rfl, rfl⟩ := h
          rw [declaredLen_of_append hd hn]
          simp only
          rw [if_neg (by omega), List.take_append_of_le_length hn]

/-- A pass of the read loop is a pass over the records: the overflow rule never fires, since a
buffer without a complete frame is shorter than one frame. -/
theorem parseLoop_eq_drainPass (fuel : Nat) (buf : List UInt8) :
    parseLoop fuel buf = RecordStream.drainPass frameCutter fuel buf := by
  induction fuel generalizing buf with
  | zero => rfl
  | succ fuel ih =>
      rw [parseLoop, RecordStream.drainPass]
      cases hd : declaredLen buf with
      | none =>
          -- without a length field there is one byte at most
          have hshort : ¬ bufMax ≤ buf.length := by
            rcases buf with _ | ⟨b, _ | ⟨b', rest⟩⟩
            · decide
            · simp [bufMax]
            · cases hd
          simp [tryParseFrame, frameCutter, hd, hshort]
      | some t =>
          have hb := declaredLen_bounds hd
          by_cases hlen : buf.length < t
          · -- an incomplete frame is shorter than 65537 bytes
            have hshort : ¬ bufMax ≤ buf.length := by simp only [bufMax]; omega
            simp [tryParseFrame, frameCutter, hd, hlen, hshort]
          · -- the frame is there, so the skip by its declared length stays within the buffer
            have hmin : min t buf.length = t := by omega
            simp only [tryParseFrame, frameCutter, hd, hlen, if_false]
            cases parseBody ((buf.take t).drop 2) with
            | error e => simp [hmin, Except.toOption]
            | ok f => simp only [Except.toOption, ih]; rfl

theorem serverLoop_eq_drainReads (reads : List (List UInt8)) (h : ∀ r ∈ reads, 0 < r.length)
    (buf : List UInt8) :
    serverLoop buf reads = RecordStream.drainReads frameCutter buf reads := by
  induction reads generalizing buf with
  | nil => rfl
  | cons r rs ih =>
      have hr : r.isEmpty = false := by
        have := h r List.mem_cons_self
        cases r with
        | nil => simp at this
        | cons a r => rfl
      rw [serverLoop, RecordStream.drainReads, hr, parseLoop_eq_drainPass]
      simp only [Bool.false_eq_true, if_false]
      rw [ih (fun x hx => h x (List.mem_cons_of_mem _ hx))]

/-! ## Independence of the read boundaries -/

/-- The frames of a stream by their declared lengths, with the offset at which each ends;
`none` is a malformed frame. -/
def framesOf (s : List UInt8) : List (Option Frame × Nat) :=
  RecordStream.recordsFrom frameCutter 0 s

/-- After each malformed frame with a well-formed frame somewhere behind it, the stream goes
on for one full read per such malformed frame from it on. -/
def ResyncSlack (s : List UInt8) : Prop :=
  RecordStream.Covered (fun stop => (s.length - stop) / readMax) (framesOf s)

/-- **Exactly the streams with `ResyncSlack` are parsed alike by all splittings into non-empty
reads of at most 65536 bytes.** -/
theorem frames_independent_iff (s : List UInt8) :
    (∀ r₁ r₂, RecordStream.IsSplit readMax s r₁ → RecordStream.IsSplit readMax s r₂ →
        udpgwServerTask r₁ = udpgwServerTask r₂)
      ↔ ResyncSlack s := by
  rw [ResyncSlack, framesOf, ← RecordStream.forall_splits_iff frameCutter (by decide) s]
  constructor
  · intro h r₁ r₂ h₁ h₂
    rw [← serverLoop_eq_drainReads r₁ h₁.pos, ← serverLoop_eq_drainReads r₂ h₂.pos]
    exact h r₁ r₂ h₁ h₂
  · intro h r₁ r₂ h₁ h₂
    rw [udpgwServerTask, udpgwServerTask, serverLoop_eq_drainReads r₁ h₁.pos,
      serverLoop_eq_drainReads r₂ h₂.pos]
    exact h r₁ r₂ h₁ h₂

/-- An empty frame (`00 00`, too short to be one) and a keepalive frame behind it: in one read
the keepalive is never looked at, in two reads it is handled. -/
theorem frames_depend_on_reads :
    ¬ ∀ (s : List UInt8) (r₁ r₂ : List (List UInt8)),
        RecordStream.IsSplit readMax s r₁ → RecordStream.IsSplit readMax s r₂ →
        udpgwServerTask r₁ = udpgwServerTask r₂ := by
  intro h
  have hone : RecordStream.IsSplit readMax ([0, 0, 0, 3, 1, 0, 7] : List UInt8)
      [[0, 0, 0, 3, 1, 0, 7]] := ⟨rfl, by decide, by decide⟩
  have htwo : RecordStream.IsSplit readMax ([0, 0, 0, 3, 1, 0, 7] : List UInt8)
      [[0, 0], [0, 3, 1, 0, 7]] := ⟨rfl, by decide, by decide⟩
  have heq := h _ _ _ hone htwo
  have hfst : udpgwServerTask [[0, 0, 0, 3, 1, 0, 7]] = [] := by decide
  have hsnd : udpgwServerTask [[0, 0], [0, 3, 1, 0, 7]] = [⟨1, 7, none, []⟩] := by decide
  rw [hfst, hsnd] at heq
  cases heq

end Rahgozar.Udpgw
