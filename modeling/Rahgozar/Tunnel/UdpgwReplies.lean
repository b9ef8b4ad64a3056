import Mathlib.Data.List.GetD
import Rahgozar.Lib.BigEndian
import Rahgozar.Tunnel.Udpgw

set_option autoImplicit false

/-! # The replies of the udpgw server

A datagram that comes back is put into a frame with the address of the request, as the parser left
it. A domain was read with `from_utf8_lossy`, which turns a byte that is not UTF-8 into three; when
it is written again its length is cut to one byte.
-/

namespace Rahgozar.Udpgw

/-- The longest datagram. -/
def udpMtu : Nat := 10240

/-- `name.as_bytes()`. -/
def nameBytes (name : List Char) : List UInt8 := name.flatMap String.utf8EncodeChar

def DstAddr.writeTo : DstAddr → List UInt8
  | .v4 (a, b, c, d) port => atypIpv4 :: a :: b :: c :: d :: BigEndian.put 2 port.toNat
  | .v6 ip port => atypIpv6 :: (ip.val ++ BigEndian.put 2 port.toNat)
  | .domain name port =>
      atypDomain :: UInt8.ofNat (nameBytes name).length ::
        (nameBytes name ++ BigEndian.put 2 port.toNat)

def DstAddr.serialisedLen : DstAddr → Nat
  | .v4 _ _ => 1 + 4 + 2
  | .v6 _ _ => 1 + 16 + 2
  | .domain name _ => 1 + 1 + (nameBytes name).length + 2

def serialiseFrame (frame : Frame) : List UInt8 :=
  let addrLen := frame.addr.elim 0 DstAddr.serialisedLen
  let bodyLen := 1 + 2 + addrLen + frame.payload.length
  BigEndian.put 2 bodyLen ++ frame.flags :: (BigEndian.put 2 frame.connId.toNat ++
    (frame.addr.elim [] DstAddr.writeTo ++ frame.payload))

/-- The frame for a datagram that comes back. -/
def reply (connId : UInt16) (addr : DstAddr) (payload : List UInt8) : Frame :=
  ⟨flagData, connId, some addr, payload⟩

/-- The name has a length that its byte can say. -/
def DstAddr.NameFits : DstAddr → Prop
  | .domain name _ => (nameBytes name).length ≤ 255
  | _ => True

/-! ## Names -/

theorem validSecond_iff (b0 b1 : UInt8) :
    validSecond b0 b1 = true ↔ isContinuation b1 = true ∧
      (b0.toNat = 0xE0 → 0xA0 ≤ b1.toNat) ∧ (b0.toNat = 0xED → b1.toNat < 0xA0) ∧
      (b0.toNat = 0xF0 → 0x90 ≤ b1.toNat) ∧ (b0.toNat = 0xF4 → b1.toNat < 0x90) := by
  rw [validSecond, Bool.and_eq_true]
  apply and_congr_right
  intro _
  split
  · rename_i h
    simp [h]
  · rename_i h
    simp [h]
  · rename_i h
    simp [h]
  · rename_i h
    simp [h]
  · rename_i h1 h2 h3 h4
    simp only [true_iff]
    exact ⟨fun h => absurd h h1, fun h => absurd h h2, fun h => absurd h h3,
      fun h => absurd h h4⟩

theorem isContinuation_ofNat (n : Nat) : isContinuation (UInt8.ofNat (n % 64 + 128)) = true := by
  have hn : (UInt8.ofNat (n % 64 + 128)).toNat = (n % 64 + 128) % 256 := UInt8.toNat_ofNat
  rw [isContinuation, hn]
  simp only [Bool.and_eq_true, decide_eq_true_eq]
  omega

theorem toNat_ofNat_of_lt {n : Nat} (h : n < 256) : (UInt8.ofNat n).toNat = n := by
  have hn : (UInt8.ofNat n).toNat = n % 256 := UInt8.toNat_ofNat
  rw [hn, Nat.mod_eq_of_lt h]

/-- The scalar values. -/
theorem toNat_bounds (c : Char) : c.toNat < 0xD800 ∨ 0xDFFF < c.toNat ∧ c.toNat < 0x110000 :=
  c.valid

section Sequences

variable {b0 b1 b2 b3 : UInt8}

theorem fromUtf8Lossy_cons (b0 : UInt8) (r0 : List UInt8) :
    fromUtf8Lossy (b0 :: r0) =
      match utf8CharWidth b0, r0 with
      | 1, r0 => Char.ofNat b0.toNat :: fromUtf8Lossy r0
      | 2, b1 :: r1 =>
          if isContinuation b1 then
            Char.ofNat ((b0.toNat % 32) * 64 + b1.toNat % 64) :: fromUtf8Lossy r1
          else replacement :: fromUtf8Lossy (b1 :: r1)
      | 3, b1 :: b2 :: r2 =>
          if validSecond b0 b1 then
            if isContinuation b2 then
              Char.ofNat ((b0.toNat % 16) * 4096 + (b1.toNat % 64) * 64 + b2.toNat % 64)
                :: fromUtf8Lossy r2
            else replacement :: fromUtf8Lossy (b2 :: r2)
          else replacement :: fromUtf8Lossy (b1 :: b2 :: r2)
      | 3, [b1] => if validSecond b0 b1 then [replacement] else replacement :: fromUtf8Lossy [b1]
      | 4, b1 :: b2 :: b3 :: r3 =>
          if validSecond b0 b1 then
            if isContinuation b2 then
              if isContinuation b3 then
                Char.ofNat ((b0.toNat % 8) * 262144 + (b1.toNat % 64) * 4096
                  + (b2.toNat % 64) * 64 + b3.toNat % 64) :: fromUtf8Lossy r3
              else replacement :: fromUtf8Lossy (b3 :: r3)
            else replacement :: fromUtf8Lossy (b2 :: b3 :: r3)
          else replacement :: fromUtf8Lossy (b1 :: b2 :: b3 :: r3)
      | 4, [b1, b2] =>
          if validSecond b0 b1 then
            if isContinuation b2 then [replacement] else replacement :: fromUtf8Lossy [b2]
          else replacement :: fromUtf8Lossy [b1, b2]
      | 4, [b1] => if validSecond b0 b1 then [replacement] else replacement :: fromUtf8Lossy [b1]
      | _, r0 => replacement :: fromUtf8Lossy r0 :=
  fromUtf8Lossy.eq_def (b0 :: r0)

theorem fromUtf8Lossy_one (hwidth : utf8CharWidth b0 = 1) (rest : List UInt8) :
    fromUtf8Lossy (b0 :: rest) = Char.ofNat b0.toNat :: fromUtf8Lossy rest := by
  rw [fromUtf8Lossy_cons, hwidth]
  rfl

theorem fromUtf8Lossy_two (hwidth : utf8CharWidth b0 = 2) (h1 : isContinuation b1 = true)
    (rest : List UInt8) :
    fromUtf8Lossy (b0 :: b1 :: rest) =
      Char.ofNat ((b0.toNat % 32) * 64 + b1.toNat % 64) :: fromUtf8Lossy rest := by
  rw [fromUtf8Lossy_cons, hwidth]
  exact if_pos h1

theorem fromUtf8Lossy_three (hwidth : utf8CharWidth b0 = 3) (h1 : validSecond b0 b1 = true)
    (h2 : isContinuation b2 = true) (rest : List UInt8) :
    fromUtf8Lossy (b0 :: b1 :: b2 :: rest) =
      Char.ofNat ((b0.toNat % 16) * 4096 + (b1.toNat % 64) * 64 + b2.toNat % 64) ::
        fromUtf8Lossy rest := by
  rw [fromUtf8Lossy_cons, hwidth]
  exact (if_pos h1).trans (if_pos h2)

theorem fromUtf8Lossy_four (hwidth : utf8CharWidth b0 = 4) (h1 : validSecond b0 b1 = true)
    (h2 : isContinuation b2 = true) (h3 : isContinuation b3 = true) (rest : List UInt8) :
    fromUtf8Lossy (b0 :: b1 :: b2 :: b3 :: rest) =
      Char.ofNat ((b0.toNat % 8) * 262144 + (b1.toNat % 64) * 4096 + (b2.toNat % 64) * 64 +
        b3.toNat % 64) :: fromUtf8Lossy rest := by
  rw [fromUtf8Lossy_cons, hwidth]
  exact (if_pos h1).trans ((if_pos h2).trans (if_pos h3))

end Sequences

/-- The bytes of a character, and how they are read. -/
theorem encode_cases (c : Char) :
    (∃ b0, String.utf8EncodeChar c = [b0] ∧ utf8CharWidth b0 = 1 ∧ Char.ofNat b0.toNat = c) ∨
    (∃ b0 b1, String.utf8EncodeChar c = [b0, b1] ∧ utf8CharWidth b0 = 2 ∧
      isContinuation b1 = true ∧ Char.ofNat ((b0.toNat % 32) * 64 + b1.toNat % 64) = c) ∨
    (∃ b0 b1 b2, String.utf8EncodeChar c = [b0, b1, b2] ∧ utf8CharWidth b0 = 3 ∧
      validSecond b0 b1 = true ∧ isContinuation b2 = true ∧
      Char.ofNat ((b0.toNat % 16) * 4096 + (b1.toNat % 64) * 64 + b2.toNat % 64) = c) ∨
    ∃ b0 b1 b2 b3, String.utf8EncodeChar c = [b0, b1, b2, b3] ∧ utf8CharWidth b0 = 4 ∧
      validSecond b0 b1 = true ∧ isContinuation b2 = true ∧ isContinuation b3 = true ∧
      Char.ofNat ((b0.toNat % 8) * 262144 + (b1.toNat % 64) * 4096 + (b2.toNat % 64) * 64 +
        b3.toNat % 64) = c := by
  have hchar : Char.ofNat c.toNat = c := Char.ofNat_toNat c
  have hvalid := toNat_bounds c
  have henc : String.utf8EncodeChar c =
      if c.toNat ≤ 0x7f then [UInt8.ofNat c.toNat]
      else if c.toNat ≤ 0x7ff then
        [UInt8.ofNat (c.toNat / 64 % 0x20 + 0xc0), UInt8.ofNat (c.toNat % 0x40 + 0x80)]
      else if c.toNat ≤ 0xffff then
        [UInt8.ofNat (c.toNat / 4096 % 0x10 + 0xe0), UInt8.ofNat (c.toNat / 64 % 0x40 + 0x80),
          UInt8.ofNat (c.toNat % 0x40 + 0x80)]
      else
        [UInt8.ofNat (c.toNat / 262144 % 0x08 + 0xf0), UInt8.ofNat (c.toNat / 4096 % 0x40 + 0x80),
          UInt8.ofNat (c.toNat / 64 % 0x40 + 0x80), UInt8.ofNat (c.toNat % 0x40 + 0x80)] := rfl
  generalize c.toNat = v at hchar hvalid henc
  rw [henc]
  -- the bytes behind the first are the same in every form that has them
  have h3 := toNat_ofNat_of_lt (n := v % 64 + 128) (by omega)
  have h2 := toNat_ofNat_of_lt (n := v / 64 % 64 + 128) (by omega)
  have h1 := toNat_ofNat_of_lt (n := v / 4096 % 64 + 128) (by omega)
  by_cases hone : v ≤ 0x7f
  · have h0 := toNat_ofNat_of_lt (n := v) (by omega)
    refine Or.inl ⟨_, if_pos hone, ?_, by rw [h0, hchar]⟩
    rw [utf8CharWidth, h0, if_pos (by omega)]
  rw [if_neg hone]
  by_cases htwo : v ≤ 0x7ff
  · have h0 := toNat_ofNat_of_lt (n := v / 64 % 32 + 192) (by omega)
    have hvalue : (v / 64 % 32 + 192) % 32 * 64 + (v % 64 + 128) % 64 = v := by omega
    refine Or.inr (Or.inl ⟨_, _, if_pos htwo, ?_, isContinuation_ofNat v, ?_⟩)
    · rw [utf8CharWidth, h0, if_neg (by omega), if_neg (by omega), if_pos (by omega)]
    · rw [h0, h3, hvalue, hchar]
  rw [if_neg htwo]
  by_cases hthree : v ≤ 0xffff
  · have h0 := toNat_ofNat_of_lt (n := v / 4096 % 16 + 224) (by omega)
    have hvalue : (v / 4096 % 16 + 224) % 16 * 4096 + (v / 64 % 64 + 128) % 64 * 64 +
        (v % 64 + 128) % 64 = v := by omega
    refine Or.inr (Or.inr (Or.inl ⟨_, _, _, if_pos hthree, ?_, ?_, isContinuation_ofNat v, ?_⟩))
    · rw [utf8CharWidth, h0, if_neg (by omega), if_neg (by omega), if_neg (by omega),
        if_pos (by omega)]
    · -- neither overlong nor a surrogate
      rw [validSecond_iff, h0, h2]
      exact ⟨isContinuation_ofNat _, by omega, by omega, by omega, by omega⟩
    · rw [h0, h2, h3, hvalue, hchar]
  rw [if_neg hthree]
  have h0 := toNat_ofNat_of_lt (n := v / 262144 % 8 + 240) (by omega)
  have hvalue : (v / 262144 % 8 + 240) % 8 * 262144 + (v / 4096 % 64 + 128) % 64 * 4096 +
      (v / 64 % 64 + 128) % 64 * 64 + (v % 64 + 128) % 64 = v := by omega
  refine Or.inr (Or.inr (Or.inr ⟨_, _, _, _, rfl, ?_, ?_, isContinuation_ofNat _,
    isContinuation_ofNat v, ?_⟩))
  · rw [utf8CharWidth, h0, if_neg (by omega), if_neg (by omega), if_neg (by omega),
      if_neg (by omega), if_pos (by omega)]
  · rw [validSecond_iff, h0, h1]
    exact ⟨isContinuation_ofNat _, by omega, by omega, by omega, by omega⟩
  · rw [h0, h1, h2, h3, hvalue, hchar]

theorem fromUtf8Lossy_encode (c : Char) (rest : List UInt8) :
    fromUtf8Lossy (String.utf8EncodeChar c ++ rest) = c :: fromUtf8Lossy rest := by
  rcases encode_cases c with ⟨b0, henc, hwidth, hc⟩ | ⟨b0, b1, henc, hwidth, h1, hc⟩ |
    ⟨b0, b1, b2, henc, hwidth, h1, h2, hc⟩ | ⟨b0, b1, b2, b3, henc, hwidth, h1, h2, h3, hc⟩
  · rw [henc, List.singleton_append, fromUtf8Lossy_one hwidth, hc]
  · rw [henc, List.cons_append, List.singleton_append, fromUtf8Lossy_two hwidth h1, hc]
  · rw [henc, List.cons_append, List.cons_append, List.singleton_append,
      fromUtf8Lossy_three hwidth h1 h2, hc]
  · rw [henc, List.cons_append, List.cons_append, List.cons_append, List.singleton_append,
      fromUtf8Lossy_four hwidth h1 h2 h3, hc]

/-- What was written as UTF-8 is read as it is. -/
theorem fromUtf8Lossy_nameBytes (name : List Char) : fromUtf8Lossy (nameBytes name) = name := by
  induction name with
  | nil => rfl
  | cons c name ih =>
      rw [nameBytes, List.flatMap_cons, fromUtf8Lossy_encode]
      exact congrArg (c :: ·) ih

theorem length_nameBytes_cons (c : Char) (name : List Char) :
    (nameBytes (c :: name)).length = c.utf8Size + (nameBytes name).length := by
  rw [nameBytes, List.flatMap_cons, List.length_append, String.length_utf8EncodeChar]
  rfl

theorem length_cons_le {c : Char} {name : List Char} {k m n : Nat}
    (hname : (nameBytes name).length ≤ 3 * k) (hc : c.utf8Size ≤ 3 * m) (hn : m + k ≤ n) :
    (nameBytes (c :: name)).length ≤ 3 * n := by
  rw [length_nameBytes_cons]
  omega

/-- A byte that is not UTF-8 becomes three. -/
theorem length_fromUtf8Lossy (bytes : List UInt8) :
    (nameBytes (fromUtf8Lossy bytes)).length ≤ 3 * bytes.length := by
  have hreplacement : replacement.utf8Size ≤ 3 * 1 := by decide
  have hchar : ∀ c : Char, c.utf8Size ≤ 3 * 2 := fun c => (Char.utf8Size_le_four c).trans (by omega)
  have hnil : (nameBytes []).length ≤ 3 * 0 := Nat.le_refl 0
  fun_induction fromUtf8Lossy bytes with
  | case1 => exact hnil
  | case2 b0 r0 hwidth ih =>
      have hb0 : b0.toNat < 0x80 := by
        unfold utf8CharWidth at hwidth
        by_contra hb0
        rw [if_neg hb0] at hwidth
        split_ifs at hwidth <;> cases hwidth
      have hone : ∀ n : Fin 128, (Char.ofNat n).utf8Size ≤ 3 * 1 := by decide
      exact length_cons_le ih (hone ⟨b0.toNat, hb0⟩) (by simp; omega)
  | case3 b0 b1 r1 _ _ ih => exact length_cons_le ih (hchar _) (by simp; omega)
  | case5 b0 b1 b2 r2 _ _ _ ih => exact length_cons_le ih (hchar _) (by simp; omega)
  | case10 b0 b1 b2 b3 r3 _ _ _ _ ih => exact length_cons_le ih (hchar _) (by simp; omega)
  -- what is ill-formed takes a byte or more
  | case8 => exact length_cons_le hnil hreplacement (by simp)
  | case14 => exact length_cons_le hnil hreplacement (by simp)
  | case17 => exact length_cons_le hnil hreplacement (by simp)
  | _ => exact length_cons_le (by assumption) hreplacement (by simp <;> omega)

/-! ## Frames -/

theorem put_two (n : Nat) : BigEndian.put 2 n = [UInt8.ofNat (n / 256), UInt8.ofNat n] := rfl

theorem u16FromBeBytes_put (port : UInt16) :
    u16FromBeBytes (UInt8.ofNat (port.toNat / 256)) (UInt8.ofNat port.toNat) = port := by
  have hport : port.toNat < 65536 := port.toNat_lt
  have hhigh := toNat_ofNat_of_lt (n := port.toNat / 256) (by omega)
  have hlow : (UInt8.ofNat port.toNat).toNat = port.toNat % 256 := UInt8.toNat_ofNat
  have hsum : port.toNat / 256 * 256 + port.toNat % 256 = port.toNat := by omega
  rw [u16FromBeBytes, hhigh, hlow, hsum, UInt16.ofNat_toNat]

theorem declaredLen_put {n : Nat} (hn : n < 65536) (rest : List UInt8) :
    declaredLen (BigEndian.put 2 n ++ rest) = some (2 + n) := by
  have hhigh := toNat_ofNat_of_lt (n := n / 256) (by omega)
  have hlow : (UInt8.ofNat n).toNat = n % 256 := UInt8.toNat_ofNat
  have hsum : n / 256 * 256 + n % 256 = n := by omega
  rw [put_two]
  show some (2 + ((UInt8.ofNat (n / 256)).toNat * 256 + (UInt8.ofNat n).toNat)) = some (2 + n)
  rw [hhigh, hlow, hsum]

/-- A frame behind its length, whatever follows it. -/
theorem tryParseFrame_put {body : List UInt8} (hbody : body.length < 65536) (rest : List UInt8) :
    tryParseFrame (BigEndian.put 2 body.length ++ body ++ rest) =
      (parseBody body).map fun frame => some (frame, 2 + body.length) := by
  have hput : (BigEndian.put 2 body.length).length = 2 := BigEndian.length_put 2 _
  have hlen : (BigEndian.put 2 body.length ++ body).length = 2 + body.length := by
    rw [List.length_append, hput]
  have hroom : ¬ (BigEndian.put 2 body.length ++ body ++ rest).length < 2 + body.length := by
    rw [List.length_append, hlen]
    omega
  have htake : (BigEndian.put 2 body.length ++ body ++ rest).take (2 + body.length) =
      BigEndian.put 2 body.length ++ body := List.take_left' hlen
  rw [tryParseFrame, List.append_assoc, declaredLen_put hbody, ← List.append_assoc]
  dsimp only
  rw [if_neg hroom, htake, List.drop_left' hput]
  cases parseBody body <;> rfl

theorem length_writeTo (addr : DstAddr) : addr.writeTo.length = addr.serialisedLen := by
  cases addr with
  | v4 ip port => rfl
  | v6 ip port =>
      have hip := ip.property
      simp [DstAddr.writeTo, DstAddr.serialisedLen, hip]
  | domain name port =>
      simp [DstAddr.writeTo, DstAddr.serialisedLen]
      omega

/-! ## Addresses -/

theorem parseAddr_v6 (ip : { octets : List UInt8 // octets.length = 16 }) (p0 p1 : UInt8)
    (rest : List UInt8) :
    parseAddr (atypIpv6 :: (ip.val ++ p0 :: p1 :: rest)) =
      .ok (.v6 ip (u16FromBeBytes p0 p1), 19) := by
  obtain ⟨octets, hoctets⟩ := ip
  have hv4 : atypIpv6 ≠ atypIpv4 := by decide
  have hroom : ¬ (atypIpv6 :: (octets ++ p0 :: p1 :: rest)).length < 1 + 16 + 2 := by
    simp only [List.length_cons, List.length_append, hoctets]
    omega
  have htake : ((atypIpv6 :: (octets ++ p0 :: p1 :: rest)).drop 1).take 16 = octets :=
    List.take_left' hoctets
  have hfirst : (atypIpv6 :: (octets ++ p0 :: p1 :: rest)).getD 17 0 = p0 := by
    rw [List.getD_cons_succ, List.getD_append_right _ _ _ _ hoctets.le, hoctets]
    rfl
  have hsecond : (atypIpv6 :: (octets ++ p0 :: p1 :: rest)).getD 18 0 = p1 := by
    rw [List.getD_cons_succ, List.getD_append_right _ _ _ _ (hoctets.le.trans (by omega)), hoctets]
    rfl
  rw [parseAddr, if_neg hv4, if_pos rfl, dif_neg hroom, hfirst, hsecond]
  simp only [htake]

theorem parseAddr_domain {dlen : UInt8} {bytes : List UInt8} (h : dlen.toNat + 2 ≤ bytes.length) :
    parseAddr (atypDomain :: dlen :: bytes) =
      .ok (.domain (fromUtf8Lossy (bytes.take dlen.toNat))
        (u16FromBeBytes (bytes.getD dlen.toNat 0) (bytes.getD (dlen.toNat + 1) 0)),
        2 + dlen.toNat + 2) := by
  have hv4 : atypDomain ≠ atypIpv4 := by decide
  have hv6 : atypDomain ≠ atypIpv6 := by decide
  have htwo : ¬ (atypDomain :: dlen :: bytes).length < 2 := by simp
  have hroom : ¬ (atypDomain :: dlen :: bytes).length < 2 + dlen.toNat + 2 := by
    simp only [List.length_cons]
    omega
  have hfirst : 2 + dlen.toNat = dlen.toNat + 1 + 1 := by omega
  have hsecond : 3 + dlen.toNat = dlen.toNat + 1 + 1 + 1 := by omega
  rw [parseAddr, if_neg hv4, if_neg hv6, if_pos rfl, if_neg htwo]
  show (if (atypDomain :: dlen :: bytes).length < 2 + dlen.toNat + 2 then
    Except.error "short domain addr" else _) = _
  rw [if_neg hroom]
  simp only [List.getD_cons_succ, List.getD_cons_zero, hfirst, hsecond, List.drop_succ_cons,
    List.drop_zero]

/-- The length byte of a name is what decides where the name ends. -/
theorem parseAddr_writeTo_domain (name : List Char) (port : UInt16) (rest : List UInt8) :
    ∃ name' port', parseAddr ((DstAddr.domain name port).writeTo ++ rest) =
      .ok (.domain name' port', 2 + (nameBytes name).length % 256 + 2) := by
  have hdlen : (UInt8.ofNat (nameBytes name).length).toNat = (nameBytes name).length % 256 :=
    UInt8.toNat_ofNat
  have hroom : (UInt8.ofNat (nameBytes name).length).toNat + 2 ≤
      (nameBytes name ++ BigEndian.put 2 port.toNat ++ rest).length := by
    rw [hdlen, List.length_append, List.length_append, BigEndian.length_put]
    omega
  have hparse := parseAddr_domain hroom
  rw [hdlen] at hparse
  exact ⟨_, _, hparse⟩

/-- An address is read back from what was written of it. -/
theorem parseAddr_writeTo {addr : DstAddr} (h : addr.NameFits) (rest : List UInt8) :
    parseAddr (addr.writeTo ++ rest) = .ok (addr, addr.serialisedLen) := by
  cases addr with
  | v4 ip port =>
      show Except.ok (DstAddr.v4 ip (u16FromBeBytes _ _), 7) = _
      rw [u16FromBeBytes_put]
      rfl
  | v6 ip port =>
      have hput : ip.val ++ BigEndian.put 2 port.toNat ++ rest =
          ip.val ++ UInt8.ofNat (port.toNat / 256) :: UInt8.ofNat port.toNat :: rest := by
        rw [List.append_assoc]
        rfl
      show parseAddr (atypIpv6 :: (ip.val ++ BigEndian.put 2 port.toNat ++ rest)) = _
      rw [hput, parseAddr_v6, u16FromBeBytes_put]
      rfl
  | domain name port =>
      have hdlen : (UInt8.ofNat (nameBytes name).length).toNat = (nameBytes name).length :=
        toNat_ofNat_of_lt (Nat.lt_succ_of_le h)
      have hroom : (UInt8.ofNat (nameBytes name).length).toNat + 2 ≤
          (nameBytes name ++ BigEndian.put 2 port.toNat ++ rest).length := by
        rw [hdlen, List.length_append, List.length_append, BigEndian.length_put]
        omega
      have htake : (nameBytes name ++ BigEndian.put 2 port.toNat ++ rest).take
          (nameBytes name).length = nameBytes name := by
        rw [List.append_assoc, List.take_left]
      have hfirst : (nameBytes name ++ BigEndian.put 2 port.toNat ++ rest).getD
          (nameBytes name).length 0 = UInt8.ofNat (port.toNat / 256) := by
        rw [List.append_assoc, List.getD_append_right _ _ _ _ (Nat.le_refl _), Nat.sub_self]
        rfl
      have hsecond : (nameBytes name ++ BigEndian.put 2 port.toNat ++ rest).getD
          ((nameBytes name).length + 1) 0 = UInt8.ofNat port.toNat := by
        rw [List.append_assoc, List.getD_append_right _ _ _ _ (Nat.le_add_right _ 1),
          Nat.add_sub_cancel_left]
        rfl
      refine (parseAddr_domain hroom).trans ?_
      rw [hdlen, htake, hfirst, hsecond, fromUtf8Lossy_nameBytes, u16FromBeBytes_put]
      simp only [DstAddr.serialisedLen]

/-- The name of a request is read from 255 bytes at most. -/
theorem serialisedLen_of_parseAddr {rest : List UInt8} {addr : DstAddr} {start : Nat}
    (h : parseAddr rest = .ok (addr, start)) : addr.serialisedLen ≤ 1 + 1 + 3 * 255 + 2 := by
  cases addr with
  | v4 ip port => exact Nat.le_of_ble_eq_true rfl
  | v6 ip port => exact Nat.le_of_ble_eq_true rfl
  | domain name port =>
      rcases rest with _ | ⟨atyp, rest⟩
      · cases h
      rw [parseAddr] at h
      dsimp only at h
      -- only the last branch gives a domain
      split_ifs at h
      · split at h <;> cases h
      · cases h
      · cases h
        have hdlen := UInt8.toNat_lt ((atyp :: rest).getD 1 0)
        have hname := length_fromUtf8Lossy
          (((atyp :: rest).drop 2).take ((atyp :: rest).getD 1 0).toNat)
        have htake := List.length_take_le ((atyp :: rest).getD 1 0).toNat ((atyp :: rest).drop 2)
        rw [DstAddr.serialisedLen]
        omega

theorem serialisedLen_of_tryParseFrame {req : List UInt8} {frame : Frame} {consumed : Nat}
    {addr : DstAddr} (hreq : tryParseFrame req = .ok (some (frame, consumed)))
    (haddr : frame.addr = some addr) : addr.serialisedLen ≤ 1 + 1 + 3 * 255 + 2 := by
  have hbody : ∃ body, parseBody body = .ok frame := by
    unfold tryParseFrame at hreq
    split at hreq
    · cases hreq
    · split at hreq
      · cases hreq
      · split at hreq
        · cases hreq
        · rename_i f hf
          cases hreq
          exact ⟨_, hf⟩
  obtain ⟨body, hbody⟩ := hbody
  unfold parseBody at hbody
  split at hbody
  · split_ifs at hbody
    · split at hbody
      · cases hbody
      · rename_i parsed start hparse
        cases hbody
        cases haddr
        exact serialisedLen_of_parseAddr hparse
    · cases hbody
      cases haddr
  · cases hbody

/-! ## Replies -/

/-- The body of a reply. -/
def replyBody (connId : UInt16) (addr : DstAddr) (payload : List UInt8) : List UInt8 :=
  flagData :: (BigEndian.put 2 connId.toNat ++ (addr.writeTo ++ payload))

theorem length_replyBody (connId : UInt16) (addr : DstAddr) (payload : List UInt8) :
    (replyBody connId addr payload).length = 1 + 2 + addr.serialisedLen + payload.length := by
  rw [replyBody, List.length_cons, List.length_append, List.length_append, BigEndian.length_put,
    length_writeTo]
  omega

theorem serialiseFrame_reply (connId : UInt16) (addr : DstAddr) (payload : List UInt8) :
    serialiseFrame (reply connId addr payload) =
      BigEndian.put 2 (replyBody connId addr payload).length ++
        replyBody connId addr payload := by
  rw [length_replyBody]
  rfl

theorem parseBody_replyBody (connId : UInt16) (addr : DstAddr) (payload : List UInt8) :
    parseBody (replyBody connId addr payload) =
      (parseAddr (addr.writeTo ++ payload)).map fun parsed =>
        reply connId parsed.1 ((addr.writeTo ++ payload).drop parsed.2) := by
  have hdata : flagData &&& flagData ≠ 0 := by decide
  rw [replyBody, put_two, List.cons_append, List.cons_append, List.nil_append, parseBody,
    if_pos hdata, u16FromBeBytes_put]
  cases parseAddr (addr.writeTo ++ payload) <;> rfl

theorem tryParseFrame_reply {connId : UInt16} {addr : DstAddr} {payload : List UInt8}
    (hlen : (replyBody connId addr payload).length < 65536) (rest : List UInt8) :
    tryParseFrame (serialiseFrame (reply connId addr payload) ++ rest) =
      (parseAddr (addr.writeTo ++ payload)).map fun parsed =>
        some (reply connId parsed.1 ((addr.writeTo ++ payload).drop parsed.2),
          (serialiseFrame (reply connId addr payload)).length) := by
  have htotal : (serialiseFrame (reply connId addr payload)).length =
      2 + (replyBody connId addr payload).length := by
    rw [serialiseFrame_reply, List.length_append, BigEndian.length_put]
  rw [htotal, serialiseFrame_reply, tryParseFrame_put hlen, parseBody_replyBody]
  cases parseAddr (addr.writeTo ++ payload) <;> rfl

/-- A name that does not fit moves bytes into the payload. -/
theorem tryParseFrame_reply_iff {connId : UInt16} {addr : DstAddr} {payload : List UInt8}
    (hlen : (replyBody connId addr payload).length < 65536) (rest : List UInt8) :
    tryParseFrame (serialiseFrame (reply connId addr payload) ++ rest) =
        .ok (some (reply connId addr payload,
          (serialiseFrame (reply connId addr payload)).length)) ↔
      addr.NameFits := by
  rw [tryParseFrame_reply hlen]
  constructor
  · intro hsame
    cases addr with
    | v4 ip port => trivial
    | v6 ip port => trivial
    | domain name port =>
        obtain ⟨name', port', hparse⟩ := parseAddr_writeTo_domain name port payload
        rw [hparse] at hsame
        have hpayload : (((DstAddr.domain name port).writeTo ++ payload).drop
            (2 + (nameBytes name).length % 256 + 2)).length = payload.length := by
          have hframe := congrArg
            (fun r => r.toOption.join.elim 0 fun f => f.1.payload.length) hsame
          exact hframe
        rw [List.length_drop, List.length_append, length_writeTo, DstAddr.serialisedLen] at hpayload
        have hfits : (nameBytes name).length % 256 = (nameBytes name).length := by omega
        show (nameBytes name).length ≤ 255
        omega
  · intro hfits
    have hdrop : (addr.writeTo ++ payload).drop addr.serialisedLen = payload :=
      List.drop_left' (length_writeTo addr)
    rw [parseAddr_writeTo hfits]
    show Except.ok (some (reply connId addr ((addr.writeTo ++ payload).drop addr.serialisedLen), _))
      = _
    rw [hdrop]

/-- **The reply to a request is read back as it is, whatever follows it, if and only if the name
of the request, as the parser left it, has at most 255 bytes.** -/
theorem reply_parsed_iff {req : List UInt8} {frame : Frame} {consumed : Nat} {addr : DstAddr}
    {payload : List UInt8} (hreq : tryParseFrame req = .ok (some (frame, consumed)))
    (haddr : frame.addr = some addr) (hpayload : payload.length ≤ udpMtu) (rest : List UInt8) :
    tryParseFrame (serialiseFrame (reply frame.connId addr payload) ++ rest) =
        .ok (some (reply frame.connId addr payload,
          (serialiseFrame (reply frame.connId addr payload)).length)) ↔
      addr.NameFits := by
  have haddrLen := serialisedLen_of_tryParseFrame hreq haddr
  have hlen : (replyBody frame.connId addr payload).length < 65536 := by
    rw [length_replyBody]
    unfold udpMtu at hpayload
    omega
  exact tryParseFrame_reply_iff hlen rest

theorem reply_parsed_ipv4 :
    tryParseFrame [0, 10, flagData, 0, 1, atypIpv4, 1, 2, 3, 4, 0, 80] =
        .ok (some (⟨flagData, 1, some (.v4 (1, 2, 3, 4) 80), []⟩, 12)) ∧
      tryParseFrame (serialiseFrame (reply 1 (.v4 (1, 2, 3, 4) 80) [7]) ++ [9]) =
        .ok (some (reply 1 (.v4 (1, 2, 3, 4) 80) [7],
          (serialiseFrame (reply 1 (.v4 (1, 2, 3, 4) 80) [7])).length)) := by
  have hreq : tryParseFrame [0, 10, flagData, 0, 1, atypIpv4, 1, 2, 3, 4, 0, 80] =
      .ok (some (⟨flagData, 1, some (.v4 (1, 2, 3, 4) 80), []⟩, 12)) := by decide
  have hpayload : [(7 : UInt8)].length ≤ udpMtu := by decide
  exact ⟨hreq, (reply_parsed_iff hreq rfl hpayload [9]).mpr trivial⟩

/-- 86 bytes that no UTF-8 text contains are a name of 258 bytes. -/
def badNameRequest : List UInt8 :=
  [0, 93, flagData, 0, 1, atypDomain, 86] ++ List.replicate 86 0xFF ++ [0, 80]

/-- The name in the reply ends after two bytes. -/
theorem bad_name_reply :
    tryParseFrame badNameRequest =
        .ok (some (⟨flagData, 1, some (.domain (List.replicate 86 replacement) 80), []⟩, 95)) ∧
      tryParseFrame (serialiseFrame (reply 1 (.domain (List.replicate 86 replacement) 80) []) ++ [])
        ≠ .ok (some (reply 1 (.domain (List.replicate 86 replacement) 80) [],
          (serialiseFrame (reply 1 (.domain (List.replicate 86 replacement) 80) [])).length)) := by
  decide +kernel

end Rahgozar.Udpgw
