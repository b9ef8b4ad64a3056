import Rahgozar.Drive.RelayPubkey

set_option autoImplicit false

/-! # What `ConfigStore.kt` computes for the relay's public key

Its checksum is that of Bech32m, its regrouping of bits gives the complete bytes when the bits
behind them are zeros, and its ladder over `BigInteger` is X25519.
-/

namespace Rahgozar.Drive

open Rahgozar.Config (Text)
open BitBuffer (Holds value)
open Curve25519 (F a24)
open Montgomery (Climb Rungs)

/-! ## The checksum -/

theorem polymod_pass (top x : ℕ) :
    (List.range 5).foldl (fun chk i =>
        if (top >>> i) &&& 1 ≠ 0 then chk ^^^ driveRelayBech32Generators.getD i 0 else chk) x =
      x ^^^ Bech32.feedback top := by
  rw [← Bech32.foldl_feedback]
  have hbit : ∀ i, (top >>> i) &&& 1 ≠ 0 ↔ top.testBit i = true := by
    intro i
    rw [Nat.testBit, Nat.and_comm, bne_iff_ne]
  simp only [hbit]
  rfl

theorem driveRelayBech32Polymod_eq (values : List ℕ) :
    driveRelayBech32Polymod values = Bech32.polymod values := by
  rw [driveRelayBech32Polymod, Bech32.polymod]
  congr 1
  funext chk v
  exact polymod_pass (chk >>> 25) _

theorem driveRelayBech32mChecksumValid_iff (hrp : Text) (values : List ℕ) :
    driveRelayBech32mChecksumValid hrp values = true ↔ Bech32.Verifies hrp values := by
  rw [driveRelayBech32mChecksumValid, beq_iff_eq, driveRelayBech32Polymod_eq, Bech32.Verifies,
    Bech32.hrpExpand, List.append_assoc, List.append_assoc, List.append_assoc]
  rfl

/-! ## The regrouping of bits -/

theorem emitDigits_of_lt {acc bits : ℕ} {out : List ℕ} (h : bits < 8) :
    emitDigits 8 255 acc bits out = (bits, out) := by
  rw [emitDigits, if_neg (by omega)]

theorem emitDigits_of_le {acc bits : ℕ} {out : List ℕ} (h : bits < 8) :
    emitDigits 8 255 acc (bits + 8) out = (bits, out ++ [acc / 2 ^ bits % 2 ^ 8]) := by
  rw [emitDigits, if_pos (by omega), Nat.add_sub_cancel, emitDigits_of_lt h,
    Nat.shiftRight_eq_div_pow, show 255 = 2 ^ 8 - 1 from rfl, Nat.and_two_pow_sub_one_eq_mod]

/-- A value of five bits goes into the accumulator. -/
theorem accumulate (acc : ℕ) {v : ℕ} (hv : v < 2 ^ 5) :
    (acc <<< 5 ||| v) &&& 4095 = (acc * 2 ^ 5 + v) % 2 ^ 12 := by
  rw [show 4095 = 2 ^ 12 - 1 from rfl, Nat.and_two_pow_sub_one_eq_mod,
    ← Nat.shiftLeft_add_eq_or_of_lt hv, Nat.shiftLeft_eq]

theorem convertLoop_spec {data fed out : List ℕ} {acc bits : ℕ} (hdata : ∀ v ∈ data, v < 32)
    (hbits : bits < 8) (hout : ∀ d ∈ out, d < 256) (h : Holds 5 8 fed out acc bits) :
    ∃ acc' bits' out', convertLoop 5 8 255 4095 acc bits out data = some (acc', bits', out') ∧
      bits' < 8 ∧ (∀ d ∈ out', d < 256) ∧ Holds 5 8 (fed ++ data) out' acc' bits' := by
  induction data generalizing fed out acc bits with
  | nil => exact ⟨acc, bits, out, rfl, hbits, hout, by rwa [List.append_nil]⟩
  | cons v data ih =>
      rw [List.forall_mem_cons] at hdata
      have hv : v >>> 5 = 0 := by
        rw [Nat.shiftRight_eq_div_pow, Nat.div_eq_of_lt hdata.1]
      have hfeed : Holds 5 8 (fed ++ [v]) out ((acc * 2 ^ 5 + v) % 2 ^ 12) (bits + 5) :=
        h.feed hdata.1 (by omega)
      rw [convertLoop, if_neg (not_not.mpr hv), accumulate acc hdata.1, List.append_cons]
      dsimp only
      by_cases hfull : bits + 5 < 8
      · rw [emitDigits_of_lt hfull]
        exact ih hdata.2 hfull hout hfeed
      · obtain ⟨left, hleft⟩ : ∃ left, bits + 5 = left + 8 := ⟨bits + 5 - 8, by omega⟩
        rw [hleft] at hfeed
        rw [hleft, emitDigits_of_le (by omega)]
        apply ih hdata.2 (by omega) _ hfeed.emit
        intro d hd
        rcases List.mem_append.mp hd with hold | hnew
        · exact hout d hold
        · rw [List.mem_singleton.mp hnew]
          exact Nat.mod_lt _ (by decide)

theorem leftover_eq_zero_iff {acc bits : ℕ} (h : bits ≤ 8) :
    (acc <<< (8 - bits)) &&& 255 = 0 ↔ acc % 2 ^ bits = 0 := by
  have hsplit : 2 ^ 8 = 2 ^ bits * 2 ^ (8 - bits) := by
    rw [← Nat.pow_add, Nat.add_sub_cancel' h]
  rw [show 255 = 2 ^ 8 - 1 from rfl, Nat.and_two_pow_sub_one_eq_mod, Nat.shiftLeft_eq, hsplit,
    Nat.mul_mod_mul_right, Nat.mul_eq_zero, or_iff_left (Nat.two_pow_pos _).ne']

/-- What has come out is the complete bytes, and what is left is the padding. -/
theorem split_of_holds {data out : List ℕ} {acc bits : ℕ} (hbits : bits < 8)
    (hout : ∀ d ∈ out, d < 256) (h : Holds 5 8 data out acc bits) :
    5 * data.length % 8 = bits ∧ Bech32.padding data = acc % 2 ^ bits ∧
      (Bech32.bytesOf data).map UInt8.toNat = out := by
  have hlen := h.length
  have hmod : 5 * data.length % 8 = bits := by omega
  have hdiv : 5 * data.length / 8 = out.length := by omega
  have hlow : acc % 2 ^ bits < 2 ^ bits := Nat.mod_lt _ (Nat.two_pow_pos _)
  have hvalue : value 32 data = value 256 out * 2 ^ bits + acc % 2 ^ bits := h.value
  refine ⟨hmod, ?_, ?_⟩
  · rw [Bech32.padding, hmod, hvalue, Nat.mul_add_mod', Nat.mod_eq_of_lt hlow]
  · have hquot : (value 256 out * 2 ^ bits + acc % 2 ^ bits) / 2 ^ bits = value 256 out := by
      rw [Nat.mul_comm, Nat.mul_add_div (Nat.two_pow_pos _), Nat.div_eq_of_lt hlow, Nat.add_zero]
    apply BitBuffer.value_inj (show 1 < 256 by decide)
    · rw [List.length_map, Bech32.length_bytesOf, hdiv]
    · intro d hd
      obtain ⟨b, -, rfl⟩ := List.mem_map.mp hd
      exact b.toNat_lt
    · exact hout
    · rw [Bech32.value_map_toNat, Bech32.bytesOf, hmod, hvalue, hquot, hdiv]
      exact BigEndian.get_put_of_lt (BitBuffer.value_lt (by decide) hout)

/-- The complete bytes, unless five bits or a bit that is set are left behind them. -/
theorem driveRelayConvertBits_eq {data : List ℕ} (hdata : ∀ v ∈ data, v < 32) :
    driveRelayConvertBits data 5 8 false =
      if 5 ≤ 5 * data.length % 8 ∨ Bech32.padding data ≠ 0 then none
      else some ((Bech32.bytesOf data).map UInt8.toNat) := by
  obtain ⟨acc, bits, out, hloop, hbits, hout, hholds⟩ :=
    convertLoop_spec hdata (by decide) (fun _ hd => absurd hd List.not_mem_nil) (Holds.start 5 8)
  rw [List.nil_append] at hholds
  obtain ⟨hmod, hpad, hbytes⟩ := split_of_holds hbits hout hholds
  have hloop' : convertLoop 5 8 (1 <<< 8 - 1) (1 <<< (5 + 8 - 1) - 1) 0 0 [] data =
      some (acc, bits, out) := hloop
  have hleft : (acc <<< (8 - bits)) &&& (1 <<< 8 - 1) = 0 ↔ acc % 2 ^ bits = 0 :=
    leftover_eq_zero_iff hbits.le
  simp only [driveRelayConvertBits, hloop', Option.bind_eq_bind, Option.bind_some, hmod, hpad,
    hbytes, ne_eq, hleft, Bool.false_eq_true, if_false]

/-! ## X25519 -/

theorem driveX25519P_eq : driveX25519P = (Curve25519.p : ℤ) := by
  norm_num [driveX25519P, Curve25519.p]

theorem cast_driveRelayMod (v : ℤ) : ((driveRelayMod v : ℤ) : F) = v := by
  rw [driveRelayMod, driveX25519P_eq]
  exact ZMod.intCast_mod v Curve25519.p

theorem cast_driveRelaySquare (v : ℤ) : ((driveRelaySquare v : ℤ) : F) = v ^ 2 := by
  rw [driveRelaySquare, cast_driveRelayMod, Int.cast_mul, sq]

/-- A number that is reduced. -/
def Reduced (v : ℤ) : Prop := 0 ≤ v ∧ v < Curve25519.p

theorem reduced_driveRelayMod (v : ℤ) : Reduced (driveRelayMod v) := by
  rw [driveRelayMod, driveX25519P_eq]
  have hpos : (0 : ℤ) < Curve25519.p := by norm_num [Curve25519.p]
  exact ⟨Int.emod_nonneg v hpos.ne', Int.emod_lt_of_pos v hpos⟩

/-- The registers hold the numbers of a climb. -/
structure Registers.Holds (r : Registers) (c : Climb F) : Prop where
  x2 : (r.x2 : F) = c.rungs.low.X
  z2 : (r.z2 : F) = c.rungs.low.Z
  x3 : (r.x3 : F) = c.rungs.high.X
  z3 : (r.z3 : F) = c.rungs.high.Z
  swap : r.swap = c.swapped.toNat
  z2_reduced : Reduced r.z2
  z3_reduced : Reduced r.z3

theorem Registers.Holds.exchange {r : Registers} {c : Climb F} (h : r.Holds c) :
    r.exchange.Holds ⟨⟨c.rungs.high, c.rungs.low⟩, c.swapped⟩ :=
  ⟨h.x3, h.z3, h.x2, h.z2, h.swap, h.z3_reduced, h.z2_reduced⟩

theorem Registers.Holds.exchange_if {r : Registers} {c : Climb F} (h : r.Holds c) {b : Bool}
    {n : ℕ} (hn : n = b.toNat) :
    (if n ≠ 0 then r.exchange else r).Holds ⟨c.rungs.swap b, c.swapped⟩ := by
  subst hn
  cases b with
  | false => exact h
  | true => exact h.exchange

theorem Registers.Holds.pass {r : Registers} {c : Climb F} {x1 : ℤ} (h : r.Holds c) (kt : Bool) :
    (r.pass x1 kt.toNat).Holds (c.next a24 x1 kt) := by
  have hxor : r.swap ^^^ kt.toNat = (c.swapped ^^ kt).toNat := by
    rw [h.swap]
    cases c.swapped <;> cases kt <;> rfl
  have hx := h.exchange_if hxor
  unfold Registers.pass
  generalize (if r.swap ^^^ kt.toNat ≠ 0 then r.exchange else r) = r' at hx
  have ha24 : ((driveX25519A24 : ℤ) : F) = a24 := by rfl
  refine ⟨?_, ?_, ?_, ?_, rfl, reduced_driveRelayMod _, reduced_driveRelayMod _⟩
  all_goals
    simp only [cast_driveRelayMod, cast_driveRelaySquare, Int.cast_mul, Int.cast_add, Int.cast_sub,
      ha24, hx.x2, hx.z2, hx.x3, hx.z3, Climb.next, Rungs.step, Montgomery.double,
      Montgomery.diffAdd]

theorem Registers.Holds.foldl (x1 : ℤ) (bits : List Bool) {r : Registers} {c : Climb F}
    (h : r.Holds c) :
    ((bits.map Bool.toNat).foldl (Registers.pass x1) r).Holds
      (bits.foldl (Climb.next a24 x1) c) := by
  induction bits generalizing r c with
  | nil => exact h
  | cons b bits ih => exact ih (h.pass b)

theorem Registers.Holds.start (x1 : ℤ) : Registers.Holds ⟨1, 0, x1, 1, 0⟩ (Climb.start (x1 : F)) :=
  have hpos : (1 : ℤ) < Curve25519.p := by norm_num [Curve25519.p]
  ⟨Int.cast_one, Int.cast_zero, rfl, Int.cast_one, rfl, ⟨le_rfl, zero_lt_one.trans hpos⟩,
    ⟨zero_le_one, hpos⟩⟩

/-! ## Bytes -/

theorem copyOf32_eq {bytes : List UInt8} (h : bytes.length = 32) : copyOf32 bytes = bytes := by
  rw [copyOf32, List.take_left' h]

theorem driveRelayScalarBit_eq (scalar : List UInt8) (t : ℕ) :
    driveRelayScalarBit scalar t = ((Curve25519.littleEndian scalar).testBit t).toNat := by
  rw [driveRelayScalarBit, Curve25519.littleEndian, BigEndian.testBit_get_reverse,
    Nat.toNat_testBit, Nat.and_one_is_mod, Nat.shiftRight_eq_div_pow]

theorem lt_toByteArray (n : ℕ) : n < 256 ^ (toByteArray n).length := by
  rw [toByteArray, BigEndian.length_put]
  by_cases hn : n = 0
  · rw [hn]
    decide
  · rw [if_neg hn]
    calc n < 2 ^ (n.log2 + 1) := Nat.lt_log2_self
      _ ≤ 2 ^ (8 * ((n.log2 + 1) / 8 + 1)) := Nat.pow_le_pow_right (by decide) (by omega)
      _ = 256 ^ ((n.log2 + 1) / 8 + 1) := by rw [show 256 = 2 ^ 8 from rfl, ← Nat.pow_mul]

theorem driveRelayBigIntegerToLittleEndian_eq (n : ℕ) :
    driveRelayBigIntegerToLittleEndian n = Curve25519.toBytes n := by
  rw [Curve25519.toBytes, BigEndian.reverse_put, driveRelayBigIntegerToLittleEndian,
    Int.toNat_natCast]
  apply List.map_congr_left
  intro i _
  have hlt := lt_toByteArray n
  by_cases hi : i < (toByteArray n).length
  · have hbyte : (toByteArray n).reverse[i]? = some (UInt8.ofNat (n / 256 ^ i)) := by
      rw [toByteArray, BigEndian.length_put] at hi
      rw [toByteArray, BigEndian.reverse_put, List.getElem?_map, List.getElem?_range hi,
        Option.map_some]
    rw [List.getElem?_reverse hi] at hbyte
    rw [if_pos hi, List.getD_eq_getElem?_getD, hbyte, Option.getD_some]
  · have hzero : n / 256 ^ i = 0 :=
      Nat.div_eq_of_lt (hlt.trans_le (Nat.pow_le_pow_right (by decide) (not_lt.mp hi)))
    rw [if_neg hi, hzero]
    rfl

/-- `modInverse` is the inverse of the field. -/
theorem cast_modInverse {z : ℤ} (hz : (z : F) ≠ 0) :
    ((modInverse z driveX25519P : ℤ) : F) = (z : F)⁻¹ := by
  have hndvd : ¬(Curve25519.p : ℤ) ∣ z := by
    rwa [← ZMod.intCast_zmod_eq_zero_iff_dvd]
  have hgcd : Int.gcd z Curve25519.p = 1 := by
    have hcop := (Nat.Prime.coprime_iff_not_dvd Curve25519.prime_p).mpr
      (fun h => hndvd (Int.natCast_dvd.mpr h))
    exact hcop.symm
  have hbezout := Int.gcd_eq_gcd_ab z Curve25519.p
  rw [hgcd] at hbezout
  have hone : (z : F) * (Int.gcdA z Curve25519.p : F) = 1 := by
    have hcast := congrArg (Int.cast : ℤ → F) hbezout
    push_cast at hcast
    rw [ZMod.natCast_self, zero_mul, add_zero] at hcast
    exact hcast.symm
  rw [modInverse, driveX25519P_eq, ZMod.intCast_mod]
  exact eq_inv_of_mul_eq_one_right hone

theorem Reduced.eq_val {v : ℤ} (h : Reduced v) : v = ((v : F).val : ℤ) := by
  rw [ZMod.val_intCast, Int.emod_eq_of_lt h.1 h.2]

theorem foldl_pass (scalar : List UInt8) (x1 : ℤ) (r : Registers) :
    (List.range 255).reverse.foldl
        (fun r t => Registers.pass x1 r (driveRelayScalarBit scalar t)) r =
      ((Bits.bits 255 (Curve25519.littleEndian scalar)).map Bool.toNat).foldl
        (Registers.pass x1) r := by
  rw [Bits.bits_eq, List.foldl_map, List.foldl_map]
  congr 1
  funext r t
  rw [driveRelayScalarBit_eq]

/-- What the function makes of the fraction. -/
theorem Registers.Holds.quotient {r : Registers} {c : Climb F} (h : r.Holds c) :
    (if r.z2 = 0 then 0 else driveRelayMod (r.x2 * modInverse r.z2 driveX25519P)) =
      ((c.rungs.low.X * (c.rungs.low.Z)⁻¹ : F).val : ℤ) := by
  by_cases hz : r.z2 = 0
  · have hZ : c.rungs.low.Z = 0 := by rw [← h.z2, hz, Int.cast_zero]
    rw [if_pos hz, hZ, inv_zero, mul_zero, ZMod.val_zero]
    rfl
  · have hne : (r.z2 : F) ≠ 0 := by
      intro h0
      apply hz
      rw [h.z2_reduced.eq_val, h0, ZMod.val_zero]
      rfl
    have hred : Reduced (driveRelayMod (r.x2 * modInverse r.z2 driveX25519P)) :=
      reduced_driveRelayMod _
    rw [if_neg hz, hred.eq_val, cast_driveRelayMod, Int.cast_mul, cast_modInverse hne, h.x2, h.z2]

/-- **The ladder of `ConfigStore.kt` is X25519.** -/
theorem driveRelayX25519_eq {scalar publicKey : List UInt8} (hs : scalar.length = 32)
    (hp : publicKey.length = 32) :
    driveRelayX25519 scalar publicKey = Curve25519.x25519 scalar publicKey := by
  unfold driveRelayX25519 Curve25519.x25519
  rw [copyOf32_eq hs, copyOf32_eq hp]
  dsimp only
  have hx1 : ((driveRelayLittleEndianToBigInteger (publicKey.modify 31 (· &&& 127)) : ℤ) : F) =
      Curve25519.decodeCoordinate publicKey := Int.cast_natCast _
  rw [foldl_pass, Curve25519.power_eq_inv, ← driveRelayBigIntegerToLittleEndian_eq, ← hx1]
  generalize driveRelayLittleEndianToBigInteger (publicKey.modify 31 (· &&& 127)) = x1
  have hend := (Registers.Holds.start x1).foldl x1 (Bits.bits 255 (Curve25519.decodeScalar scalar))
  exact congrArg driveRelayBigIntegerToLittleEndian (hend.exchange_if hend.swap).quotient

end Rahgozar.Drive
