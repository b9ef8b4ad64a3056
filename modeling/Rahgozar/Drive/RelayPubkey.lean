import Rahgozar.Config.RefreshToken
import Rahgozar.Drive.Crypto
import Rahgozar.Drive.Names
import Rahgozar.Lib.Bech32
import Rahgozar.Lib.Curve25519

set_option autoImplicit false

/-! # The relay's public key (`validateDriveRelayPubkey`, `RelayPubkey`)

The user pastes the key as a Bech32m text. On Android, `ConfigStore.kt` checks it with code of its
own: the checksum, the regrouping of bits and X25519 over `BigInteger`. The engine,
`src/drive_crypto.rs`, asks the crates `bech32` and `x25519-dalek`.
-/

namespace Rahgozar.Drive

open Rahgozar.Config (Text trimKotlin trimRust)

/-! ## Android: the checksum -/

def driveRelayBech32Charset : Text := "qpzry9x8gf2tvdw0s3jn54khce6mua7l".toList

def driveRelayBech32Generators : List ℕ :=
  [0x3b6a57b2, 0x26508e6d, 0x1ea119fa, 0x3d4233dd, 0x2a1462b3]

def driveRelayBech32Polymod (values : List ℕ) : ℕ :=
  values.foldl (fun chk v =>
    let top := chk >>> 25
    (List.range 5).foldl (fun chk i =>
        if (top >>> i) &&& 1 ≠ 0 then chk ^^^ driveRelayBech32Generators.getD i 0 else chk)
      ((chk &&& 0x1ffffff) <<< 5 ^^^ v)) 1

def driveRelayBech32mChecksumValid (hrp : Text) (values : List ℕ) : Bool :=
  let expanded := hrp.map (fun ch => ch.toNat >>> 5) ++ [0] ++
    hrp.map (fun ch => ch.toNat &&& 31) ++ values
  driveRelayBech32Polymod expanded == 0x2bc830a3

/-! ## Android: the regrouping of bits -/

/-- The inner loop of `driveRelayConvertBits`; digits are never of zero bits. -/
def emitDigits (toBits maxv acc bits : ℕ) (out : List ℕ) : ℕ × List ℕ :=
  if 0 < toBits ∧ toBits ≤ bits then
    emitDigits toBits maxv acc (bits - toBits) (out ++ [(acc >>> (bits - toBits)) &&& maxv])
  else (bits, out)
termination_by bits

/-- The outer loop: the accumulator, the bits it holds and the digits that have come out. -/
def convertLoop (fromBits toBits maxv maxAcc : ℕ) (acc bits : ℕ) (out : List ℕ) :
    List ℕ → Option (ℕ × ℕ × List ℕ)
  | [] => some (acc, bits, out)
  | v :: data =>
      if v >>> fromBits ≠ 0 then none
      else
        let acc := (acc <<< fromBits ||| v) &&& maxAcc
        let (bits, out) := emitDigits toBits maxv acc (bits + fromBits) out
        convertLoop fromBits toBits maxv maxAcc acc bits out data

def driveRelayConvertBits (data : List ℕ) (fromBits toBits : ℕ) (pad : Bool) :
    Option (List ℕ) := do
  let maxv := 1 <<< toBits - 1
  let maxAcc := 1 <<< (fromBits + toBits - 1) - 1
  let (acc, bits, out) ← convertLoop fromBits toBits maxv maxAcc 0 0 [] data
  if pad then
    if 0 < bits then some (out ++ [(acc <<< (toBits - bits)) &&& maxv]) else some out
  else if fromBits ≤ bits ∨ (acc <<< (toBits - bits)) &&& maxv ≠ 0 then none
  else some out

/-! ## Android: X25519

A `BigInteger` is an integer; a byte is its eight bits.
-/

def driveX25519P : ℤ := 2 ^ 255 - 19

def driveX25519A24 : ℤ := 121665

def driveX25519ProbeScalar : List UInt8 := List.replicate 32 0x42

def driveRelayMod (v : ℤ) : ℤ := v % driveX25519P

def driveRelaySquare (v : ℤ) : ℤ := driveRelayMod (v * v)

def driveRelayScalarBit (scalar : List UInt8) (bit : ℕ) : ℕ :=
  ((scalar.getD (bit / 8) 0).toNat >>> (bit % 8)) &&& 1

/-- The bytes are turned round for `BigInteger(1, be)`. -/
def driveRelayLittleEndianToBigInteger (bytes : List UInt8) : ℤ := BigEndian.get bytes.reverse

/-- `BigInteger.toByteArray` of a number that is not negative: there is room for a sign bit. -/
def toByteArray (v : ℕ) : List UInt8 :=
  let bitLength := if v = 0 then 0 else v.log2 + 1
  BigEndian.put (bitLength / 8 + 1) v

def driveRelayBigIntegerToLittleEndian (v : ℤ) : List UInt8 :=
  let be := toByteArray v.toNat
  (List.range 32).map fun i => if i < be.length then be.getD (be.length - 1 - i) 0 else 0

/-- `BigInteger.modInverse` -/
def modInverse (a m : ℤ) : ℤ := Int.gcdA a m % m

/-- `ByteArray.copyOf(32)` -/
def copyOf32 (bytes : List UInt8) : List UInt8 := (bytes ++ List.replicate 32 0).take 32

/-- The variables of the ladder. -/
structure Registers where
  x2 : ℤ
  z2 : ℤ
  x3 : ℤ
  z3 : ℤ
  swap : ℕ

namespace Registers

def exchange (r : Registers) : Registers := ⟨r.x3, r.z3, r.x2, r.z2, r.swap⟩

/-- One pass of the loop, with the bit `kt`. -/
def pass (x1 : ℤ) (r : Registers) (kt : ℕ) : Registers :=
  let r := if r.swap ^^^ kt ≠ 0 then r.exchange else r
  let a := driveRelayMod (r.x2 + r.z2)
  let aa := driveRelaySquare a
  let b := driveRelayMod (r.x2 - r.z2)
  let bb := driveRelaySquare b
  let e := driveRelayMod (aa - bb)
  let c := driveRelayMod (r.x3 + r.z3)
  let d := driveRelayMod (r.x3 - r.z3)
  let da := driveRelayMod (d * a)
  let cb := driveRelayMod (c * b)
  { x2 := driveRelayMod (aa * bb)
    z2 := driveRelayMod (e * driveRelayMod (aa + driveX25519A24 * e))
    x3 := driveRelaySquare (da + cb)
    z3 := driveRelayMod (x1 * driveRelaySquare (da - cb))
    swap := kt }

end Registers

def driveRelayX25519 (scalarInput publicKeyInput : List UInt8) : List UInt8 :=
  let scalar := ((copyOf32 scalarInput).modify 0 (· &&& 248)).modify 31 fun b => b &&& 127 ||| 64
  let publicKey := (copyOf32 publicKeyInput).modify 31 (· &&& 127)
  let x1 := driveRelayLittleEndianToBigInteger publicKey
  let r := (List.range 255).reverse.foldl
    (fun r t => Registers.pass x1 r (driveRelayScalarBit scalar t)) ⟨1, 0, x1, 1, 0⟩
  let r := if r.swap ≠ 0 then r.exchange else r
  let result := if r.z2 = 0 then 0 else driveRelayMod (r.x2 * modInverse r.z2 driveX25519P)
  driveRelayBigIntegerToLittleEndian result

def driveRelayX25519ProbeIsContributory (payload : List ℕ) : Bool :=
  if payload.length ≠ 32 then false
  else
    let publicKey := payload.map UInt8.ofNat
    (driveRelayX25519 driveX25519ProbeScalar publicKey).any (· ≠ 0)

/-! ## Android: the validator -/

/-- `lastIndexOf`, which is `-1` for a character that is not there. -/
def lastIndexOf (c : Char) (s : Text) : ℤ :=
  match rsplitOnce c s with
  | some (before, _) => before.length
  | none => -1

/-- The error, or nothing for a key that may be used. -/
def validateDriveRelayPubkey (text : Text) : Option String :=
  let s := trimKotlin text
  if s.isEmpty then some "relay pubkey is empty"
  else if s.any fun c => c.toNat < 33 || 126 < c.toNat then
    some "relay pubkey contains invalid bech32 characters"
  else
    let lower := s.map Char.toLower
    if s ≠ lower ∧ s ≠ s.map Char.toUpper then some "relay pubkey mixes uppercase and lowercase"
    else
      let sep := lastIndexOf '1' lower
      if sep ≤ 0 ∨ (lower.length : ℤ) < sep + 7 then some "relay pubkey is not valid bech32m"
      else
        let hrp := lower.take sep.toNat
        if hrp ≠ "rgdr".toList then
          some ("relay pubkey has HRP '" ++ String.ofList hrp ++ "' but expected 'rgdr'")
        else
          match (lower.drop (sep.toNat + 1)).mapM driveRelayBech32Charset.idxOf? with
          | none => some "relay pubkey is not valid bech32m"
          | some values =>
              if driveRelayBech32mChecksumValid hrp values = false then
                some "relay pubkey checksum is invalid"
              else
                match driveRelayConvertBits (values.rdrop 6) 5 8 false with
                | none => some "relay pubkey payload has invalid padding"
                | some payload =>
                    if payload.length ≠ 32 then
                      some ("relay pubkey decodes to " ++ toString payload.length ++
                        " bytes but X25519 keys are exactly 32 bytes")
                    else if driveRelayX25519ProbeIsContributory payload = false then
                      some "relay pubkey is a low-order X25519 point"
                    else none

/-! ## The engine -/

/-- A public key. -/
@[ext] structure RelayPubkey where
  bytes : List UInt8
  length_eq : bytes.length = 32

inductive PubkeyParseError where
  | empty
  | badEncoding (error : Text)
  | wrongHrp (got expected : Text)
  | wrongLength (got expected : ℕ)
  | lowOrder

/-- The crate `bech32`. -/
structure Bech32Crate where
  /-- `CheckedHrpstring` -/
  Checked : Type
  /-- `CheckedHrpstring::new::<Bech32m>` -/
  new : Text → Except Text Checked
  hrp : Checked → Text
  byteIter : Checked → List UInt8
  /-- `bech32::encode::<Bech32m>` -/
  encode : Text → List UInt8 → Text

def relayPubkeyHrp : Text := "rgdr".toList

def contributoryProbeScalar : List UInt8 := List.replicate 32 0x42

section

variable (P : Primitives) (crate : Bech32Crate)

def x25519PublicKeyIsContributory (bytes : List UInt8) : Bool :=
  P.wasContributory (P.diffieHellman contributoryProbeScalar bytes)

def RelayPubkey.toBech32m (key : RelayPubkey) : Text := crate.encode relayPubkeyHrp key.bytes

def RelayPubkey.fromBech32m (text : Text) : Except PubkeyParseError RelayPubkey :=
  let s := trimRust text
  if s.isEmpty then .error .empty
  else
    match crate.new s with
    | .error e => .error (.badEncoding e)
    | .ok checked =>
        let hrp := crate.hrp checked
        let data := crate.byteIter checked
        if hrp ≠ relayPubkeyHrp then .error (.wrongHrp hrp relayPubkeyHrp)
        else if h : data.length ≠ 32 then .error (.wrongLength data.length 32)
        else if x25519PublicKeyIsContributory P data = false then .error .lowOrder
        else .ok ⟨data, not_not.mp h⟩

end

end Rahgozar.Drive
