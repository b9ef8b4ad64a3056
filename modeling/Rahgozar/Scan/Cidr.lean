import Rahgozar.Drive.Names
import Rahgozar.Lib.Traverse

set_option autoImplicit false

/-! # The addresses of a block (`src/scan_ips.rs`)

`cidr_to_ips` lists addresses behind the base of a block, counted from the base as it is written;
`ip_in_cidr` compares an address with the base under the mask of the prefix. Both read the block
from its text. Arithmetic on `u32` that overflows panics in a build with overflow checks and wraps
in the others; here it has no value.
-/

namespace Rahgozar.Scan

open Drive (parseUnsigned)

/-! ## The functions -/

/-- `((o[0] as u32) << 24) | ((o[1] as u32) << 16) | ((o[2] as u32) << 8) | (o[3] as u32)` -/
def addressOf (a b c d : UInt8) : UInt32 :=
  a.toUInt32 <<< 24 ||| b.toUInt32 <<< 16 ||| c.toUInt32 <<< 8 ||| d.toUInt32

/-- `str::parse::<u8>` -/
def parseU8 (text : List Char) : Option UInt8 := (parseUnsigned 256 text).map UInt8.ofNat

/-- `ip_to_u32` -/
def ipToU32 (ip : List Char) : Option UInt32 :=
  let octets := ip.splitOn '.'
  if octets.length ≠ 4 then none
  else
    match octets.filterMap parseU8 with
    | [a, b, c, d] => some (addressOf a b c d)
    | _ => none

/-- The mask of a prefix; a shift by 32 is avoided. -/
def maskOf (prefixLen : UInt8) : UInt32 :=
  if prefixLen = 0 then 0
  else if 32 ≤ prefixLen then 0xFFFFFFFF
  else ~~~(1 <<< (32 - prefixLen.toUInt32) - 1)

def ipInCidr (ip cidr : List Char) : Bool :=
  match cidr.splitOn '/' with
  | [baseIp, len] =>
      match parseU8 len with
      | none => false
      | some prefixLen =>
          match ipToU32 ip with
          | none => false
          | some ipNum =>
              match ipToU32 baseIp with
              | none => false
              | some baseNum => ipNum &&& maskOf prefixLen = baseNum &&& maskOf prefixLen
  | _ => false

/-- `format!("{}.{}.{}.{}", ..)` of the four bytes -/
def ipText (ip : UInt32) : List Char :=
  ['.'].intercalate
    ([(ip >>> 24) &&& 0xFF, (ip >>> 16) &&& 0xFF, (ip >>> 8) &&& 0xFF, ip &&& 0xFF].map
      fun n => Nat.toDigits 10 n.toNat)

/-- `base + i` -/
def addU32 (x y : UInt32) : Option UInt32 :=
  if x.toNat + y.toNat < 2 ^ 32 then some (x + y) else none

/-- The base of a block and the length of its prefix, as `cidr_to_ips` reads them. -/
def parseCidr (cidr : List Char) : Option (UInt32 × UInt8) :=
  match cidr.splitOn '/' with
  | [baseIp, len] =>
      (parseU8 len).bind fun prefixLen =>
        let octets := baseIp.splitOn '.'
        if octets.length ≠ 4 then none
        else
          (octets.mapM parseU8).bind fun o =>
            match o with
            | [a, b, c, d] => some (addressOf a b c d, prefixLen)
            | _ => none
  | _ => none

/-- How many addresses are counted: a block of 2 ^ 32 has one fewer than it should, which the limit
hides. -/
def limitOf (prefixLen : UInt8) : UInt32 :=
  let hostBits := 32 - prefixLen
  let numHosts : UInt32 := if 32 ≤ hostBits then 0xFFFFFFFF else 1 <<< hostBits.toUInt32
  min numHosts 256

/-- `cidr_to_ips`; there is no value where a sum overflows. -/
def cidrToIps (cidr : List Char) : Option (List (List Char)) :=
  match parseCidr cidr with
  | none => some []
  | some (base, prefixLen) =>
      if 32 < prefixLen then some []
      else
        let limit := limitOf prefixLen
        if limit < 2 then some []
        else
          (List.range' 1 (limit.toNat - 1 - 1)).mapM fun i =>
            (addU32 base (UInt32.ofNat i)).map ipText

/-! ## Masks -/

theorem testBit_prefixMask {k n : Nat} (hk : k ≤ n) (i : Nat) :
    (2 ^ n - 2 ^ k).testBit i = (decide (k ≤ i) && decide (i < n)) := by
  have hmask : 2 ^ n - 2 ^ k = (2 ^ (n - k) - 1) <<< k := by
    rw [Nat.shiftLeft_eq, Nat.sub_mul, one_mul, ← Nat.pow_add, Nat.sub_add_cancel hk]
  rw [hmask, Nat.testBit_shiftLeft, Nat.testBit_two_pow_sub_one]
  by_cases hi : k ≤ i
  · congr 1
    exact decide_eq_decide.mpr (by omega)
  · simp [hi]

/-- Under the mask of a prefix there is left what is in front of the host bits. -/
theorem and_prefixMask {k n x : Nat} (hk : k ≤ n) (hx : x < 2 ^ n) :
    x &&& (2 ^ n - 2 ^ k) = (x / 2 ^ k) <<< k := by
  apply Nat.eq_of_testBit_eq
  intro i
  rw [Nat.testBit_and, testBit_prefixMask hk, Nat.testBit_shiftLeft, Nat.testBit_div_two_pow]
  by_cases hi : k ≤ i
  · rw [Nat.sub_add_cancel hi]
    by_cases hn : i < n
    · simp [hi, hn]
    · rw [Nat.testBit_lt_two_pow (hx.trans_le (Nat.pow_le_pow_right (by decide) (not_lt.mp hn)))]
      simp
  · simp [hi]

theorem and_prefixMask_eq_iff {k n x y : Nat} (hk : k ≤ n) (hx : x < 2 ^ n) (hy : y < 2 ^ n) :
    x &&& (2 ^ n - 2 ^ k) = y &&& (2 ^ n - 2 ^ k) ↔ x / 2 ^ k = y / 2 ^ k := by
  rw [and_prefixMask hk hx, and_prefixMask hk hy, Nat.shiftLeft_eq, Nat.shiftLeft_eq]
  exact Nat.mul_right_cancel_iff (Nat.two_pow_pos k)

/-- The sums up to `base + m` stay in the block of `base` if the last one does. -/
theorem sums_in_block_iff {base k n m : Nat} (hk : k ≤ n) (hbase : base < 2 ^ n) :
    (∀ i, 1 ≤ i → i ≤ m → base + i < 2 ^ n ∧ (base + i) / 2 ^ k = base / 2 ^ k) ↔
      base % 2 ^ k + m < 2 ^ k := by
  have hpos := Nat.two_pow_pos k
  have hsplit := Nat.div_add_mod base (2 ^ k)
  have hmod := Nat.mod_lt base hpos
  constructor
  · intro h
    by_contra hover
    obtain ⟨-, heq⟩ := h m (by omega) le_rfl
    have hle : base / 2 ^ k + 1 ≤ (base + m) / 2 ^ k := by
      rw [Nat.le_div_iff_mul_le hpos, Nat.add_mul, one_mul, Nat.mul_comm]
      omega
    omega
  · intro h i hi hle
    have hdiv : (base + i) / 2 ^ k = base / 2 ^ k := by
      refine (Nat.div_eq_iff hpos).mpr ⟨?_, ?_⟩
      · rw [Nat.mul_comm]
        omega
      · rw [Nat.mul_comm]
        omega
    refine ⟨?_, hdiv⟩
    have hdvd : 2 ^ n = 2 ^ k * 2 ^ (n - k) := by rw [← Nat.pow_add, Nat.add_sub_cancel' hk]
    have hlt : base / 2 ^ k < 2 ^ (n - k) := Nat.div_lt_of_lt_mul (hdvd ▸ hbase)
    rw [← hdiv, Nat.div_lt_iff_lt_mul hpos, Nat.mul_comm, ← hdvd] at hlt
    exact hlt

theorem toNat_maskOf {n : Nat} (h : n ≤ 32) :
    (maskOf (UInt8.ofNat n)).toNat = 2 ^ 32 - 2 ^ (32 - n) := by
  have hall : ∀ n < 33, (maskOf (UInt8.ofNat n)).toNat = 2 ^ 32 - 2 ^ (32 - n) := by decide
  exact hall n (Nat.lt_succ_of_le h)

theorem toNat_limitOf {n : Nat} (h : n ≤ 32) :
    (limitOf (UInt8.ofNat n)).toNat = min (2 ^ (32 - n)) 256 := by
  have hall : ∀ n < 33, (limitOf (UInt8.ofNat n)).toNat = min (2 ^ (32 - n)) 256 := by decide
  exact hall n (Nat.lt_succ_of_le h)

/-! ## The text of an address -/

theorem toNat_shiftLeft (a : UInt8) {k : Nat} (hk : k ≤ 24) :
    (a.toUInt32 <<< UInt32.ofNat k).toNat = a.toNat * 2 ^ k := by
  have ha := a.toNat_lt
  have hlt : a.toNat * 2 ^ k < 2 ^ 32 := by
    have hpow : 2 ^ k ≤ 2 ^ 24 := Nat.pow_le_pow_right (by decide) hk
    calc a.toNat * 2 ^ k ≤ 255 * 2 ^ 24 := Nat.mul_le_mul (by omega) hpow
      _ < 2 ^ 32 := by decide
  have hsmall : (UInt32.ofNat k).toNat = k := by
    rw [UInt32.toNat_ofNat', Nat.mod_eq_of_lt (by omega)]
  have hshift : k % 32 = k := Nat.mod_eq_of_lt (by omega)
  rw [UInt32.toNat_shiftLeft, hsmall, hshift, UInt8.toNat_toUInt32, Nat.shiftLeft_eq,
    Nat.mod_eq_of_lt hlt]

theorem toNat_addressOf (a b c d : UInt8) : (addressOf a b c d).toNat =
    a.toNat * 2 ^ 24 + b.toNat * 2 ^ 16 + c.toNat * 2 ^ 8 + d.toNat := by
  have hb := b.toNat_lt
  have hc := c.toNat_lt
  have hd := d.toNat_lt
  have h24 := toNat_shiftLeft a (k := 24) le_rfl
  have h16 := toNat_shiftLeft b (k := 16) (by decide)
  have h8 := toNat_shiftLeft c (k := 8) (by decide)
  have hcd : c.toNat * 2 ^ 8 ||| d.toNat = c.toNat * 2 ^ 8 + d.toNat := by
    rw [← Nat.shiftLeft_eq, Nat.shiftLeft_add_eq_or_of_lt hd]
  have hbcd : b.toNat * 2 ^ 16 ||| (c.toNat * 2 ^ 8 + d.toNat) =
      b.toNat * 2 ^ 16 + (c.toNat * 2 ^ 8 + d.toNat) := by
    rw [← Nat.shiftLeft_eq, ← Nat.shiftLeft_add_eq_or_of_lt (by omega)]
  have habcd : a.toNat * 2 ^ 24 ||| (b.toNat * 2 ^ 16 + (c.toNat * 2 ^ 8 + d.toNat)) =
      a.toNat * 2 ^ 24 + (b.toNat * 2 ^ 16 + (c.toNat * 2 ^ 8 + d.toNat)) := by
    rw [← Nat.shiftLeft_eq, ← Nat.shiftLeft_add_eq_or_of_lt (by omega)]
  calc (addressOf a b c d).toNat
      = a.toNat * 2 ^ 24 ||| b.toNat * 2 ^ 16 ||| c.toNat * 2 ^ 8 ||| d.toNat := by
        rw [← h24, ← h16, ← h8]
        rfl
    _ = a.toNat * 2 ^ 24 + b.toNat * 2 ^ 16 + c.toNat * 2 ^ 8 + d.toNat := by
        rw [Nat.or_assoc, Nat.or_assoc, hcd, hbcd, habcd]
        omega

theorem toNat_byte (ip : UInt32) {k : Nat} (hk : k ≤ 24) :
    ((ip >>> UInt32.ofNat k) &&& 0xFF).toNat = ip.toNat / 2 ^ k % 256 := by
  have hsmall : (UInt32.ofNat k).toNat = k := by
    rw [UInt32.toNat_ofNat', Nat.mod_eq_of_lt (by omega)]
  have hmask : (0xFF : UInt32).toNat = 2 ^ 8 - 1 := rfl
  rw [UInt32.toNat_and, UInt32.toNat_shiftRight, hsmall, Nat.mod_eq_of_lt (by omega), hmask,
    Nat.and_two_pow_sub_one_eq_mod, Nat.shiftRight_eq_div_pow]

theorem parseU8_toDigits {n : Nat} (h : n < 256) :
    parseU8 (Nat.toDigits 10 n) = some (UInt8.ofNat n) := by
  unfold parseU8
  rw [Drive.parseUnsigned_toDigits h]
  rfl

/-- The text of an address is read back. -/
theorem ipToU32_ipText (ip : UInt32) : ipToU32 (ipText ip) = some ip := by
  have hlt := ip.toNat_lt
  have h24 := toNat_byte ip (k := 24) le_rfl
  have h16 := toNat_byte ip (k := 16) (by decide)
  have h8 := toNat_byte ip (k := 8) (by decide)
  have h0 : (ip &&& 0xFF).toNat = ip.toNat % 256 := by
    have h := toNat_byte ip (k := 0) (by decide)
    rwa [Nat.pow_zero, Nat.div_one, show ip >>> UInt32.ofNat 0 = ip from UInt32.shiftRight_zero]
      at h
  have hsplit : (ipText ip).splitOn '.' =
      [Nat.toDigits 10 (ip.toNat / 2 ^ 24 % 256), Nat.toDigits 10 (ip.toNat / 2 ^ 16 % 256),
        Nat.toDigits 10 (ip.toNat / 2 ^ 8 % 256), Nat.toDigits 10 (ip.toNat % 256)] := by
    unfold ipText
    rw [List.splitOn_intercalate]
    · rw [← h24, ← h16, ← h8, ← h0]
      rfl
    · intro digits hdigits hdot
      obtain ⟨n, -, rfl⟩ := List.mem_map.mp hdigits
      have hdigit : ('.' : Char).isDigit = true :=
        Nat.isDigit_of_mem_toDigits (by decide) (by decide) hdot
      exact absurd hdigit (by decide)
    · simp
  have haddress : addressOf (UInt8.ofNat (ip.toNat / 2 ^ 24 % 256))
      (UInt8.ofNat (ip.toNat / 2 ^ 16 % 256)) (UInt8.ofNat (ip.toNat / 2 ^ 8 % 256))
      (UInt8.ofNat (ip.toNat % 256)) = ip := by
    rw [← UInt32.toNat_inj, toNat_addressOf]
    simp only [UInt8.toNat_ofNat']
    omega
  unfold ipToU32
  rw [hsplit]
  dsimp only
  rw [if_neg (by simp)]
  simp only [List.filterMap_cons, List.filterMap_nil,
    parseU8_toDigits (Nat.mod_lt _ (by decide : 0 < 256))]
  exact congrArg some haddress

theorem ipText_injective : Function.Injective ipText := by
  intro x y h
  have hx := ipToU32_ipText x
  rw [h, ipToU32_ipText] at hx
  exact (Option.some.inj hx).symm

/-! ## A block and its addresses -/

/-- What `cidr_to_ips` reads as a base, `ip_in_cidr` reads as well. -/
theorem parse_eq {cidr : List Char} {base : UInt32} {prefixLen : UInt8}
    (h : parseCidr cidr = some (base, prefixLen)) : ∃ baseIp len,
      cidr.splitOn '/' = [baseIp, len] ∧ parseU8 len = some prefixLen ∧
        ipToU32 baseIp = some base := by
  unfold parseCidr at h
  split at h
  next baseIp len hparts =>
    obtain ⟨n, hn, h⟩ := Option.bind_eq_some_iff.mp h
    dsimp only at h
    split_ifs at h with hlen
    obtain ⟨octets, hoctets, h⟩ := Option.bind_eq_some_iff.mp h
    split at h
    next a b c d =>
      obtain ⟨rfl, rfl⟩ := Prod.mk.inj (Option.some.inj h)
      refine ⟨baseIp, len, hparts, hn, ?_⟩
      unfold ipToU32
      dsimp only
      rw [if_neg hlen, Traverse.filterMap_of_mapM hoctets]
    next => exact absurd h (Option.some_ne_none _).symm
  next => exact absurd h (Option.some_ne_none _).symm

/-- An address is in a block if it has the bits of the base in front of the host bits. -/
theorem ipInCidr_ipText {cidr : List Char} {base : UInt32} {prefixLen : UInt8}
    (h : parseCidr cidr = some (base, prefixLen)) (hle : prefixLen.toNat ≤ 32) (ip : UInt32) :
    ipInCidr (ipText ip) cidr = true ↔
      ip.toNat / 2 ^ (32 - prefixLen.toNat) = base.toNat / 2 ^ (32 - prefixLen.toNat) := by
  obtain ⟨baseIp, len, hparts, hlen, hbase⟩ := parse_eq h
  have hmask : (maskOf prefixLen).toNat = 2 ^ 32 - 2 ^ (32 - prefixLen.toNat) := by
    rw [← toNat_maskOf hle, UInt8.ofNat_toNat]
  unfold ipInCidr
  simp only [hparts, hlen, ipToU32_ipText, hbase, decide_eq_true_eq]
  rw [← UInt32.toNat_inj, UInt32.toNat_and, UInt32.toNat_and, hmask,
    and_prefixMask_eq_iff (Nat.sub_le 32 _) ip.toNat_lt base.toNat_lt]

/-- The addresses that are listed are the sums of the base with `1 .. limit - 1`. -/
theorem cidrToIps_eq {cidr : List Char} {base : UInt32} {prefixLen : UInt8}
    (h : parseCidr cidr = some (base, prefixLen)) (hle : prefixLen.toNat ≤ 32) :
    cidrToIps cidr = (List.range' 1 (min (2 ^ (32 - prefixLen.toNat)) 256 - 2)).mapM
      fun i => (addU32 base (UInt32.ofNat i)).map ipText := by
  have hlimit : (limitOf prefixLen).toNat = min (2 ^ (32 - prefixLen.toNat)) 256 := by
    rw [← toNat_limitOf hle, UInt8.ofNat_toNat]
  have hshort : ¬ 32 < prefixLen := by
    rw [UInt8.lt_iff_toNat_lt]
    exact not_lt.mpr hle
  unfold cidrToIps
  simp only [h, if_neg hshort]
  split_ifs with hfew
  · rw [UInt32.lt_iff_toNat_lt, hlimit] at hfew
    have hnone : min (2 ^ (32 - prefixLen.toNat)) 256 - 2 = 0 := Nat.sub_eq_zero_of_le hfew.le
    rw [hnone]
    rfl
  · rw [hlimit, Nat.sub_sub]

/-- Nothing overflows, and the addresses that are listed are distinct and in the block. -/
def InsideBlock (cidr : List Char) : Prop :=
  ∃ ips, cidrToIps cidr = some ips ∧ ips.Nodup ∧ ∀ ip ∈ ips, ipInCidr ip cidr = true

/-- Behind the base there is room in its block for all the addresses that are counted. -/
def HasRoom (cidr : List Char) : Prop :=
  ∀ base prefixLen, parseCidr cidr = some (base, prefixLen) → prefixLen.toNat ≤ 32 →
    base.toNat % 2 ^ (32 - prefixLen.toNat) + (min (2 ^ (32 - prefixLen.toNat)) 256 - 2) <
      2 ^ (32 - prefixLen.toNat)

theorem toNat_addU32 {base : UInt32} {i : Nat} (h : base.toNat + i < 2 ^ 32) :
    (base + UInt32.ofNat i).toNat = base.toNat + i := by
  have hsmall : (UInt32.ofNat i).toNat = i := by
    rw [UInt32.toNat_ofNat', Nat.mod_eq_of_lt (by omega)]
  rw [UInt32.toNat_add, hsmall, Nat.mod_eq_of_lt h]

/-- A sum with one of the counts has a value if it does not leave the address space. -/
theorem addU32_eq {base : UInt32} {i : Nat} (hi : i ≤ 254) :
    addU32 base (UInt32.ofNat i) =
      if base.toNat + i < 2 ^ 32 then some (base + UInt32.ofNat i) else none := by
  have hsmall : (UInt32.ofNat i).toNat = i := by
    rw [UInt32.toNat_ofNat', Nat.mod_eq_of_lt (by omega)]
  rw [addU32, hsmall]

theorem hasRoom_iff {cidr : List Char} {base : UInt32} {prefixLen : UInt8}
    (h : parseCidr cidr = some (base, prefixLen)) (hle : prefixLen.toNat ≤ 32) :
    HasRoom cidr ↔ ∀ i, 1 ≤ i → i ≤ min (2 ^ (32 - prefixLen.toNat)) 256 - 2 →
      base.toNat + i < 2 ^ 32 ∧ (base.toNat + i) / 2 ^ (32 - prefixLen.toNat) =
        base.toNat / 2 ^ (32 - prefixLen.toNat) := by
  rw [sums_in_block_iff (Nat.sub_le 32 _) base.toNat_lt]
  constructor
  · intro hroom
    exact hroom base prefixLen h hle
  · intro hroom base' prefixLen' h' _
    obtain ⟨rfl, rfl⟩ := Prod.mk.inj (Option.some.inj (h.symm.trans h'))
    exact hroom

/-- The addresses are inside of the block if all the sums are. -/
theorem insideBlock_iff_sums {cidr : List Char} {base : UInt32} {prefixLen : UInt8}
    (h : parseCidr cidr = some (base, prefixLen)) (hle : prefixLen.toNat ≤ 32) :
    InsideBlock cidr ↔ ∀ i, 1 ≤ i → i ≤ min (2 ^ (32 - prefixLen.toNat)) 256 - 2 →
      base.toNat + i < 2 ^ 32 ∧ (base.toNat + i) / 2 ^ (32 - prefixLen.toNat) =
        base.toNat / 2 ^ (32 - prefixLen.toNat) := by
  rw [InsideBlock, cidrToIps_eq h hle]
  set m := min (2 ^ (32 - prefixLen.toNat)) 256 - 2 with hm
  have hm254 : m ≤ 254 := by omega
  constructor
  · rintro ⟨ips, hips, -, hin⟩ i hi him
    have hmem : i ∈ List.range' 1 m := List.mem_range'_1.mpr ⟨hi, by omega⟩
    obtain ⟨ip, hip, hsum⟩ := Traverse.exists_of_mapM hips hmem
    rw [addU32_eq (him.trans hm254)] at hsum
    split_ifs at hsum with hlt
    · obtain rfl := Option.some.inj hsum
      have hblock := (ipInCidr_ipText h hle _).mp (hin _ hip)
      rw [toNat_addU32 hlt] at hblock
      exact ⟨hlt, hblock⟩
    · exact absurd hsum (by simp)
  · intro hsums
    have hmem : ∀ i ∈ List.range' 1 m, 1 ≤ i ∧ i ≤ m := by
      intro i hi
      rw [List.mem_range'_1] at hi
      omega
    have hnat : ∀ i ∈ List.range' 1 m, (base + UInt32.ofNat i).toNat = base.toNat + i :=
      fun i hi => toNat_addU32 (hsums i (hmem i hi).1 (hmem i hi).2).1
    refine ⟨(List.range' 1 m).map fun i => ipText (base + UInt32.ofNat i),
      Traverse.mapM_eq_some_map fun i hi => ?_, ?_, ?_⟩
    · rw [addU32_eq ((hmem i hi).2.trans hm254), if_pos (hsums i (hmem i hi).1 (hmem i hi).2).1]
      rfl
    · refine List.Nodup.map_on (fun i hi j hj heq => ?_) (List.nodup_range')
      have hsame := congrArg UInt32.toNat (ipText_injective heq)
      rw [hnat i hi, hnat j hj] at hsame
      omega
    · intro ip hip
      obtain ⟨i, hi, rfl⟩ := List.mem_map.mp hip
      rw [ipInCidr_ipText h hle, hnat i hi]
      exact (hsums i (hmem i hi).1 (hmem i hi).2).2

/-- The addresses of a block are inside of it if and only if there is room for them. Where there
is not, a sum overflows or is an address of the block behind. -/
theorem insideBlock_iff (cidr : List Char) : InsideBlock cidr ↔ HasRoom cidr := by
  cases hparse : parseCidr cidr with
  | none =>
    have hempty : cidrToIps cidr = some [] := by simp [cidrToIps, hparse]
    have hroom : HasRoom cidr := fun base prefixLen h => by simp [hparse] at h
    exact iff_of_true ⟨[], hempty, List.nodup_nil, by simp⟩ hroom
  | some block =>
    obtain ⟨base, prefixLen⟩ := block
    by_cases hle : prefixLen.toNat ≤ 32
    · rw [hasRoom_iff hparse hle]
      exact insideBlock_iff_sums hparse hle
    · have hlong : 32 < prefixLen := UInt8.lt_iff_toNat_lt.mpr (not_le.mp hle)
      have hempty : cidrToIps cidr = some [] := by simp [cidrToIps, hparse, hlong]
      have hroom : HasRoom cidr := by
        intro base' prefixLen' h hle'
        obtain ⟨-, rfl⟩ := Prod.mk.inj (Option.some.inj (hparse.symm.trans h))
        exact absurd hle' hle
      exact iff_of_true ⟨[], hempty, List.nodup_nil, by simp⟩ hroom

/-- Blocks that are not written with their first address: `1.2.3.206/29` is the block of
`1.2.3.200`, and the addresses listed for it run into the next one; those of `255.255.255.250/29`
run past the last address. -/
theorem block_left : ¬ InsideBlock "1.2.3.206/29".toList ∧
    cidrToIps "255.255.255.250/29".toList = none := by
  refine ⟨?_, by decide⟩
  intro ⟨ips, hips, _, hin⟩
  have hlisted : cidrToIps "1.2.3.206/29".toList = some ["1.2.3.207".toList, "1.2.3.208".toList,
      "1.2.3.209".toList, "1.2.3.210".toList, "1.2.3.211".toList, "1.2.3.212".toList] := by decide
  obtain rfl := Option.some.inj (hlisted.symm.trans hips)
  have houtside : ipInCidr "1.2.3.208".toList "1.2.3.206/29".toList = false := by decide
  exact absurd (hin "1.2.3.208".toList (by simp)) (Bool.eq_false_iff.mp houtside)

end Rahgozar.Scan
