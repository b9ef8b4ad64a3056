import Rahgozar.Drive.RelayPubkeyAndroid
import Rahgozar.Lib.Traverse

set_option autoImplicit false

/-! # Where the two validators of the relay's key agree

Both take a Bech32m text of the relay whose bytes are a key that is not refused by the probe. They
disagree on capital letters, which only Android takes; on bits behind the last byte, which must be
zeros on Android only; and on what is white space at the ends.
-/

namespace Rahgozar.Drive

open Rahgozar.Config (Text trimKotlin trimRust core)

/-- What the probe sees of a key. -/
def Contributory (bytes : List UInt8) : Prop :=
  ∃ b ∈ Curve25519.x25519 contributoryProbeScalar bytes, b ≠ 0

/-- A text of the relay with these values, in small or in capital letters. -/
structure Carries (s : Text) (values : List ℕ) : Prop where
  spells : Bech32.Spells s relayPubkeyHrp values
  length : values.length = 58
  contributory : Contributory (Bech32.bytesOf (values.rdrop 6))

/-! ## Android -/

theorem driveRelayX25519ProbeIsContributory_iff {bytes : List UInt8} (h : bytes.length = 32) :
    driveRelayX25519ProbeIsContributory (bytes.map UInt8.toNat) = true ↔ Contributory bytes := by
  have hmap : (bytes.map UInt8.toNat).map UInt8.ofNat = bytes := by
    rw [List.map_map]
    exact (List.map_congr_left fun b _ => UInt8.ofNat_toNat).trans (List.map_id bytes)
  have hscalar : driveX25519ProbeScalar.length = 32 := List.length_replicate
  have hx := driveRelayX25519_eq hscalar h
  rw [driveRelayX25519ProbeIsContributory, List.length_map, if_neg (not_not.mpr h), hmap]
  dsimp only
  rw [hx, List.any_eq_true, Contributory]
  simp only [decide_eq_true_eq]
  rfl

theorem idxOf?_charset {c : Char} {v : ℕ} :
    driveRelayBech32Charset.idxOf? c = some v ↔ Bech32.charset.idxOf c = v ∧ v < 32 := by
  have hcharset : driveRelayBech32Charset = Bech32.charset := rfl
  rw [hcharset, List.idxOf?, List.findIdx?_eq_some_iff_findIdx_eq, and_comm]
  rfl

theorem mapM_idxOf?_iff {text : Text} {values : List ℕ} :
    text.mapM driveRelayBech32Charset.idxOf? = some values ↔
      (∀ v ∈ values, v < 32) ∧ text = values.map Bech32.symbol := by
  rw [Traverse.mapM_eq_some, Bech32.map_symbol_eq_iff]
  simp only [idxOf?_charset]
  induction text generalizing values with
  | nil =>
      cases values with
      | nil => simp
      | cons v values => simp
  | cons c text ih =>
      cases values with
      | nil => simp
      | cons v values =>
          rw [List.forall₂_cons, ih, List.map_cons, List.cons.injEq, List.forall_mem_cons]
          tauto

theorem lastIndexOf_append {c : Char} (before : Text) {after : Text} (h : c ∉ after) :
    lastIndexOf c (before ++ c :: after) = before.length := by
  rw [lastIndexOf, rsplitOnce_append before h]

theorem exists_of_lastIndexOf_pos {c : Char} {s : Text} (h : 0 < lastIndexOf c s) :
    ∃ before after, s = before ++ c :: after ∧ lastIndexOf c s = before.length := by
  unfold lastIndexOf at h ⊢
  cases hsplit : rsplitOnce c s with
  | none =>
      rw [hsplit] at h
      exact absurd h (by decide)
  | some p => exact ⟨p.1, p.2, (rsplitOnce_eq_some hsplit).1, rfl⟩

/-- The last steps: the bits, the length and the probe. -/
theorem payload_iff {data : List ℕ} (hdata : ∀ v ∈ data, v < 32) :
    (match driveRelayConvertBits data 5 8 false with
      | none => some "relay pubkey payload has invalid padding"
      | some payload =>
          if payload.length ≠ 32 then
            some ("relay pubkey decodes to " ++ toString payload.length ++
              " bytes but X25519 keys are exactly 32 bytes")
          else if driveRelayX25519ProbeIsContributory payload = false then
            some "relay pubkey is a low-order X25519 point"
          else none) = none ↔
      data.length = 52 ∧ Bech32.padding data = 0 ∧ Contributory (Bech32.bytesOf data) := by
  rw [driveRelayConvertBits_eq hdata]
  by_cases hpad : 5 ≤ 5 * data.length % 8 ∨ Bech32.padding data ≠ 0
  · rw [if_pos hpad]
    apply iff_of_false (Option.some_ne_none _)
    rintro ⟨hlen, hzero, -⟩
    rw [hlen, hzero] at hpad
    exact absurd hpad (by decide)
  · rw [if_neg hpad]
    dsimp only
    rw [List.length_map, Bech32.length_bytesOf]
    by_cases hlen : 5 * data.length / 8 = 32
    · have hprobe := driveRelayX25519ProbeIsContributory_iff
        ((Bech32.length_bytesOf data).trans hlen)
      rw [if_neg (not_not.mpr hlen), ite_eq_right_iff, ← hprobe]
      constructor
      · intro h
        refine ⟨by omega, not_not.mp fun hne => hpad (Or.inr hne), ?_⟩
        by_contra hfalse
        exact absurd (h ((Bool.not_eq_true _).mp hfalse)) (Option.some_ne_none _)
      · rintro ⟨-, -, htrue⟩ hfalse
        rw [htrue] at hfalse
        cases hfalse
    · rw [if_pos hlen]
      apply iff_of_false (Option.some_ne_none _)
      rintro ⟨h52, -, -⟩
      rw [h52] at hlen
      exact hlen rfl

theorem mem_of_mem_rdrop {values : List ℕ} {n v : ℕ} (h : v ∈ values.rdrop n) : v ∈ values :=
  List.mem_of_mem_take h

theorem drop_split (before : Text) (c : Char) (after : Text) :
    (before ++ c :: after).drop (before.length + 1) = after := by
  rw [← List.drop_drop, List.drop_left, List.drop_one, List.tail_cons]

theorem printable_iff {s : Text} :
    ¬(s.any fun c => c.toNat < 33 || 126 < c.toNat) = true ↔
      ∀ c ∈ s, 33 ≤ c.toNat ∧ c.toNat ≤ 126 := by
  rw [Bool.not_eq_true, List.any_eq_false]
  refine forall₂_congr fun c _ => ?_
  simp only [Bool.or_eq_true, decide_eq_true_eq]
  omega

theorem one_case_iff {s : Text} :
    ¬(s ≠ s.map Char.toLower ∧ s ≠ s.map Char.toUpper) ↔
      Bech32.lower s = s ∨ Bech32.upper s = s := by
  rw [not_and_or, not_not, not_not]
  exact or_congr eq_comm eq_comm

/-- What Android takes is a text of the relay's, with zeros behind the last byte. -/
theorem carries_of_validate {text : Text} (h : validateDriveRelayPubkey text = none) :
    ∃ values, Carries (trimKotlin text) values ∧ Bech32.padding (values.rdrop 6) = 0 := by
  unfold validateDriveRelayPubkey at h
  generalize trimKotlin text = s at h ⊢
  dsimp only at h
  split_ifs at h with hempty hprint hcase hsep hhrp
  obtain ⟨hpos, hroom⟩ := not_or.mp hsep
  obtain ⟨hrp, after, hlower, hsepEq⟩ := exists_of_lastIndexOf_pos (not_le.mp hpos)
  rw [hsepEq] at hroom hhrp h
  rw [hlower] at hroom hhrp h
  rw [Int.toNat_natCast, List.take_left] at hhrp h
  rw [drop_split] at h
  cases hvalues : after.mapM driveRelayBech32Charset.idxOf? with
  | none =>
      rw [hvalues] at h
      exact absurd h (Option.some_ne_none _)
  | some values =>
      rw [hvalues] at h
      dsimp only at h
      split_ifs at h with hsum
      obtain ⟨hlt, rfl⟩ := mapM_idxOf?_iff.mp hvalues
      obtain ⟨hlen, hpad, hprobe⟩ := (payload_iff fun v hv => hlt v (mem_of_mem_rdrop hv)).mp h
      obtain rfl := not_not.mp hhrp
      have hsix : 6 ≤ values.length := by
        rw [List.length_append, List.length_cons, List.length_map] at hroom
        omega
      have h58 : values.length = 58 := by
        rw [List.rdrop, List.length_take] at hlen
        omega
      have hshort : s.length ≤ 90 := by
        have hlen' := congrArg List.length hlower
        rw [List.length_map, List.length_append, List.length_cons, List.length_map, h58] at hlen'
        exact hlen'.trans_le (by decide)
      rw [Bool.not_eq_false, driveRelayBech32mChecksumValid_iff] at hsum
      exact ⟨values, ⟨⟨printable_iff.mp hprint, one_case_iff.mp hcase, hlower, by decide, hshort,
        hlt, hsix, hsum⟩, h58, hprobe⟩, hpad⟩

theorem validate_of_carries {text : Text} {values : List ℕ}
    (h : Carries (trimKotlin text) values) (hpad : Bech32.padding (values.rdrop 6) = 0) :
    validateDriveRelayPubkey text = none := by
  unfold validateDriveRelayPubkey
  generalize trimKotlin text = s at h ⊢
  obtain ⟨hspells, h58, hprobe⟩ := h
  dsimp only
  have hlower : s.map Char.toLower = relayPubkeyHrp ++ '1' :: values.map Bech32.symbol :=
    hspells.text
  have hlen : (relayPubkeyHrp ++ '1' :: values.map Bech32.symbol).length = 63 := by
    rw [List.length_append, List.length_cons, List.length_map, h58]
    rfl
  have hempty : ¬s.isEmpty = true := by
    intro hnil
    rw [List.isEmpty_iff.mp hnil] at hlower
    cases hlower
  have hsep : lastIndexOf '1' (relayPubkeyHrp ++ '1' :: values.map Bech32.symbol) = (4 : ℕ) :=
    lastIndexOf_append relayPubkeyHrp (Bech32.one_not_mem_map_symbol hspells.lt)
  have hsum : ¬driveRelayBech32mChecksumValid relayPubkeyHrp values = false := by
    rw [Bool.not_eq_false, driveRelayBech32mChecksumValid_iff]
    exact hspells.verifies
  have hdrop : (relayPubkeyHrp ++ '1' :: values.map Bech32.symbol).drop (4 + 1) =
      values.map Bech32.symbol := drop_split relayPubkeyHrp '1' _
  have htake : (relayPubkeyHrp ++ '1' :: values.map Bech32.symbol).take 4 = relayPubkeyHrp :=
    List.take_left' rfl
  have hdata : (values.rdrop 6).length = 52 := by
    rw [List.rdrop, List.length_take, h58]
    rfl
  have hhrp : ¬relayPubkeyHrp ≠ "rgdr".toList := not_not.mpr rfl
  rw [if_neg hempty, if_neg (printable_iff.mpr hspells.printable),
    if_neg (one_case_iff.mpr hspells.one_case), hlower, hsep, hlen, if_neg (by decide),
    Int.toNat_natCast, htake, if_neg hhrp, hdrop, mapM_idxOf?_iff.mpr ⟨hspells.lt, rfl⟩]
  dsimp only
  rw [if_neg hsum]
  exact (payload_iff fun v hv => hspells.lt v (mem_of_mem_rdrop hv)).mpr ⟨hdata, hpad, hprobe⟩

theorem validateDriveRelayPubkey_iff (text : Text) :
    validateDriveRelayPubkey text = none ↔
      ∃ values, Carries (trimKotlin text) values ∧ Bech32.padding (values.rdrop 6) = 0 := by
  constructor
  · exact carries_of_validate
  · rintro ⟨values, hcarries, hpad⟩
    exact validate_of_carries hcarries hpad

/-! ## The engine -/

/-- What the crates document. -/
structure Bech32Crate.Documented (crate : Bech32Crate) : Prop where
  new_isOk : ∀ s, (∃ checked, crate.new s = .ok checked) ↔ ∃ hrp values, Bech32.Spells s hrp values
  hrp_eq : ∀ s checked hrp values, crate.new s = .ok checked → Bech32.Spells s hrp values →
    crate.hrp checked = s.take hrp.length
  byteIter_eq : ∀ s checked hrp values, crate.new s = .ok checked → Bech32.Spells s hrp values →
    crate.byteIter checked = Bech32.bytesOf (values.rdrop 6)
  encode_eq : ∀ hrp bytes, Bech32.IsLower hrp → (Bech32.encode hrp bytes).length ≤ 90 →
    crate.encode hrp bytes = Bech32.encode hrp bytes

structure Primitives.IsX25519 (P : Primitives) : Prop where
  diffieHellman_eq : ∀ secret point, secret.length = 32 → point.length = 32 →
    P.diffieHellman secret point = Curve25519.x25519 secret point
  wasContributory_eq : ∀ shared, P.wasContributory shared = shared.any (· ≠ 0)

section

variable {P : Primitives} {crate : Bech32Crate}

theorem contributory_iff (hP : P.IsX25519) {bytes : List UInt8} (h : bytes.length = 32) :
    x25519PublicKeyIsContributory P bytes = true ↔ Contributory bytes := by
  rw [x25519PublicKeyIsContributory, hP.wasContributory_eq,
    hP.diffieHellman_eq contributoryProbeScalar bytes List.length_replicate h, List.any_eq_true]
  simp only [decide_eq_true_eq]
  rfl

/-- The human-readable part stands in small letters if the text does. -/
theorem take_hrp_iff {s : Text} {values : List ℕ} {hrp : List Char}
    (h : Bech32.Spells s hrp values) :
    s.take hrp.length = relayPubkeyHrp ↔ hrp = relayPubkeyHrp ∧ Bech32.lower s = s := by
  have hlower : Bech32.lower (s.take hrp.length) = hrp := by
    have htext := congrArg (List.take hrp.length) h.text
    rw [List.take_left, Bech32.lower, ← List.map_take] at htext
    exact htext
  constructor
  · intro htake
    rw [htake] at hlower
    have hhrp : hrp = relayPubkeyHrp := hlower.symm
    refine ⟨hhrp, h.one_case.resolve_right fun hupper => ?_⟩
    -- in a text of capital letters the part would be in capital letters, too
    have hcapital : Bech32.upper (s.take hrp.length) = s.take hrp.length := by
      rw [Bech32.upper, List.map_take]
      exact congrArg (List.take hrp.length) hupper
    rw [htake] at hcapital
    exact absurd hcapital (by decide)
  · rintro ⟨rfl, hs⟩
    rw [← hs, h.text, List.take_left]

/-- The engine's answer, for the text that is left after trimming. -/
theorem fromBech32m_eq_ok_iff (hcrate : crate.Documented) (hP : P.IsX25519) (text : Text)
    (key : RelayPubkey) :
    RelayPubkey.fromBech32m P crate text = .ok key ↔
      ∃ values, Carries (trimRust text) values ∧ Bech32.lower (trimRust text) = trimRust text ∧
        Bech32.bytesOf (values.rdrop 6) = key.bytes := by
  unfold RelayPubkey.fromBech32m
  generalize trimRust text = s
  dsimp only
  constructor
  · intro h
    split_ifs at h with hempty
    cases hnew : crate.new s with
    | error e =>
        rw [hnew] at h
        cases h
    | ok checked =>
        rw [hnew] at h
        dsimp only at h
        split_ifs at h with hhrp hlen hprobe
        obtain rfl := Except.ok.inj h
        obtain ⟨hrp, values, hspells⟩ := (hcrate.new_isOk s).mp ⟨checked, hnew⟩
        have hbytes := hcrate.byteIter_eq s checked hrp values hnew hspells
        have h32 := not_not.mp hlen
        rw [not_not, hcrate.hrp_eq s checked hrp values hnew hspells, take_hrp_iff hspells] at hhrp
        obtain ⟨rfl, hlower⟩ := hhrp
        rw [Bool.not_eq_false, contributory_iff hP h32, hbytes] at hprobe
        -- 32 bytes take 52 symbols, and the checksum six
        rw [hbytes, Bech32.length_bytesOf, List.rdrop, List.length_take] at h32
        have hroom := hspells.room
        exact ⟨values, ⟨hspells, by omega, hprobe⟩, hlower, hbytes.symm⟩
  · rintro ⟨values, ⟨hspells, h58, hprobe⟩, hlower, hkey⟩
    obtain ⟨checked, hnew⟩ := (hcrate.new_isOk s).mpr ⟨_, values, hspells⟩
    have hbytes := hcrate.byteIter_eq s checked _ values hnew hspells
    -- none of the checks fails
    have hhrp : crate.hrp checked = relayPubkeyHrp := by
      rw [hcrate.hrp_eq s checked _ values hnew hspells, take_hrp_iff hspells]
      exact ⟨rfl, hlower⟩
    have h32 : (crate.byteIter checked).length = 32 := by
      rw [hbytes, Bech32.length_bytesOf, List.rdrop, List.length_take, h58]
      rfl
    have hempty : ¬s.isEmpty = true := by
      intro hnil
      have htext := hspells.text
      rw [List.isEmpty_iff.mp hnil] at htext
      cases htext
    have htrue : ¬x25519PublicKeyIsContributory P (crate.byteIter checked) = false := by
      rw [Bool.not_eq_false, contributory_iff hP h32, hbytes]
      exact hprobe
    rw [if_neg hempty, hnew]
    dsimp only
    rw [if_neg (not_not.mpr hhrp), dif_neg (not_not.mpr h32), if_neg htrue]
    exact congrArg Except.ok (RelayPubkey.ext (hbytes.trans hkey))

end

/-! ## White space at the ends -/

theorem not_isWhitespace {c : Char} (h : 33 ≤ c.toNat ∧ c.toNat ≤ 126) :
    Config.isWhitespaceKotlin c = false ∧ isWhitespace c = false := by
  simp only [Config.isWhitespaceKotlin, isWhitespace, Bool.or_eq_false_iff, Bool.and_eq_false_iff,
    decide_eq_false_iff_not]
  omega

theorem core_of_printable {s : Text} (h : ∀ c ∈ s, 33 ≤ c.toNat ∧ c.toNat ≤ 126) : core s = s := by
  apply Trim.trim_eq_self
  intro c hc
  obtain ⟨hkotlin, hrust⟩ := not_isWhitespace (h c hc)
  rw [hkotlin, hrust, Bool.or_false]

theorem trims_of_printable {s : Text} (h : ∀ c ∈ s, 33 ≤ c.toNat ∧ c.toNat ≤ 126) :
    trimKotlin s = s ∧ trimRust s = s :=
  ⟨Trim.trim_eq_self fun c hc => (not_isWhitespace (h c hc)).1,
    Trim.trim_eq_self fun c hc => (not_isWhitespace (h c hc)).2⟩

/-- A key that is left by one trim is what both trims leave together. -/
theorem exists_carries_iff {trimmed text : Text} (hcore : core trimmed = core text)
    {p : List ℕ → Prop} :
    (∃ values, Carries trimmed values ∧ p values) ↔
      trimmed = core text ∧ ∃ values, Carries (core text) values ∧ p values := by
  constructor
  · rintro ⟨values, h, hp⟩
    have htrimmed : trimmed = core text := by
      rw [← hcore, core_of_printable h.spells.printable]
    exact ⟨htrimmed, values, htrimmed ▸ h, hp⟩
  · rintro ⟨htrimmed, h⟩
    rw [htrimmed]
    exact h

/-! ## The agreement -/

/-- A key that the engine takes, up to how it is written, is taken on Android as well, and the other
way round: its padding and the white space of Android on one side, its case and the white space of
the engine on the other. -/
def SameVerdict (text : Text) : Prop :=
  ∀ values, Carries (core text) values →
    (trimKotlin text = core text ∧ Bech32.padding (values.rdrop 6) = 0 ↔
      trimRust text = core text ∧ Bech32.lower (core text) = core text)

section

variable {P : Primitives} {crate : Bech32Crate}

theorem agree_iff (hcrate : crate.Documented) (hP : P.IsX25519) (text : Text) :
    (validateDriveRelayPubkey text = none ↔
      ∃ key, RelayPubkey.fromBech32m P crate text = .ok key) ↔ SameVerdict text := by
  have hengine : (∃ key, RelayPubkey.fromBech32m P crate text = .ok key) ↔
      ∃ values, Carries (trimRust text) values ∧
        Bech32.lower (trimRust text) = trimRust text := by
    simp only [fromBech32m_eq_ok_iff hcrate hP]
    constructor
    · rintro ⟨key, values, h, hlower, -⟩
      exact ⟨values, h, hlower⟩
    · rintro ⟨values, h, hlower⟩
      have h32 : (Bech32.bytesOf (values.rdrop 6)).length = 32 := by
        rw [Bech32.length_bytesOf, List.rdrop, List.length_take, h.length]
        rfl
      exact ⟨⟨_, h32⟩, values, h, hlower, rfl⟩
  rw [hengine, validateDriveRelayPubkey_iff,
    exists_carries_iff (Config.core_trimKotlin text),
    exists_carries_iff (Config.core_trimRust text)]
  constructor
  · intro h values hvalues
    constructor
    · rintro ⟨hkotlin, hpad⟩
      obtain ⟨hrust, -, -, hlower⟩ := h.mp ⟨hkotlin, values, hvalues, hpad⟩
      rw [hrust] at hlower
      exact ⟨hrust, hlower⟩
    · rintro ⟨hrust, hlower⟩
      obtain ⟨hkotlin, values', hvalues', hpad⟩ :=
        h.mpr ⟨hrust, values, hvalues, by rw [hrust]; exact hlower⟩
      obtain ⟨-, rfl⟩ := hvalues.spells.unique hvalues'.spells
      exact ⟨hkotlin, hpad⟩
  · intro h
    constructor
    · rintro ⟨hkotlin, values, hvalues, hpad⟩
      obtain ⟨hrust, hlower⟩ := (h values hvalues).mp ⟨hkotlin, hpad⟩
      exact ⟨hrust, values, hvalues, by rw [hrust]; exact hlower⟩
    · rintro ⟨hrust, values, hvalues, hlower⟩
      rw [hrust] at hlower
      obtain ⟨hkotlin, hpad⟩ := (h values hvalues).mpr ⟨hrust, hlower⟩
      exact ⟨hkotlin, values, hvalues, hpad⟩

/-! ## A key that is not of low order -/

theorem probes_contributoryProbeScalar :
    Curve25519.Probes (Curve25519.decodeScalar contributoryProbeScalar) :=
  ⟨by decide +kernel, by decide +kernel, by decide +kernel⟩

theorem length_encode {bytes : List UInt8} (h : bytes.length = 32) :
    (Bech32.encode relayPubkeyHrp bytes).length = 63 := by
  rw [Bech32.encode, List.length_append, List.length_cons, List.length_map, List.length_append,
    Bech32.length_quintets, h, Bech32.checksum, BitBuffer.length_digits]
  rfl

/-- What a key is written as carries it, in small letters and with zeros behind it. -/
theorem carries_encode {bytes : List UInt8} (h : bytes.length = 32)
    (hkey : ¬Curve25519.LowOrder (Curve25519.decodeCoordinate bytes)) :
    ∃ values, Carries (Bech32.encode relayPubkeyHrp bytes) values ∧
      Bech32.lower (Bech32.encode relayPubkeyHrp bytes) = Bech32.encode relayPubkeyHrp bytes ∧
      Bech32.bytesOf (values.rdrop 6) = bytes ∧ Bech32.padding (values.rdrop 6) = 0 := by
  have hlower : Bech32.IsLower relayPubkeyHrp := by decide
  have h90 : (Bech32.encode relayPubkeyHrp bytes).length ≤ 90 := by
    rw [length_encode h]
    decide
  obtain ⟨hsmall, hspells⟩ := Bech32.spells_encode hlower h90
  have hsix : (Bech32.checksum relayPubkeyHrp (Bech32.quintets bytes)).length = 6 :=
    BitBuffer.length_digits _ _ _
  have hdata : (Bech32.quintets bytes ++
      Bech32.checksum relayPubkeyHrp (Bech32.quintets bytes)).rdrop 6 = Bech32.quintets bytes := by
    rw [List.rdrop, List.length_append, hsix, Nat.add_sub_cancel, List.take_left]
  refine ⟨_, ⟨hspells, ?_, ?_⟩, hsmall, ?_, ?_⟩
  · rw [List.length_append, hsix, Bech32.length_quintets, h]
  · rw [hdata, Bech32.bytesOf_quintets]
    exact Curve25519.x25519_ne_zero probes_contributoryProbeScalar hkey
  · rw [hdata, Bech32.bytesOf_quintets]
  · rw [hdata, Bech32.padding_quintets]

theorem accepted_toBech32m (hcrate : crate.Documented) (hP : P.IsX25519) (key : RelayPubkey)
    (hkey : ¬Curve25519.LowOrder (Curve25519.decodeCoordinate key.bytes)) :
    validateDriveRelayPubkey (key.toBech32m crate) = none ∧
      RelayPubkey.fromBech32m P crate (key.toBech32m crate) = .ok key := by
  have h90 : (Bech32.encode relayPubkeyHrp key.bytes).length ≤ 90 := by
    rw [length_encode key.length_eq]
    decide
  rw [RelayPubkey.toBech32m, hcrate.encode_eq _ _ (by decide) h90]
  obtain ⟨values, hvalues, hlower, hbytes, hpad⟩ := carries_encode key.length_eq hkey
  obtain ⟨hkotlin, hrust⟩ := trims_of_printable hvalues.spells.printable
  constructor
  · rw [validateDriveRelayPubkey_iff, hkotlin]
    exact ⟨values, hvalues, hpad⟩
  · rw [fromBech32m_eq_ok_iff hcrate hP, hrust]
    exact ⟨values, hvalues, hlower, hbytes⟩

/-- **Where the validators agree**, and that both take every key that is not of low order. -/
theorem relay_key_validators_agree_iff (hcrate : crate.Documented) (hP : P.IsX25519) :
    (∀ text, (validateDriveRelayPubkey text = none ↔
      ∃ key, RelayPubkey.fromBech32m P crate text = .ok key) ↔ SameVerdict text) ∧
    ∀ key : RelayPubkey, ¬Curve25519.LowOrder (Curve25519.decodeCoordinate key.bytes) →
      validateDriveRelayPubkey (key.toBech32m crate) = none ∧
        RelayPubkey.fromBech32m P crate (key.toBech32m crate) = .ok key :=
  ⟨agree_iff hcrate hP, accepted_toBech32m hcrate hP⟩

end

/-! ## The crates as they are documented -/

/-- A decoder of Bech32m that keeps the human-readable part as it is written. -/
def bip350 : Bech32Crate where
  Checked := Text × List UInt8
  new s :=
    match Bech32.decode s with
    | some (hrp, values) => .ok (s.take hrp.length, Bech32.bytesOf (values.rdrop 6))
    | none => .error "invalid Bech32m".toList
  hrp := Prod.fst
  byteIter := Prod.snd
  encode := Bech32.encode

theorem bip350_new {s hrp : Text} {values : List ℕ} (h : Bech32.Spells s hrp values) :
    bip350.new s = .ok (s.take hrp.length, Bech32.bytesOf (values.rdrop 6)) := by
  change (match Bech32.decode s with
    | some (hrp, values) => Except.ok (s.take hrp.length, Bech32.bytesOf (values.rdrop 6))
    | none => Except.error "invalid Bech32m".toList) = _
  rw [Bech32.decode_eq_some_iff.mpr h]
  rfl

theorem bip350_documented : bip350.Documented where
  new_isOk s := by
    constructor
    · rintro ⟨checked, h⟩
      change (match Bech32.decode s with
        | some (hrp, values) => Except.ok (s.take hrp.length, Bech32.bytesOf (values.rdrop 6))
        | none => Except.error "invalid Bech32m".toList) = _ at h
      cases hdecode : Bech32.decode s with
      | none =>
          rw [hdecode] at h
          cases h
      | some p => exact ⟨p.1, p.2, Bech32.decode_eq_some_iff.mp hdecode⟩
    · rintro ⟨hrp, values, h⟩
      exact ⟨_, bip350_new h⟩
  hrp_eq s checked hrp values h hspells := by
    rw [bip350_new hspells] at h
    rw [← Except.ok.inj h]
    rfl
  byteIter_eq s checked hrp values h hspells := by
    rw [bip350_new hspells] at h
    rw [← Except.ok.inj h]
    rfl
  encode_eq _ _ _ _ := rfl

/-- X25519; nothing here derives keys or seals. -/
def x25519Primitives : Primitives where
  diffieHellman := Curve25519.x25519
  wasContributory shared := shared.any (· ≠ 0)
  hkdf _ _ _ := []
  encrypt _ _ _ plaintext := plaintext
  decrypt _ _ _ ciphertext := some ciphertext

theorem isX25519_x25519Primitives : x25519Primitives.IsX25519 where
  diffieHellman_eq secret point _ _ := by rw [x25519Primitives]
  wasContributory_eq shared := by rw [x25519Primitives]

/-- The base point as a key. -/
def baseKey : RelayPubkey := ⟨9 :: List.replicate 31 0, rfl⟩

def baseKeyText : Text := "rgdr1pyqqqqqqqqqqqqqqqqqqqqqqqqqqqqqqqqqqqqqqqqqqqqqqqqqqtvvhmw".toList

theorem relay_key_validators_agree_iff_baseKey :
    ((validateDriveRelayPubkey baseKeyText = none ↔
      ∃ key, RelayPubkey.fromBech32m x25519Primitives bip350 baseKeyText = .ok key) ↔
        SameVerdict baseKeyText) ∧
    validateDriveRelayPubkey (baseKey.toBech32m bip350) = none ∧
      RelayPubkey.fromBech32m x25519Primitives bip350 (baseKey.toBech32m bip350) = .ok baseKey := by
  obtain ⟨hagree, haccept⟩ :=
    relay_key_validators_agree_iff bip350_documented isX25519_x25519Primitives
  exact ⟨hagree baseKeyText, haccept baseKey (by decide +kernel)⟩

/-- A key in capital letters, as a code for cameras has it, is taken on Android only. -/
theorem capital_letters_disagree :
    ¬(validateDriveRelayPubkey (Bech32.upper baseKeyText) = none ↔
      ∃ key, RelayPubkey.fromBech32m x25519Primitives bip350 (Bech32.upper baseKeyText) =
        .ok key) := by
  intro h
  obtain ⟨key, hkey⟩ := h.mp (by decide +kernel)
  obtain ⟨-, -, hlower, -⟩ :=
    (fromBech32m_eq_ok_iff bip350_documented isX25519_x25519Primitives _ key).mp hkey
  exact absurd hlower (by decide +kernel)

example : baseKey.toBech32m bip350 = baseKeyText := by decide +kernel

end Rahgozar.Drive
