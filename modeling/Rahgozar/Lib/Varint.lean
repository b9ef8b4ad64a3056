import Mathlib.Tactic

set_option autoImplicit false

/-! # Base-128 varints

A varint is a number in bytes of seven bits each, the lowest first; every byte but the last has
its high bit set. A number has many spellings, as the last bytes may be zero. The reader
accumulates the groups in 64 bits, and gives up when the text ends or at the tenth byte if that
one goes on too. What it reads does not depend on what follows.
-/

namespace Varint

/-- A varint of at most nine bytes. -/
structure Spelling where
  more : List UInt8
  last : UInt8
  high : ∀ b ∈ more, b &&& 0x80 ≠ 0
  low : last &&& 0x80 = 0
  length_le : more.length ≤ 8

/-- The number at the front and the bytes it takes; `acc` has the groups below bit `shift`. -/
def read : (shift : Nat) → (acc : UInt64) → List UInt8 → Option (UInt64 × Nat)
  | _, _, [] => none
  | shift, acc, b :: bs =>
      let acc := acc ||| (b &&& 0x7F).toUInt64 <<< UInt64.ofNat shift
      if b &&& 0x80 = 0 then some (acc, 1)
      else if 64 ≤ shift + 7 then none
      else (read (shift + 7) acc bs).map fun r => (r.1, r.2 + 1)

/-- The length of the varint at the front, of any length. -/
def skip : List UInt8 → Option Nat
  | [] => none
  | b :: bs => if b &&& 0x80 = 0 then some 1 else (skip bs).map (· + 1)

section

variable {shift n : Nat} {acc v : UInt64} {bs : List UInt8}

theorem read_cons (b : UInt8) :
    read shift acc (b :: bs) =
      if b &&& 0x80 = 0 then some (acc ||| (b &&& 0x7F).toUInt64 <<< UInt64.ofNat shift, 1)
      else if 64 ≤ shift + 7 then none
      else (read (shift + 7) (acc ||| (b &&& 0x7F).toUInt64 <<< UInt64.ofNat shift) bs).map
        fun r => (r.1, r.2 + 1) :=
  rfl

theorem skip_cons (b : UInt8) :
    skip (b :: bs) = if b &&& 0x80 = 0 then some 1 else (skip bs).map (· + 1) :=
  rfl

theorem read_pos (h : read shift acc bs = some (v, n)) : 0 < n := by
  cases bs with
  | nil => cases h
  | cons b bs =>
      simp only [read_cons] at h
      split_ifs at h
      · cases h
        exact Nat.one_pos
      · obtain ⟨r, -, hr⟩ := Option.map_eq_some_iff.mp h
        cases hr
        exact Nat.succ_pos _

theorem read_le (h : read shift acc bs = some (v, n)) : n ≤ bs.length := by
  induction bs generalizing shift acc n with
  | nil => cases h
  | cons b bs ih =>
      simp only [read_cons] at h
      split_ifs at h
      · cases h
        exact Nat.succ_pos _
      · obtain ⟨⟨v', n'⟩, hr, heq⟩ := Option.map_eq_some_iff.mp h
        cases heq
        exact Nat.succ_le_succ (ih hr)

theorem read_append (h : read shift acc bs = some (v, n)) (rest : List UInt8) :
    read shift acc (bs ++ rest) = some (v, n) := by
  induction bs generalizing shift acc n with
  | nil => cases h
  | cons b bs ih =>
      simp only [List.cons_append, read_cons] at h ⊢
      split_ifs at h ⊢
      · exact h
      · obtain ⟨⟨v', n'⟩, hr, heq⟩ := Option.map_eq_some_iff.mp h
        cases heq
        rw [ih hr]
        rfl

theorem read_of_append {rest : List UInt8} (h : read shift acc (bs ++ rest) = some (v, n))
    (hle : n ≤ bs.length) : read shift acc bs = some (v, n) := by
  induction bs generalizing shift acc n with
  | nil => exact absurd (read_pos h) (Nat.not_lt.mpr hle)
  | cons b bs ih =>
      simp only [List.cons_append, read_cons] at h ⊢
      split_ifs at h ⊢
      · exact h
      · obtain ⟨⟨v', n'⟩, hr, heq⟩ := Option.map_eq_some_iff.mp h
        cases heq
        rw [ih hr (Nat.le_of_succ_le_succ hle)]
        rfl

theorem skip_pos (h : skip bs = some n) : 0 < n := by
  cases bs with
  | nil => cases h
  | cons b bs =>
      simp only [skip_cons] at h
      split_ifs at h
      · cases h
        exact Nat.one_pos
      · obtain ⟨m, -, rfl⟩ := Option.map_eq_some_iff.mp h
        exact Nat.succ_pos _

theorem skip_le (h : skip bs = some n) : n ≤ bs.length := by
  induction bs generalizing n with
  | nil => cases h
  | cons b bs ih =>
      simp only [skip_cons] at h
      split_ifs at h
      · cases h
        exact Nat.succ_pos _
      · obtain ⟨m, hm, rfl⟩ := Option.map_eq_some_iff.mp h
        exact Nat.succ_le_succ (ih hm)

theorem skip_append (h : skip bs = some n) (rest : List UInt8) : skip (bs ++ rest) = some n := by
  induction bs generalizing n with
  | nil => cases h
  | cons b bs ih =>
      simp only [List.cons_append, skip_cons] at h ⊢
      split_ifs at h ⊢
      · exact h
      · obtain ⟨m, hm, rfl⟩ := Option.map_eq_some_iff.mp h
        rw [ih hm]
        rfl

theorem skip_of_append {rest : List UInt8} (h : skip (bs ++ rest) = some n)
    (hle : n ≤ bs.length) : skip bs = some n := by
  induction bs generalizing n with
  | nil => exact absurd (skip_pos h) (Nat.not_lt.mpr hle)
  | cons b bs ih =>
      simp only [List.cons_append, skip_cons] at h ⊢
      split_ifs at h ⊢
      · exact h
      · obtain ⟨m, hm, rfl⟩ := Option.map_eq_some_iff.mp h
        rw [ih hm (Nat.le_of_succ_le_succ hle)]
        rfl

end

/-! ## Spellings -/

namespace Spelling

def bytes (s : Spelling) : List UInt8 := s.more ++ [s.last]

/-- The number of the seven-bit groups. -/
def groups : List UInt8 → Nat
  | [] => 0
  | b :: bs => b.toNat % 128 + 128 * groups bs

def value (s : Spelling) : Nat := groups s.bytes

end Spelling

theorem toNat_group (b : UInt8) : (b &&& 0x7F).toUInt64.toNat = b.toNat % 128 := by
  rw [UInt8.toNat_toUInt64, UInt8.toNat_and]
  exact Nat.and_two_pow_sub_one_eq_mod b.toNat 7

/-- A group is put above what is there already. -/
theorem toNat_or_group {shift : Nat} {acc : UInt64} (b : UInt8) (hacc : acc.toNat < 2 ^ shift)
    (hshift : shift + 7 ≤ 63) :
    (acc ||| (b &&& 0x7F).toUInt64 <<< UInt64.ofNat shift).toNat
      = acc.toNat + 2 ^ shift * (b.toNat % 128) := by
  have hamount : (UInt64.ofNat shift).toNat % 64 = shift := by
    rw [UInt64.toNat_ofNat']
    omega
  have hfits : b.toNat % 128 * 2 ^ shift < 2 ^ 64 := by
    have hle : b.toNat % 128 * 2 ^ shift ≤ 2 ^ 7 * 2 ^ shift :=
      Nat.mul_le_mul_right _ (by omega)
    rw [← pow_add] at hle
    have hpow : (2 : Nat) ^ (7 + shift) ≤ 2 ^ 63 := Nat.pow_le_pow_right (by decide) (by omega)
    omega
  rw [UInt64.toNat_or, UInt64.toNat_shiftLeft, toNat_group, hamount, Nat.shiftLeft_eq,
    Nat.mod_eq_of_lt hfits, Nat.or_comm, Nat.mul_comm, ← Nat.two_pow_add_eq_or_of_lt hacc,
    Nat.add_comm]

theorem read_groups {shift : Nat} {acc : UInt64} (more : List UInt8) (last : UInt8)
    (rest : List UInt8) (hhigh : ∀ b ∈ more, b &&& 0x80 ≠ 0) (hlow : last &&& 0x80 = 0)
    (hacc : acc.toNat < 2 ^ shift) (hshift : shift + 7 * (more.length + 1) ≤ 63) :
    ∃ v, read shift acc (more ++ last :: rest) = some (v, more.length + 1) ∧
      v.toNat = acc.toNat + 2 ^ shift * Spelling.groups (more ++ [last]) := by
  induction more generalizing shift acc with
  | nil =>
      refine ⟨_, by simp only [List.nil_append, read_cons, hlow, if_true]; rfl, ?_⟩
      rw [toNat_or_group last hacc (by simpa using hshift)]
      rfl
  | cons b more ih =>
      rw [List.length_cons] at hshift
      have hgroup := toNat_or_group b hacc (by omega)
      have hacc' : (acc ||| (b &&& 0x7F).toUInt64 <<< UInt64.ofNat shift).toNat
          < 2 ^ (shift + 7) := by
        rw [hgroup, pow_add]
        calc acc.toNat + 2 ^ shift * (b.toNat % 128)
            < 2 ^ shift + 2 ^ shift * (b.toNat % 128) := by omega
          _ = 2 ^ shift * (b.toNat % 128 + 1) := by ring
          _ ≤ 2 ^ shift * 2 ^ 7 := Nat.mul_le_mul_left _ (by omega)
      obtain ⟨v, hread, hv⟩ := ih (fun b' hb' => hhigh b' (List.mem_cons_of_mem _ hb')) hacc'
        (by omega)
      refine ⟨v, ?_, ?_⟩
      · simp only [List.cons_append, read_cons]
        rw [if_neg (hhigh b List.mem_cons_self), if_neg (by omega), hread]
        rfl
      · have hgroups : Spelling.groups (b :: (more ++ [last]))
            = b.toNat % 128 + 128 * Spelling.groups (more ++ [last]) := rfl
        rw [hv, hgroup, List.cons_append, hgroups, pow_add]
        ring

theorem skip_groups (more : List UInt8) (last : UInt8) (rest : List UInt8)
    (hhigh : ∀ b ∈ more, b &&& 0x80 ≠ 0) (hlow : last &&& 0x80 = 0) :
    skip (more ++ last :: rest) = some (more.length + 1) := by
  induction more with
  | nil => simp [skip_cons, hlow]
  | cons b more ih =>
      have hrest := ih fun b' hb' => hhigh b' (List.mem_cons_of_mem _ hb')
      simp only [List.cons_append, skip_cons]
      rw [if_neg (hhigh b List.mem_cons_self), hrest]
      rfl

namespace Spelling

/-- A spelling is read as its number, whatever follows. -/
theorem read_bytes (s : Spelling) (rest : List UInt8) :
    ∃ v, read 0 0 (s.bytes ++ rest) = some (v, s.bytes.length) ∧ v.toNat = s.value := by
  have hacc : (0 : UInt64).toNat < 2 ^ 0 := by simp
  have hshift : 0 + 7 * (s.more.length + 1) ≤ 63 := by
    have := s.length_le
    omega
  obtain ⟨v, hread, hv⟩ := read_groups s.more s.last rest s.high s.low hacc hshift
  refine ⟨v, ?_, by simpa [value, bytes] using hv⟩
  simpa [bytes] using hread

theorem skip_bytes (s : Spelling) (rest : List UInt8) :
    skip (s.bytes ++ rest) = some s.bytes.length := by
  have h := skip_groups s.more s.last rest s.high s.low
  simpa [bytes] using h

end Spelling

end Varint
