import Mathlib.Tactic

set_option autoImplicit false

/-! # Base64

The standard alphabet with required canonical padding: a text decodes only if it is the
encoding of what it decodes to. Three bytes become four sextets; a last group of one or two
bytes is filled up with `=`, and its unused bits are zero.
-/

namespace Base64

/-- The character of a sextet. -/
def symbol (n : Nat) : Char :=
  if n < 26 then Char.ofNat (n + 65)
  else if n < 52 then Char.ofNat (n + 71)
  else if n < 62 then Char.ofNat (n - 4)
  else if n = 62 then '+'
  else '/'

/-- The sextet of a character of the alphabet. -/
def sextet (c : Char) : Option Nat :=
  if 65 ≤ c.toNat ∧ c.toNat ≤ 90 then some (c.toNat - 65)
  else if 97 ≤ c.toNat ∧ c.toNat ≤ 122 then some (c.toNat - 71)
  else if 48 ≤ c.toNat ∧ c.toNat ≤ 57 then some (c.toNat + 4)
  else if c = '+' then some 62
  else if c = '/' then some 63
  else none

def encode : List UInt8 → List Char
  | [] => []
  | [a] => [symbol (a.toNat / 4), symbol (a.toNat % 4 * 16), '=', '=']
  | [a, b] =>
      [symbol (a.toNat / 4), symbol (a.toNat % 4 * 16 + b.toNat / 16), symbol (b.toNat % 16 * 4),
        '=']
  | a :: b :: c :: rest =>
      symbol (a.toNat / 4) :: symbol (a.toNat % 4 * 16 + b.toNat / 16)
        :: symbol (b.toNat % 16 * 4 + c.toNat / 64) :: symbol (c.toNat % 64) :: encode rest

/-- The bytes of a last group of four characters. -/
def decodeLast (c₀ c₁ c₂ c₃ : Char) : Option (List UInt8) :=
  match sextet c₀, sextet c₁, sextet c₂, sextet c₃ with
  | some s₀, some s₁, some s₂, some s₃ =>
      some [UInt8.ofNat (s₀ * 4 + s₁ / 16), UInt8.ofNat (s₁ % 16 * 16 + s₂ / 4),
        UInt8.ofNat (s₂ % 4 * 64 + s₃)]
  | some s₀, some s₁, some s₂, none =>
      if c₃ = '=' ∧ s₂ % 4 = 0 then
        some [UInt8.ofNat (s₀ * 4 + s₁ / 16), UInt8.ofNat (s₁ % 16 * 16 + s₂ / 4)]
      else none
  | some s₀, some s₁, none, none =>
      if c₂ = '=' ∧ c₃ = '=' ∧ s₁ % 16 = 0 then some [UInt8.ofNat (s₀ * 4 + s₁ / 16)] else none
  | _, _, _, _ => none

def decode : List Char → Option (List UInt8)
  | [] => some []
  | [c₀, c₁, c₂, c₃] => decodeLast c₀ c₁ c₂ c₃
  | c₀ :: c₁ :: c₂ :: c₃ :: rest =>
      match sextet c₀, sextet c₁, sextet c₂, sextet c₃ with
      | some s₀, some s₁, some s₂, some s₃ =>
          (decode rest).map fun bytes =>
            UInt8.ofNat (s₀ * 4 + s₁ / 16) :: UInt8.ofNat (s₁ % 16 * 16 + s₂ / 4)
              :: UInt8.ofNat (s₂ % 4 * 64 + s₃) :: bytes
      | _, _, _, _ => none
  | _ => none

theorem sextet_symbol {n : Nat} (h : n < 64) : sextet (symbol n) = some n := by
  have hall : ∀ m : Fin 64, sextet (symbol m) = some m.val := by decide
  exact hall ⟨n, h⟩

/-- The first byte of a group from its first two sextets. -/
theorem byte₀ (a : UInt8) {k : Nat} (hk : k < 16) :
    UInt8.ofNat (a.toNat / 4 * 4 + (a.toNat % 4 * 16 + k) / 16) = a := by
  have ha := a.toNat_lt
  have : a.toNat / 4 * 4 + (a.toNat % 4 * 16 + k) / 16 = a.toNat := by omega
  rw [this, UInt8.ofNat_toNat]

theorem byte₁ (b : UInt8) (j : Nat) {k : Nat} (hk : k < 4) :
    UInt8.ofNat ((j * 16 + b.toNat / 16) % 16 * 16 + (b.toNat % 16 * 4 + k) / 4) = b := by
  have hb := b.toNat_lt
  have : (j * 16 + b.toNat / 16) % 16 * 16 + (b.toNat % 16 * 4 + k) / 4 = b.toNat := by omega
  rw [this, UInt8.ofNat_toNat]

theorem byte₂ (c : UInt8) (j : Nat) :
    UInt8.ofNat ((j * 4 + c.toNat / 64) % 4 * 64 + c.toNat % 64) = c := by
  have hc := c.toNat_lt
  have : (j * 4 + c.toNat / 64) % 4 * 64 + c.toNat % 64 = c.toNat := by omega
  rw [this, UInt8.ofNat_toNat]

theorem sextet_pad : sextet '=' = none := by decide

/-- **Round trip.** -/
theorem decode_encode (bytes : List UInt8) : decode (encode bytes) = some bytes := by
  fun_induction encode bytes with
  | case1 => rfl
  | case2 a =>
      have ha := a.toNat_lt
      have hs : sextet (symbol (a.toNat % 4 * 16)) = some (a.toNat % 4 * 16 + 0) :=
        sextet_symbol (by omega)
      simp only [decode, decodeLast, sextet_pad, hs, sextet_symbol (show a.toNat / 4 < 64 by omega)]
      rw [if_pos ⟨trivial, trivial, by omega⟩, byte₀ a (by omega)]
  | case3 a b =>
      have ha := a.toNat_lt
      have hb := b.toNat_lt
      have hs : sextet (symbol (b.toNat % 16 * 4)) = some (b.toNat % 16 * 4 + 0) :=
        sextet_symbol (by omega)
      simp only [decode, decodeLast, sextet_pad, hs, sextet_symbol (show a.toNat / 4 < 64 by omega),
        sextet_symbol (show a.toNat % 4 * 16 + b.toNat / 16 < 64 by omega)]
      rw [if_pos ⟨trivial, by omega⟩, byte₀ a (by omega), byte₁ b _ (by omega)]
  | case4 a b c rest ih =>
      have ha := a.toNat_lt
      have hb := b.toNat_lt
      have hc := c.toNat_lt
      have h₀ : sextet (symbol (a.toNat / 4)) = some (a.toNat / 4) := sextet_symbol (by omega)
      have h₁ : sextet (symbol (a.toNat % 4 * 16 + b.toNat / 16))
          = some (a.toNat % 4 * 16 + b.toNat / 16) := sextet_symbol (by omega)
      have h₂ : sextet (symbol (b.toNat % 16 * 4 + c.toNat / 64))
          = some (b.toNat % 16 * 4 + c.toNat / 64) := sextet_symbol (by omega)
      have h₃ : sextet (symbol (c.toNat % 64)) = some (c.toNat % 64) := sextet_symbol (by omega)
      cases hrest : encode rest with
      | nil =>
          -- the last group: nothing follows, so `rest` is empty
          rw [hrest] at ih
          cases ih
          simp only [decode, decodeLast, h₀, h₁, h₂, h₃]
          rw [byte₀ a (by omega), byte₁ b _ (by omega), byte₂ c]
      | cons d text =>
          rw [hrest] at ih
          simp only [decode, h₀, h₁, h₂, h₃, ih, Option.map_some]
          rw [byte₀ a (by omega), byte₁ b _ (by omega), byte₂ c]

/-- Four characters for three bytes, the last group filled up. -/
theorem length_encode : ∀ bytes : List UInt8, (encode bytes).length = (bytes.length + 2) / 3 * 4
  | [] => rfl
  | [_] => by simp [encode]
  | [_, _] => by simp [encode]
  | _ :: _ :: _ :: rest => by
      show (encode rest).length + 4 = (rest.length + 3 + 2) / 3 * 4
      rw [length_encode rest]
      omega

theorem encode_eq_nil {bytes : List UInt8} (h : encode bytes = []) : bytes = [] := by
  have hd := decode_encode bytes
  rw [h] at hd
  exact (Option.some.inj hd).symm

/-- A text that decodes to something has at least four characters. -/
theorem four_le_of_decode {text : List Char} {b : UInt8} {bytes : List UInt8}
    (h : decode text = some (b :: bytes)) : 4 ≤ text.length := by
  match text, h with
  | [], h => cases h
  | [_], h => cases h
  | [_, _], h => cases h
  | [_, _, _], h => cases h
  | _ :: _ :: _ :: _ :: _, _ => simp

/-! ## The URL-safe alphabet -/

theorem mem_encode {bytes : List UInt8} {c : Char} (h : c ∈ encode bytes) :
    c = '=' ∨ ∃ n < 64, c = symbol n := by
  have hlt : ∀ a : UInt8, a.toNat < 256 := fun a => a.toNat_lt
  fun_induction encode bytes with
  | case1 => cases h
  | case2 a =>
      have ha := hlt a
      simp only [List.mem_cons, List.not_mem_nil, or_false] at h
      rcases h with rfl | rfl | rfl | rfl
      · exact Or.inr ⟨_, by omega, rfl⟩
      · exact Or.inr ⟨_, by omega, rfl⟩
      · exact Or.inl rfl
      · exact Or.inl rfl
  | case3 a b =>
      have ha := hlt a
      have hb := hlt b
      simp only [List.mem_cons, List.not_mem_nil, or_false] at h
      rcases h with rfl | rfl | rfl | rfl
      · exact Or.inr ⟨_, by omega, rfl⟩
      · exact Or.inr ⟨_, by omega, rfl⟩
      · exact Or.inr ⟨_, by omega, rfl⟩
      · exact Or.inl rfl
  | case4 a b c rest ih =>
      have ha := hlt a
      have hb := hlt b
      have hc := hlt c
      simp only [List.mem_cons] at h
      rcases h with rfl | rfl | rfl | rfl | h
      · exact Or.inr ⟨_, by omega, rfl⟩
      · exact Or.inr ⟨_, by omega, rfl⟩
      · exact Or.inr ⟨_, by omega, rfl⟩
      · exact Or.inr ⟨_, by omega, rfl⟩
      · exact ih h

/-- The last two symbols against those that may stand in a URL, and back. -/
def swapUrl (c : Char) : Char :=
  if c = '+' then '-'
  else if c = '-' then '+'
  else if c = '/' then '_'
  else if c = '_' then '/'
  else c

theorem swapUrl_swapUrl (c : Char) : swapUrl (swapUrl c) = c := by
  unfold swapUrl
  split_ifs <;> simp_all

def encodeUrl (bytes : List UInt8) : List Char := (encode bytes).map swapUrl

def decodeUrl (text : List Char) : Option (List UInt8) := decode (text.map swapUrl)

theorem decodeUrl_encodeUrl (bytes : List UInt8) : decodeUrl (encodeUrl bytes) = some bytes := by
  have hswap : (encodeUrl bytes).map swapUrl = encode bytes := by
    rw [encodeUrl, List.map_map]
    exact (List.map_congr_left fun c _ => swapUrl_swapUrl c).trans (List.map_id _)
  rw [decodeUrl, hswap, decode_encode]

/-- Every character is visible ASCII. -/
theorem toNat_of_mem_encodeUrl {bytes : List UInt8} {c : Char} (h : c ∈ encodeUrl bytes) :
    32 < c.toNat ∧ c.toNat < 127 := by
  have hall : ∀ n : Fin 64, 32 < (swapUrl (symbol n)).toNat ∧ (swapUrl (symbol n)).toNat < 127 := by
    decide
  obtain ⟨d, hd, rfl⟩ := List.mem_map.mp h
  rcases mem_encode hd with rfl | ⟨n, hn, rfl⟩
  · decide
  · exact hall ⟨n, hn⟩

end Base64
