import Rahgozar.Drive.Wire

set_option autoImplicit false

/-! # Keys, sealing and the replay window (`src/drive_crypto.rs`)

X25519, HKDF-SHA256 and ChaCha20-Poly1305 come from libraries; `Primitives` stands for them.
-/

namespace Rahgozar.Drive

abbrev Key := List UInt8

structure Primitives where
  diffieHellman : (secret point : List UInt8) → List UInt8
  wasContributory : (shared : List UInt8) → Bool
  hkdf : (salt ikm info : List UInt8) → Key
  encrypt : (key : Key) → (nonce aad plaintext : List UInt8) → List UInt8
  decrypt : (key : Key) → (nonce aad ciphertext : List UInt8) → Option (List UInt8)

def helloBodyLen : Nat := 64

structure HelloBody where
  clientEphemeralPubkey : List UInt8
  cookie : List UInt8
  sid : SessionId
deriving DecidableEq

def HelloBody.decode (bytes : List UInt8) : Option HelloBody :=
  if h : bytes.length = helloBodyLen then
    some ⟨bytes.take 32, (bytes.drop 32).take 16, ⟨bytes.drop 48, by
      rw [List.length_drop, h]
      rfl⟩⟩
  else none

structure SessionKeys where
  sid : SessionId
  kC2r : Key
  kR2c : Key
deriving DecidableEq

/-- `c2r|` and `r2c|` in front of the session, the `info` of the two keys. -/
def infoC2r (sid : SessionId) : List UInt8 := [99, 50, 114, 124] ++ sid.val
def infoR2c (sid : SessionId) : List UInt8 := [114, 50, 99, 124] ++ sid.val

namespace Primitives

def deriveDirectionalKeys (P : Primitives) (shared cookie : List UInt8) (sid : SessionId) :
    Key × Key :=
  (P.hkdf cookie shared (infoC2r sid), P.hkdf cookie shared (infoR2c sid))

/-- The relay's half of the key agreement. -/
def relayAccept (P : Primitives) (relaySecret : List UInt8) (sid : SessionId) (hello : HelloBody) :
    Option SessionKeys :=
  if hello.sid ≠ sid then none
  else
    let shared := P.diffieHellman relaySecret hello.clientEphemeralPubkey
    if P.wasContributory shared then
      let (kC2r, kR2c) := P.deriveDirectionalKeys shared hello.cookie sid
      some ⟨sid, kC2r, kR2c⟩
    else none

end Primitives

/-! ## Sealing -/

def buildNonce (seq : Nat) : List UInt8 := (BigEndian.put 8 seq).reverse ++ [0, 0, 0, 0]

def buildAad (sid : SessionId) (seq : Nat) : List UInt8 := sid.val ++ BigEndian.put 8 seq

/-- One call of `AeadCipher::seal`. -/
structure SealCall where
  key : Key
  sid : SessionId
  seq : Nat
  plaintext : List UInt8
deriving DecidableEq

def SealCall.body (P : Primitives) (c : SealCall) : List UInt8 :=
  P.encrypt c.key (buildNonce c.seq) (buildAad c.sid c.seq) c.plaintext

/-- `AeadCipher::open` -/
def Primitives.openSealed (P : Primitives) (key : Key) (sid : SessionId) (seq : Nat)
    (ciphertext : List UInt8) : Option (List UInt8) :=
  P.decrypt key (buildNonce seq) (buildAad sid seq) ciphertext

/-! ## The replay window -/

structure ReplayWindow where
  lastSeen : Option Nat
deriving DecidableEq

inductive StrictSeqError where
  | replay (seq lastAccepted : Nat)
  | future (seq expected : Nat)
deriving DecidableEq

namespace ReplayWindow

def new : ReplayWindow := ⟨none⟩

/-- The number behind the last one accepted, if there is one. -/
def nextExpected (w : ReplayWindow) : Option Nat :=
  match w.lastSeen with
  | none => some 0
  | some prev => if prev + 1 < u64Size then some (prev + 1) else none

def checkNext (w : ReplayWindow) (seq : Nat) : Except StrictSeqError Unit :=
  match w.nextExpected with
  | none => .error (.replay seq (w.lastSeen.getD 0))
  | some expected =>
      if seq = expected then .ok ()
      else if seq < expected then .error (.replay seq (expected - 1))
      else .error (.future seq expected)

def commit (w : ReplayWindow) (seq : Nat) : ReplayWindow :=
  match w.lastSeen with
  | some prev => ⟨some (max prev seq)⟩
  | none => ⟨some seq⟩

/-- `n` frames have been accepted, the ones with the numbers below `n`. -/
def Counts (w : ReplayWindow) (n : Nat) : Prop :=
  (n = 0 ∧ w.lastSeen = none) ∨ ∃ prev, n = prev + 1 ∧ w.lastSeen = some prev

theorem new_counts : new.Counts 0 := .inl ⟨rfl, rfl⟩

/-- Only the next number passes. -/
theorem Counts.eq_of_checkNext {w : ReplayWindow} {n seq : Nat} (h : w.Counts n)
    (hok : w.checkNext seq = .ok ()) : seq = n := by
  unfold checkNext nextExpected at hok
  rcases h with ⟨rfl, hlast⟩ | ⟨prev, rfl, hlast⟩
  · rw [hlast] at hok
    dsimp only at hok
    split_ifs at hok with hseq
    exact hseq
  · rw [hlast] at hok
    dsimp only at hok
    by_cases hmax : prev + 1 < u64Size
    · rw [if_pos hmax] at hok
      dsimp only at hok
      split_ifs at hok with hseq
      exact hseq
    · rw [if_neg hmax] at hok
      cases hok

theorem Counts.commit {w : ReplayWindow} {n : Nat} (h : w.Counts n) :
    (w.commit n).Counts (n + 1) := by
  unfold ReplayWindow.commit
  rcases h with ⟨rfl, hlast⟩ | ⟨prev, rfl, hlast⟩
  · rw [hlast]
    exact .inr ⟨0, rfl, rfl⟩
  · rw [hlast]
    have hmax : max prev (prev + 1) = prev + 1 := Nat.max_eq_right (Nat.le_succ prev)
    exact .inr ⟨prev + 1, rfl, congrArg some hmax⟩

end ReplayWindow

end Rahgozar.Drive
