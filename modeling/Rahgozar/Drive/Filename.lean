import Rahgozar.Drive.Wire

set_option autoImplicit false

/-! # File names of the mailbox (`drive-wire/src/filename.rs`)

`h_<sid>_0`, `c2r_<sid>_<seq>` and `r2c_<sid>_<seq>`, with the session in base32 and the number in
decimal. A name that does not parse belongs to somebody else.
-/

namespace Rahgozar.Drive

inductive Direction where
  | clientToRelay
  | relayToClient
deriving DecidableEq

inductive FilenameKind where
  | hello
  | frame (direction : Direction)
deriving DecidableEq

structure DriveFilename where
  kind : FilenameKind
  sid : SessionId
  seq : Nat
deriving DecidableEq

/-! ## Formatting -/

/-- `ALPHABET`. -/
def alphabet : List Char :=
  ['a', 'b', 'c', 'd', 'e', 'f', 'g', 'h', 'i', 'j', 'k', 'l', 'm', 'n', 'o', 'p', 'q', 'r', 's',
    't', 'u', 'v', 'w', 'x', 'y', 'z', '2', '3', '4', '5', '6', '7']

def b32Char (idx : Nat) : Char := alphabet.getD idx 'a'

/-- `while bits_in_buffer >= 5`: the bits that are left, and the text. -/
def drainB32 (buffer : Nat) : Nat → List Char → Nat × List Char
  | bits + 5, out => drainB32 buffer bits (out ++ [b32Char (buffer / 2 ^ bits % 32)])
  | bits, out => (bits, out)

/-- The loop of `encode_sid_b32`, and the bits behind the last group; `buffer` is a `u64` whose
high bits are shifted out. -/
def encodeB32 (buffer bits : Nat) (out : List Char) : List UInt8 → List Char
  | [] =>
      if 0 < bits then out ++ [b32Char (buffer * 2 ^ (5 - bits) % u64Size % 32)] else out
  | byte :: rest =>
      let buffer := (buffer * 256 + byte.toNat) % u64Size
      let (bits, out) := drainB32 buffer (bits + 8) out
      encodeB32 buffer bits out rest

def encodeSidB32 (sid : SessionId) : List Char := encodeB32 0 0 [] sid.val

def prefixHello : List Char := ['h', '_']
def prefixC2r : List Char := ['c', '2', 'r', '_']
def prefixR2c : List Char := ['r', '2', 'c', '_']

/-- What the names of a kind start with. -/
def FilenameKind.start : FilenameKind → List Char
  | .hello => prefixHello
  | .frame .clientToRelay => prefixC2r
  | .frame .relayToClient => prefixR2c

def DriveFilename.format (f : DriveFilename) : List Char :=
  f.kind.start ++ (encodeSidB32 f.sid ++ '_' :: Nat.toDigits 10 f.seq)

/-! ## Parsing -/

/-- `str::parse` of an unsigned integer below `size`: an optional plus sign and at least one
digit. -/
def parseUnsigned (size : Nat) (text : List Char) : Option Nat :=
  let digits := match text with
    | '+' :: rest => rest
    | _ => text
  if digits.isEmpty || !digits.all Char.isDigit then none
  else
    let n := digits.foldl (fun acc c => acc * 10 + (c.toNat - '0'.toNat)) 0
    if n < size then some n else none

def stripPrefix (start text : List Char) : Option (List Char) :=
  if start.isPrefixOf text then some (text.drop start.length) else none

/-- The text before and after the last occurrence of `c`. -/
def rsplitOnce (c : Char) : List Char → Option (List Char × List Char)
  | [] => none
  | x :: rest =>
      match rsplitOnce c rest with
      | some (before, after) => some (x :: before, after)
      | none => if x = c then some ([], rest) else none

def decodeB32Char (c : UInt8) : Option Nat :=
  if 97 ≤ c ∧ c ≤ 122 then some (c.toNat - 97)
  else if 65 ≤ c ∧ c ≤ 90 then some (c.toNat - 65)
  else if 50 ≤ c ∧ c ≤ 55 then some (c.toNat - 50 + 26)
  else none

/-- The loop of `decode_sid_b32`; `buffer` is a `u64` whose high bits are shifted out. -/
def decodeB32 (buffer bits : Nat) (out : List UInt8) : List UInt8 → Option (List UInt8)
  | [] => some out
  | c :: rest =>
      match decodeB32Char c with
      | none => none
      | some v =>
          let buffer := (buffer * 32 + v) % u64Size
          let bits := bits + 5
          if 8 ≤ bits then
            if 16 ≤ out.length then none
            else decodeB32 buffer (bits - 8) (out ++ [UInt8.ofNat (buffer / 2 ^ (bits - 8))]) rest
          else decodeB32 buffer bits out rest

def decodeSidB32 (text : List Char) : Option SessionId :=
  let bytes := text.flatMap String.utf8EncodeChar
  if bytes.length ≠ 26 then none
  else
    match decodeB32 0 0 [] bytes with
    | some out => if h : out.length = 16 then some ⟨out, h⟩ else none
    | none => none

/-- The kind a name starts with. -/
def splitKind (name : List Char) : Option (FilenameKind × List Char) :=
  match stripPrefix prefixC2r name with
  | some rest => some (.frame .clientToRelay, rest)
  | none =>
      match stripPrefix prefixR2c name with
      | some rest => some (.frame .relayToClient, rest)
      | none => (stripPrefix prefixHello name).map fun rest => (.hello, rest)

def parseFilename (name : List Char) : Option DriveFilename := do
  let (kind, rest) ← splitKind name
  let (sidB32, seqStr) ← rsplitOnce '_' rest
  let sid ← decodeSidB32 sidB32
  let seq ← parseUnsigned u64Size seqStr
  if kind = .hello ∧ seq ≠ 0 then none
  else some ⟨kind, sid, seq⟩

end Rahgozar.Drive
