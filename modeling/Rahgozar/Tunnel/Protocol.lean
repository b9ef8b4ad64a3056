import Mathlib.Tactic

set_option autoImplicit false

/-! # Batch protocol types

The operations a client puts into a batch and the JSON text of them. `BatchOp` is declared
twice in the source, in `src/domain_fronter.rs` and in `tunnel-node/src/main.rs`, with the same
fields; absent fields are left out on the way and read back as `None`, so one type serves for
both ends.
-/

namespace Rahgozar.Tunnel

/-- One operation of a batch; `d` is base64 text. The `u64` counters `seq` and `wseq` start at 0
and go up by one, so they are natural numbers. -/
structure BatchOp where
  op : String
  sid : Option String
  host : Option String
  port : Option UInt16
  d : Option (List Char)
  seq : Option Nat
  wseq : Option Nat
deriving DecidableEq

/-! ## `serde_json::to_vec` of the node's `BatchOp` -/

/-- A character inside a JSON string, with the escapes of `serde_json`. -/
def jsonChar (c : Char) : List Char :=
  if c = '"' then ['\\', '"']
  else if c = '\\' then ['\\', '\\']
  else if c.toNat = 0x08 then ['\\', 'b']
  else if c.toNat = 0x09 then ['\\', 't']
  else if c.toNat = 0x0A then ['\\', 'n']
  else if c.toNat = 0x0C then ['\\', 'f']
  else if c.toNat = 0x0D then ['\\', 'r']
  else if c.toNat < 0x20 then
    ['\\', 'u', '0', '0', Nat.digitChar (c.toNat / 16), Nat.digitChar (c.toNat % 16)]
  else [c]

def jsonText (s : List Char) : List Char := '"' :: s.flatMap jsonChar ++ ['"']

def jsonString (s : String) : List Char := jsonText s.toList

def jsonNat (n : Nat) : List Char := Nat.toDigits 10 n

def jsonOption {α : Type} (f : α → List Char) : Option α → List Char
  | none => "null".toList
  | some a => f a

def jsonField (name : String) (value : List Char) : List Char := jsonString name ++ ':' :: value

/-- An object with all seven fields: the node's type has no `skip_serializing_if`. -/
def BatchOp.toJson (o : BatchOp) : List Char :=
  '\x7b' :: [','].intercalate
    [ jsonField "op" (jsonString o.op),
      jsonField "sid" (jsonOption jsonString o.sid),
      jsonField "host" (jsonOption jsonString o.host),
      jsonField "port" (jsonOption (fun p => jsonNat p.toNat) o.port),
      jsonField "d" (jsonOption jsonText o.d),
      jsonField "seq" (jsonOption jsonNat o.seq),
      jsonField "wseq" (jsonOption jsonNat o.wseq) ] ++ ['\x7d']

def toVec (ops : List BatchOp) : List UInt8 :=
  ('[' :: [','].intercalate (ops.map BatchOp.toJson) ++ [']']).flatMap String.utf8EncodeChar

/-! ## Replay safety -/

/-- Client side: may a batch whose outcome is unknown be sent again? -/
def batchIsReplaySafe (ops : List BatchOp) : Bool :=
  !ops.isEmpty &&
    ops.all fun o =>
      o.op = "data" && (o.sid.any fun sid => !sid.isEmpty) && o.seq.isSome &&
        ((o.d.all fun d => d.isEmpty) || o.wseq.isSome)

/-- A BLAKE3 digest. -/
abbrev Fingerprint := { bytes : List UInt8 // bytes.length = 32 }

/-- Node side: the key under which a batch is de-duplicated. `blake3` is the hash of the whole
input fed to the hasher. -/
def replayFingerprint (blake3 : List UInt8 → Fingerprint) (ops : List BatchOp)
    (compressedResponse : Bool) : Option Fingerprint :=
  if ops.isEmpty || (ops.any fun o =>
      o.op ≠ "data" || (o.sid.all fun sid => sid.isEmpty) || o.seq.isNone ||
        ((o.d.any fun d => !d.isEmpty) && o.wseq.isNone)) then none
  else some (blake3 ((if compressedResponse then 1 else 0) :: toVec ops))

/-- The answer to one operation; `d` is base64 text. -/
structure TunnelResponse where
  sid : Option String
  d : Option (List Char)
  pkts : Option (List (List Char))
  eof : Option Bool
  e : Option String
  code : Option String
  seq : Option Nat
deriving DecidableEq

/-- `TunnelResponse::error` -/
def TunnelResponse.error (msg : String) : TunnelResponse :=
  ⟨none, none, none, none, some msg, none, none⟩

end Rahgozar.Tunnel
