import Rahgozar.Drive.Peers
import Rahgozar.Lib.Run
import Rahgozar.Lib.Traverse

set_option autoImplicit false

/-! # Which destinations the relay dials (`drive-relay/src/session.rs`, `drive-relay/src/state.rs`)

`destination_allowed` refuses hosts that are not on the operator's list or, when there is no list,
IP literals of the relay's own network. It reads an IP literal with the parser of `std::net`. The
dialler does so too, but gives what that parser does not take to the system's resolver, which reads
more spellings of an address without asking the DNS.
-/

namespace Rahgozar.Drive

/-! ## Addresses -/

structure Ipv4Addr where
  a : UInt8
  b : UInt8
  c : UInt8
  d : UInt8
deriving DecidableEq

/-- The segments of the address. -/
abbrev Ipv6Addr := Fin 8 → UInt16

inductive IpAddr where
  | v4 (ip : Ipv4Addr)
  | v6 (ip : Ipv6Addr)
deriving DecidableEq

def Ipv4Addr.isLoopback (ip : Ipv4Addr) : Bool := ip.a == 127

def Ipv4Addr.isPrivate (ip : Ipv4Addr) : Bool :=
  ip.a == 10 || (ip.a == 172 && 16 ≤ ip.b && ip.b ≤ 31) || (ip.a == 192 && ip.b == 168)

def Ipv4Addr.isLinkLocal (ip : Ipv4Addr) : Bool := ip.a == 169 && ip.b == 254

def Ipv4Addr.isUnspecified (ip : Ipv4Addr) : Bool := ip == ⟨0, 0, 0, 0⟩

def Ipv4Addr.isBroadcast (ip : Ipv4Addr) : Bool := ip == ⟨255, 255, 255, 255⟩

/-- `is_internal_ip` of an IPv4 address. -/
def Ipv4Addr.isInternal (ip : Ipv4Addr) : Bool :=
  ip.isLoopback || ip.isPrivate || ip.isLinkLocal || ip.isUnspecified || ip.isBroadcast
    -- shared address space (RFC 6598)
    || (ip.a == 100 && ip.b &&& 0xc0 == 64)

def Ipv6Addr.toIpv4Mapped (ip : Ipv6Addr) : Option Ipv4Addr :=
  if ip 0 = 0 ∧ ip 1 = 0 ∧ ip 2 = 0 ∧ ip 3 = 0 ∧ ip 4 = 0 ∧ ip 5 = 0xffff then
    some ⟨(ip 6 >>> 8).toUInt8, (ip 6).toUInt8, (ip 7 >>> 8).toUInt8, (ip 7).toUInt8⟩
  else none

def Ipv6Addr.isLoopback (ip : Ipv6Addr) : Bool := decide (ip = ![0, 0, 0, 0, 0, 0, 0, 1])

def Ipv6Addr.isUnspecified (ip : Ipv6Addr) : Bool := decide (ip = fun _ => 0)

def isInternalIp : IpAddr → Bool
  | .v4 ip => ip.isInternal
  | .v6 ip =>
      Ipv6Addr.isLoopback ip || Ipv6Addr.isUnspecified ip
        -- link-local
        || ip 0 &&& 0xffc0 == 0xfe80
        -- unique-local
        || ip 0 &&& 0xfe00 == 0xfc00
        || ((Ipv6Addr.toIpv4Mapped ip).map Ipv4Addr.isInternal).getD false

/-! ## The parser of `std::net` -/

/-- The value of a digit, 16 for other characters. -/
def digitValue (c : Char) : Nat :=
  if 48 ≤ c.toNat ∧ c.toNat ≤ 57 then c.toNat - 48
  else if 97 ≤ c.toNat ∧ c.toNat ≤ 102 then c.toNat - 87
  else if 65 ≤ c.toNat ∧ c.toNat ≤ 70 then c.toNat - 55
  else 16

/-- The number that digits of a radix write. -/
def digitsValue (radix : Nat) (digits : List Char) : Nat :=
  digits.foldl (fun acc c => acc * radix + digitValue c) 0

/-- A number below `size` of at most `maxDigits` digits, and what follows it. -/
def readNumber (radix maxDigits : Nat) (allowZeroPrefix : Bool) (size : Nat) (text : List Char) :
    Option (Nat × List Char) :=
  let digits := text.takeWhile fun c => digitValue c < radix
  if digits.length = 0 ∨ maxDigits < digits.length then none
  else if !allowZeroPrefix ∧ (digits.head?.map digitValue) = some 0 ∧ 1 < digits.length then none
  else if size ≤ digitsValue radix digits then none
  else some (digitsValue radix digits, text.dropWhile fun c => digitValue c < radix)

def readGivenChar (c : Char) : List Char → Option (List Char)
  | [] => none
  | x :: rest => if x = c then some rest else none

/-- `read_separator`: no separator stands before the first item. -/
def readSeparator {α : Type} (sep : Char) (first : Bool)
    (inner : List Char → Option (α × List Char)) (text : List Char) : Option (α × List Char) :=
  if first then inner text else (readGivenChar sep text).bind inner

def readOctet (first : Bool) (text : List Char) : Option (Nat × List Char) :=
  readSeparator '.' first (readNumber 10 3 false 256) text

def readIpv4Addr (text : List Char) : Option (Ipv4Addr × List Char) :=
  (readOctet true text).bind fun (a, text) =>
    (readOctet false text).bind fun (b, text) =>
      (readOctet false text).bind fun (c, text) =>
        (readOctet false text).map fun (d, text) =>
          (⟨UInt8.ofNat a, UInt8.ofNat b, UInt8.ofNat c, UInt8.ofNat d⟩, text)

/-- The segments that an IPv4 address fills. -/
def Ipv4Addr.segments (ip : Ipv4Addr) : List UInt16 :=
  [ip.a.toUInt16 <<< 8 ||| ip.b.toUInt16, ip.c.toUInt16 <<< 8 ||| ip.d.toUInt16]

/-- At most `left` groups, whether an embedded IPv4 address ends them, and what follows. -/
def readGroups : (left : Nat) → (first : Bool) → List Char → List UInt16 × Bool × List Char
  | 0, _, text => ([], false, text)
  | left + 1, first, text =>
      -- there must be two groups left for an IPv4 address
      match if 0 < left then readSeparator ':' first readIpv4Addr text else none with
      | some (ip, text) => (ip.segments, true, text)
      | none =>
          match readSeparator ':' first (readNumber 16 4 true 65536) text with
          | none => ([], false, text)
          | some (group, text) =>
              let (groups, ipv4, text) := readGroups left false text
              (UInt16.ofNat group :: groups, ipv4, text)

/-- The groups before and behind the `::`. -/
def joinGroups (head tail : List UInt16) : Ipv6Addr := fun i =>
  if 8 ≤ i.val + tail.length then tail.getD (i.val + tail.length - 8) 0 else head.getD i.val 0

def readIpv6Addr (text : List Char) : Option (Ipv6Addr × List Char) :=
  match readGroups 8 true text with
  | (head, ipv4, text) =>
      if head.length = 8 then some (joinGroups head [], text)
      -- an IPv4 part is not allowed before `::`
      else if ipv4 then none
      else
        (readGivenChar ':' text).bind fun text =>
          (readGivenChar ':' text).map fun text =>
            match readGroups (8 - (head.length + 1)) true text with
            | (tail, _, text) => (joinGroups head tail, text)

/-- The whole text is read. -/
def parseWith {α : Type} (inner : List Char → Option (α × List Char)) (text : List Char) :
    Option α :=
  match inner text with
  | some (v, []) => some v
  | _ => none

def readIpAddr (text : List Char) : Option (IpAddr × List Char) :=
  match readIpv4Addr text with
  | some (ip, rest) => some (.v4 ip, rest)
  | none => (readIpv6Addr text).map fun (ip, rest) => (.v6 ip, rest)

/-- `text.parse::<IpAddr>()` -/
def parseIpAddr (text : List Char) : Option IpAddr := parseWith readIpAddr text

/-! ## The system's resolver -/

/-- A number of `inet_aton`: hexadecimal, octal or decimal. -/
def atonNumber : List Char → Option Nat
  | [] => none
  | ['0'] => some 0
  | '0' :: x :: digits =>
      if x = 'x' ∨ x = 'X' then
        if digits.isEmpty ∨ !digits.all (digitValue · < 16) then none
        else some (digitsValue 16 digits)
      else if (x :: digits).all (digitValue · < 8) then some (digitsValue 8 (x :: digits))
      else none
  | digits => if digits.all (digitValue · < 10) then some (digitsValue 10 digits) else none

/-- The parts of a name between dots. -/
def labels : List Char → List (List Char)
  | [] => [[]]
  | c :: rest =>
      if c = '.' then [] :: labels rest
      else
        match labels rest with
        | [] => [[c]]
        | label :: more => (c :: label) :: more

/-- The parts of an address, of which the last fills what is left. -/
def atonParts : List Nat → Option Nat
  | [a] => if a < 2 ^ 32 then some a else none
  | [a, b] => if a < 256 ∧ b < 2 ^ 24 then some (a * 2 ^ 24 + b) else none
  | [a, b, c] => if a < 256 ∧ b < 256 ∧ c < 2 ^ 16 then some (a * 2 ^ 24 + b * 2 ^ 16 + c) else none
  | [a, b, c, d] =>
      if a < 256 ∧ b < 256 ∧ c < 256 ∧ d < 256 then
        some (a * 2 ^ 24 + b * 2 ^ 16 + c * 2 ^ 8 + d)
      else none
  | _ => none

def Ipv4Addr.ofNat (n : Nat) : Ipv4Addr :=
  ⟨UInt8.ofNat (n / 2 ^ 24), UInt8.ofNat (n / 2 ^ 16), UInt8.ofNat (n / 2 ^ 8), UInt8.ofNat n⟩

/-- `inet_aton`, with nothing behind the address. -/
def inetAton (host : List Char) : Option Ipv4Addr :=
  (((labels host).mapM atonNumber).bind atonParts).map Ipv4Addr.ofNat

/-- An IPv6 literal with a zone that the system knows. -/
def zonedIpv6 (zone : Ipv6Addr → List Char → Bool) (host : List Char) : Option Ipv6Addr :=
  (splitOnce ['%'] host).bind fun (address, scope) =>
    (parseWith readIpv6Addr address).filter fun ip => zone ip scope

/-- The address that `TcpStream::connect` dials for a host without asking the DNS: what the parser
of `std::net` reads, else what `getaddrinfo` reads as a number. -/
def numericAddr (zone : Ipv6Addr → List Char → Bool) (host : List Char) : Option IpAddr :=
  match parseIpAddr host with
  | some ip => some ip
  | none =>
      match inetAton host with
      | some ip => some (.v4 ip)
      | none => (zonedIpv6 zone host).map .v6

/-! ## The guard -/

def trimEndDots (text : List Char) : List Char := (text.reverse.dropWhile (· = '.')).reverse

/-- `to_ascii_lowercase` and `trim_end_matches('.')` -/
def normalize (text : List Char) : List Char := trimEndDots (text.map Char.toLower)

/-- An entry of the list, without the space around it. -/
def entryName (entry : List Char) : List Char := (trimEndDots (trim entry)).map Char.toLower

def entryMatches (h entry : List Char) : Bool :=
  let e := entryName entry
  if e.isEmpty then false
  else
    match stripPrefix ['.'] e with
    | some suffix => h == suffix || ('.' :: suffix).isSuffixOf h
    | none => h == e

/-- `destination_allowed`, with the list of the configuration. -/
def destinationAllowed (allowDestinations : List (List Char)) (host : List Char) : Bool :=
  let h := normalize host
  if !allowDestinations.isEmpty then allowDestinations.any (entryMatches h)
  else
    match parseIpAddr h with
    | some ip => !isInternalIp ip
    | none => true

/-! ## Letter case -/

theorem toNat_toLower (c : Char) :
    c.toLower.toNat = if 65 ≤ c.toNat ∧ c.toNat ≤ 90 then c.toNat + 32 else c.toNat := by
  unfold Char.toLower
  split
  · rename_i h
    rw [if_pos (by exact h)]
    show (c.val + 32).toNat = c.val.toNat + 32
    have hle : c.val.toNat ≤ 90 := h.2
    have hlt : c.val.toNat + 32 < 2 ^ 32 := by omega
    rw [UInt32.toNat_add]
    exact Nat.mod_eq_of_lt hlt
  · rename_i h
    rw [if_neg (by exact h)]

theorem digitValue_toLower (c : Char) : digitValue c.toLower = digitValue c := by
  unfold digitValue
  rw [toNat_toLower]
  split_ifs <;> omega

/-- A character that is no letter is its own lower case, and no other's. -/
theorem toLower_eq_iff {x : Char} (hx : x.toNat < 65 ∨ 122 < x.toNat) (c : Char) :
    c.toLower = x ↔ c = x := by
  rw [← Char.toNat_inj, ← Char.toNat_inj, toNat_toLower]
  split_ifs <;> omega

/-- The reader makes no difference between letters of either case. -/
def Caseless {α : Type} (inner : List Char → Option (α × List Char)) : Prop :=
  ∀ text, inner (text.map Char.toLower) = (inner text).map fun p => (p.1, p.2.map Char.toLower)

theorem caseless_readNumber (radix maxDigits : Nat) (allowZeroPrefix : Bool) (size : Nat) :
    Caseless (readNumber radix maxDigits allowZeroPrefix size) := by
  intro text
  have hdigits : (text.map Char.toLower).takeWhile (fun c => digitValue c < radix)
      = (text.takeWhile fun c => digitValue c < radix).map Char.toLower := by
    rw [List.takeWhile_map]
    simp only [Function.comp_def, digitValue_toLower]
  have hrest : (text.map Char.toLower).dropWhile (fun c => digitValue c < radix)
      = (text.dropWhile fun c => digitValue c < radix).map Char.toLower := by
    rw [List.dropWhile_map]
    simp only [Function.comp_def, digitValue_toLower]
  unfold readNumber
  simp only [hdigits, hrest, List.length_map]
  generalize text.takeWhile (fun c => digitValue c < radix) = digits
  have hvalue : digitsValue radix (digits.map Char.toLower) = digitsValue radix digits := by
    unfold digitsValue
    rw [List.foldl_map]
    simp only [digitValue_toLower]
  have hhead : (digits.map Char.toLower).head?.map digitValue = digits.head?.map digitValue := by
    rw [List.head?_map, Option.map_map]
    simp only [Function.comp_def, digitValue_toLower]
  rw [hvalue, hhead]
  split_ifs
  · rfl
  · rfl
  · rfl
  · rfl

theorem readGivenChar_map {x : Char} (hx : x.toNat < 65 ∨ 122 < x.toNat) (text : List Char) :
    readGivenChar x (text.map Char.toLower) =
      (readGivenChar x text).map (List.map Char.toLower) := by
  cases text with
  | nil => rfl
  | cons c rest =>
      unfold readGivenChar
      simp only [List.map_cons, toLower_eq_iff hx]
      split_ifs
      · rfl
      · rfl

theorem caseless_readSeparator {α : Type} {inner : List Char → Option (α × List Char)}
    (h : Caseless inner) {sep : Char} (hsep : sep.toNat < 65 ∨ 122 < sep.toNat) (first : Bool) :
    Caseless (readSeparator sep first inner) := by
  intro text
  unfold readSeparator
  split
  · exact h text
  · rw [readGivenChar_map hsep, Option.bind_map, Option.map_bind]
    exact Option.bind_congr fun rest _ => h rest

theorem caseless_readOctet (first : Bool) : Caseless (readOctet first) :=
  caseless_readSeparator (caseless_readNumber 10 3 false 256) (by decide) first

theorem caseless_readIpv4Addr : Caseless readIpv4Addr := by
  intro text
  unfold readIpv4Addr
  simp only [caseless_readOctet _ _, Option.bind_map, Option.map_bind, Option.map_map,
    Function.comp_def]

theorem readGroups_map (left : Nat) (first : Bool) (text : List Char) :
    readGroups left first (text.map Char.toLower)
      = ((readGroups left first text).1, (readGroups left first text).2.1,
        (readGroups left first text).2.2.map Char.toLower) := by
  induction left generalizing first text with
  | zero => rfl
  | succ left ih =>
      have hipv4 : (if 0 < left then readSeparator ':' first readIpv4Addr (text.map Char.toLower)
            else none)
          = (if 0 < left then readSeparator ':' first readIpv4Addr text else none).map
            fun p => (p.1, p.2.map Char.toLower) := by
        split
        · exact caseless_readSeparator caseless_readIpv4Addr (by decide) first text
        · rfl
      have hgroup : readSeparator ':' first _ _ = _ :=
        caseless_readSeparator (caseless_readNumber 16 4 true 65536) (by decide) first text
      unfold readGroups
      rw [hipv4, hgroup]
      cases (if 0 < left then readSeparator ':' first readIpv4Addr text else none) with
      | some p => rfl
      | none =>
          cases readSeparator ':' first (readNumber 16 4 true 65536) text with
          | none => rfl
          | some p => simp only [Option.map_some, Option.map_none, ih]

theorem caseless_readIpv6Addr : Caseless readIpv6Addr := by
  intro text
  unfold readIpv6Addr
  rw [readGroups_map]
  generalize readGroups 8 true text = r
  obtain ⟨head, ipv4, text⟩ := r
  dsimp only
  split_ifs
  · rfl
  · rfl
  · have hcolon : (':').toNat < 65 ∨ 122 < (':').toNat := by decide
    simp only [readGivenChar_map hcolon, Option.bind_map, Option.map_bind, Option.map_map,
      Function.comp_def, readGroups_map]

theorem caseless_readIpAddr : Caseless readIpAddr := by
  intro text
  unfold readIpAddr
  rw [caseless_readIpv4Addr, caseless_readIpv6Addr]
  cases readIpv4Addr text with
  | some p => rfl
  | none =>
      simp only [Option.map_none, Option.map_map]
      rfl

theorem parseIpAddr_map_toLower (text : List Char) :
    parseIpAddr (text.map Char.toLower) = parseIpAddr text := by
  unfold parseIpAddr parseWith
  rw [caseless_readIpAddr]
  cases readIpAddr text with
  | none => rfl
  | some p =>
      obtain ⟨ip, rest⟩ := p
      cases rest with
      | nil => rfl
      | cons c rest => rfl

/-! ## What is read of a text -/

/-- What a reader takes of a text: no zone, and no dot at its end. -/
def Taken (text rest : List Char) : Prop :=
  ∃ used, text = used ++ rest ∧ '%' ∉ used ∧ used.getLast? ≠ some '.'

theorem Taken.refl (text : List Char) : Taken text text := ⟨[], rfl, List.not_mem_nil, nofun⟩

theorem Taken.trans {a b c : List Char} (h : Taken a b) (h' : Taken b c) : Taken a c := by
  obtain ⟨used, rfl, hzone, hdot⟩ := h
  obtain ⟨used', rfl, hzone', hdot'⟩ := h'
  refine ⟨used ++ used', (List.append_assoc _ _ _).symm, ?_, ?_⟩
  · rw [List.mem_append, not_or]
    exact ⟨hzone, hzone'⟩
  · rw [List.getLast?_append]
    cases hlast : used'.getLast? with
    | none => exact hdot
    | some c =>
        rw [hlast] at hdot'
        exact hdot'

theorem Taken.cons {c : Char} (hzone : c ≠ '%') (hdot : c ≠ '.') {text rest : List Char}
    (h : Taken text rest) : Taken (c :: text) rest := by
  obtain ⟨used, rfl, hzone', hdot'⟩ := h
  refine ⟨c :: used, rfl, ?_, ?_⟩
  · rw [List.mem_cons, not_or]
    exact ⟨Ne.symm hzone, hzone'⟩
  · cases used with
    | nil =>
        intro hlast
        exact hdot (Option.some.inj hlast)
    | cons x used => exact hdot'

/-- Digits, with a separator before them or without. -/
theorem taken_digits {sep digits : List Char} (hsep : '%' ∉ sep) (hne : digits ≠ [])
    (hdigits : ∀ c ∈ digits, digitValue c < 16) (rest : List Char) :
    Taken (sep ++ (digits ++ rest)) rest := by
  refine ⟨sep ++ digits, (List.append_assoc _ _ _).symm, ?_, ?_⟩
  · rw [List.mem_append, not_or]
    exact ⟨hsep, fun hmem => absurd (hdigits _ hmem) (by decide)⟩
  · rw [List.getLast?_append_of_ne_nil _ hne, List.getLast?_eq_some_getLast hne]
    intro hlast
    have hmem := List.getLast_mem hne
    rw [Option.some.inj hlast] at hmem
    exact absurd (hdigits _ hmem) (by decide)

theorem readNumber_eq_some {radix maxDigits size n : Nat} {allowZeroPrefix : Bool}
    {text rest : List Char}
    (h : readNumber radix maxDigits allowZeroPrefix size text = some (n, rest)) :
    ∃ digits, digits ≠ [] ∧ text = digits ++ rest ∧ ∀ c ∈ digits, digitValue c < radix := by
  unfold readNumber at h
  obtain ⟨hlength, h⟩ := Option.ite_none_left_eq_some.mp h
  obtain ⟨-, h⟩ := Option.ite_none_left_eq_some.mp h
  obtain ⟨-, h⟩ := Option.ite_none_left_eq_some.mp h
  cases h
  refine ⟨text.takeWhile fun c => digitValue c < radix, fun hnil => hlength (.inl ?_), ?_, ?_⟩
  · rw [hnil]
    rfl
  · exact (List.takeWhile_append_dropWhile).symm
  · intro c hc
    exact of_decide_eq_true (List.all_eq_true.mp List.all_takeWhile c hc)

theorem readGivenChar_eq_some {c : Char} {text rest : List Char}
    (h : readGivenChar c text = some rest) : text = c :: rest := by
  cases text with
  | nil => cases h
  | cons x text =>
      obtain ⟨hx, h⟩ := Option.ite_none_right_eq_some.mp h
      rw [hx, Option.some.inj h]

theorem readSeparator_taken {sep : Char} (hsep : sep ≠ '%') {first : Bool}
    {radix maxDigits size n : Nat} {allowZeroPrefix : Bool} (hradix : radix ≤ 16)
    {text rest : List Char}
    (h : readSeparator sep first (readNumber radix maxDigits allowZeroPrefix size) text
      = some (n, rest)) : Taken text rest := by
  unfold readSeparator at h
  split at h
  · obtain ⟨digits, hne, rfl, hdigits⟩ := readNumber_eq_some h
    exact taken_digits List.not_mem_nil hne (fun c hc => (hdigits c hc).trans_le hradix) rest
  · obtain ⟨text', hchar, h⟩ := Option.bind_eq_some_iff.mp h
    obtain ⟨digits, hne, rfl, hdigits⟩ := readNumber_eq_some h
    rw [readGivenChar_eq_some hchar]
    have hzone : '%' ∉ [sep] := fun hmem => hsep (List.mem_singleton.mp hmem).symm
    exact taken_digits hzone hne (fun c hc => (hdigits c hc).trans_le hradix) rest

theorem readOctet_taken {first : Bool} {n : Nat} {text rest : List Char}
    (h : readOctet first text = some (n, rest)) : Taken text rest :=
  readSeparator_taken (by decide) (by decide) h

theorem readIpv4Addr_taken {ip : Ipv4Addr} {text rest : List Char}
    (h : readIpv4Addr text = some (ip, rest)) : Taken text rest := by
  obtain ⟨⟨a, s₁⟩, h₁, h⟩ := Option.bind_eq_some_iff.mp h
  obtain ⟨⟨b, s₂⟩, h₂, h⟩ := Option.bind_eq_some_iff.mp h
  obtain ⟨⟨c, s₃⟩, h₃, h⟩ := Option.bind_eq_some_iff.mp h
  obtain ⟨⟨d, s₄⟩, h₄, h⟩ := Option.map_eq_some_iff.mp h
  cases h
  exact (readOctet_taken h₁).trans ((readOctet_taken h₂).trans
    ((readOctet_taken h₃).trans (readOctet_taken h₄)))

theorem readGroups_taken (left : Nat) (first : Bool) (text : List Char) :
    Taken text (readGroups left first text).2.2 := by
  induction left generalizing first text with
  | zero => exact .refl text
  | succ left ih =>
      unfold readGroups
      split
      · rename_i ip rest hipv4
        obtain ⟨-, h⟩ := Option.ite_none_right_eq_some.mp hipv4
        unfold readSeparator at h
        split at h
        · exact readIpv4Addr_taken h
        · obtain ⟨text', hchar, h⟩ := Option.bind_eq_some_iff.mp h
          rw [readGivenChar_eq_some hchar]
          exact (readIpv4Addr_taken h).cons (by decide) (by decide)
      · split
        · exact .refl text
        · rename_i group rest hgroup
          exact (readSeparator_taken (by decide) le_rfl hgroup).trans (ih false rest)

theorem readIpv6Addr_taken {ip : Ipv6Addr} {text rest : List Char}
    (h : readIpv6Addr text = some (ip, rest)) : Taken text rest := by
  have hhead := readGroups_taken 8 true text
  unfold readIpv6Addr at h
  generalize readGroups 8 true text = r at h hhead
  obtain ⟨head, ipv4, s₁⟩ := r
  dsimp only at h hhead
  split_ifs at h
  · cases h
    exact hhead
  · obtain ⟨s₂, h₂, h⟩ := Option.bind_eq_some_iff.mp h
    obtain ⟨s₃, h₃, h⟩ := Option.map_eq_some_iff.mp h
    have htail := readGroups_taken (8 - (head.length + 1)) true s₃
    generalize readGroups (8 - (head.length + 1)) true s₃ = r at h htail
    obtain ⟨tail, _, s₄⟩ := r
    cases h
    refine hhead.trans ?_
    rw [readGivenChar_eq_some h₂, readGivenChar_eq_some h₃]
    exact (htail.cons (by decide) (by decide)).cons (by decide) (by decide)

/-- An IP literal has no zone, and does not end with a dot. -/
theorem parseIpAddr_eq_some {ip : IpAddr} {text : List Char} (h : parseIpAddr text = some ip) :
    '%' ∉ text ∧ text.getLast? ≠ some '.' := by
  have htaken : ∀ {ip rest}, readIpAddr text = some (ip, rest) → Taken text rest := by
    intro ip rest h
    unfold readIpAddr at h
    split at h
    · rename_i hipv4
      cases h
      exact readIpv4Addr_taken hipv4
    · obtain ⟨⟨ip, rest⟩, hipv6, heq⟩ := Option.map_eq_some_iff.mp h
      cases heq
      exact readIpv6Addr_taken hipv6
  unfold parseIpAddr parseWith at h
  split at h
  · rename_i v hread
    obtain ⟨used, heq, hzone, hdot⟩ := htaken hread
    rw [List.append_nil] at heq
    rw [heq]
    exact ⟨hzone, hdot⟩
  · cases h

/-! ## What the resolver reads as a number -/

theorem labels_ne_nil (text : List Char) : labels text ≠ [] := by
  cases text with
  | nil => exact nofun
  | cons c rest =>
      unfold labels
      split_ifs
      · exact nofun
      · split
        · exact nofun
        · exact nofun

theorem labels_append_dot (a b : List Char) : labels (a ++ '.' :: b) = labels a ++ labels b := by
  induction a with
  | nil => rfl
  | cons c a ih =>
      rw [List.cons_append, labels, labels, ih]
      split_ifs
      · rfl
      · cases h : labels a with
        | nil => exact absurd h (labels_ne_nil a)
        | cons label more => rfl

theorem inetAton_eq_some {ip : Ipv4Addr} {host : List Char} (h : inetAton host = some ip) :
    host.getLast? ≠ some '.' := by
  intro hdot
  obtain ⟨pre, rfl⟩ := List.getLast?_eq_some_iff.mp hdot
  obtain ⟨n, hn, -⟩ := Option.map_eq_some_iff.mp h
  obtain ⟨parts, hparts, -⟩ := Option.bind_eq_some_iff.mp hn
  have hmem : [] ∈ labels (pre ++ ['.']) := by
    rw [labels_append_dot]
    exact List.mem_append_right _ List.mem_cons_self
  obtain ⟨n, -, hn⟩ := Traverse.exists_of_mapM hparts hmem
  exact absurd (Option.isSome_of_eq_some hn) (by decide)

theorem mem_of_splitOnce {c : Char} {text : List Char} {p : List Char × List Char}
    (h : splitOnce [c] text = some p) : c ∈ text := by
  induction text generalizing p with
  | nil => cases h
  | cons x rest ih =>
      unfold splitOnce at h
      split at h
      · rename_i hstarts
        simp only [List.isPrefixOf, Bool.and_true, beq_iff_eq] at hstarts
        rw [hstarts]
        exact List.mem_cons_self
      · obtain ⟨q, hq, -⟩ := Option.map_eq_some_iff.mp h
        exact List.mem_cons_of_mem x (ih hq)

theorem zonedIpv6_eq_some {zone : Ipv6Addr → List Char → Bool} {ip : Ipv6Addr} {host : List Char}
    (h : zonedIpv6 zone host = some ip) : '%' ∈ host := by
  obtain ⟨p, hp, -⟩ := Option.bind_eq_some_iff.mp h
  exact mem_of_splitOnce hp

/-! ## The guard against the dialler -/

theorem trimEndDots_of_getLast? {text : List Char} (h : text.getLast? ≠ some '.') :
    trimEndDots text = text := by
  rw [← List.head?_reverse] at h
  unfold trimEndDots
  cases hrev : text.reverse with
  | nil =>
      rw [List.reverse_eq_nil_iff.mp hrev]
      rfl
  | cons c rest =>
      rw [hrev] at h
      rw [List.dropWhile_cons_of_neg (by simpa using h), ← hrev, List.reverse_reverse]

theorem mem_trimEndDots {c : Char} (hc : c ≠ '.') {text : List Char} (h : c ∈ text) :
    c ∈ trimEndDots text := by
  have hsplit :
      text.reverse.takeWhile (· = '.') ++ text.reverse.dropWhile (· = '.') = text.reverse :=
    List.takeWhile_append_dropWhile
  rw [← List.mem_reverse, ← hsplit] at h
  unfold trimEndDots
  rw [List.mem_reverse]
  refine (List.mem_append.mp h).resolve_left fun hdots => hc ?_
  exact of_decide_eq_true (List.all_eq_true.mp List.all_takeWhile c hdots)

theorem getLast?_map_toLower {text : List Char} (h : text.getLast? ≠ some '.') :
    (text.map Char.toLower).getLast? ≠ some '.' := by
  rw [List.getLast?_map]
  intro hlast
  obtain ⟨c, hc, hdot⟩ := Option.map_eq_some_iff.mp hlast
  rw [(toLower_eq_iff (by decide) c).mp hdot] at hc
  exact h hc

theorem normalize_of_getLast? {host : List Char} (h : host.getLast? ≠ some '.') :
    normalize host = host.map Char.toLower :=
  trimEndDots_of_getLast? (getLast?_map_toLower h)

/-- The guard reads a numeric host as the dialler does, if it reads it at all. -/
theorem parseIpAddr_normalize {zone : Ipv6Addr → List Char → Bool} {ip : IpAddr} {host : List Char}
    (h : numericAddr zone host = some ip) : parseIpAddr (normalize host) = parseIpAddr host := by
  by_cases hdot : host.getLast? = some '.'
  · -- Only a zone can end with a dot, and the guard reads no zone.
    have hzone : '%' ∈ host := by
      unfold numericAddr at h
      split at h
      · rename_i hparse
        exact absurd hdot (parseIpAddr_eq_some hparse).2
      · split at h
        · rename_i haton
          exact absurd hdot (inetAton_eq_some haton)
        · obtain ⟨ip, hip, -⟩ := Option.map_eq_some_iff.mp h
          exact zonedIpv6_eq_some hip
    have hlower : '%' ∈ normalize host :=
      mem_trimEndDots (by decide) (List.mem_map.mpr ⟨'%', hzone, rfl⟩)
    have hnone : ∀ {text : List Char}, '%' ∈ text → parseIpAddr text = none := by
      intro text hmem
      cases hparse : parseIpAddr text with
      | none => rfl
      | some ip => exact absurd hmem (parseIpAddr_eq_some hparse).1
    rw [hnone hlower, hnone hzone]
  · rw [normalize_of_getLast? hdot, parseIpAddr_map_toLower]

/-- Without a list, an internal address is refused when the parser of `std::net` reads it. -/
theorem destinationAllowed_nil_iff {zone : Ipv6Addr → List Char → Bool} {ip : IpAddr}
    {host : List Char} (h : numericAddr zone host = some ip) (hinternal : isInternalIp ip = true) :
    destinationAllowed [] host = false ↔ (parseIpAddr host).isSome := by
  show (match parseIpAddr (normalize host) with
    | some ip => !isInternalIp ip
    | none => true) = false ↔ _
  rw [parseIpAddr_normalize h]
  cases hparse : parseIpAddr host with
  | none => simp
  | some ip' =>
      unfold numericAddr at h
      rw [hparse] at h
      cases h
      simp [hinternal]

/-- The entry names the host, or a domain that the host lies in. -/
def Covers (entry host : List Char) : Prop :=
  entryName entry ≠ [] ∧ (normalize host = entryName entry ∨
    ∃ suffix, entryName entry = '.' :: suffix ∧ labels suffix <:+ labels (normalize host))

theorem covers_of_entryMatches {entry host : List Char}
    (h : entryMatches (normalize host) entry = true) : Covers entry host := by
  unfold entryMatches at h
  dsimp only at h
  split at h
  · cases h
  · rename_i hne
    refine ⟨fun hnil => hne (by rw [hnil]; rfl), ?_⟩
    split at h
    · rename_i suffix hsuffix
      obtain ⟨hstarts, hdrop⟩ := Option.ite_none_right_eq_some.mp hsuffix
      obtain ⟨rest, hrest⟩ := List.isPrefixOf_iff_prefix.mp hstarts
      have hentry : entryName entry = '.' :: suffix := by
        rw [← Option.some.inj hdrop, ← hrest]
        rfl
      refine .inr ⟨suffix, hentry, ?_⟩
      rcases Bool.or_eq_true_iff.mp h with heq | hends
      · rw [beq_iff_eq.mp heq]
      · obtain ⟨pre, hpre⟩ := List.isSuffixOf_iff_suffix.mp hends
        rw [← hpre, labels_append_dot]
        exact List.suffix_append _ _
    · exact .inl (beq_iff_eq.mp h)

theorem covered_of_allowed {allowDestinations : List (List Char)} (hne : allowDestinations ≠ [])
    {host : List Char} (h : destinationAllowed allowDestinations host = true) :
    ∃ entry ∈ allowDestinations, Covers entry host := by
  unfold destinationAllowed at h
  dsimp only at h
  rw [if_pos (by simpa using hne)] at h
  obtain ⟨entry, hentry, hmatch⟩ := List.any_eq_true.mp h
  exact ⟨entry, hentry, covers_of_entryMatches hmatch⟩

/-! ## The driver -/

namespace Driver

/-- The driver is dialling, or has dialled. -/
def Dials (d : Driver) : Prop := d.phase = .dialing ∨ d.phase = .pump

/-- The driver waits for its first message, or has returned. -/
def Idle (d : Driver) : Prop := (d.phase = .awaitConnect ∧ d.received = []) ∨ d.phase = .returned

theorem Idle.not_dials {d : Driver} (h : d.Idle) : ¬ d.Dials := by
  rcases h with ⟨hphase, -⟩ | hphase
  · simp [Dials, hphase]
  · simp [Dials, hphase]

/-- A driver whose first message names a refused destination. -/
theorem step_idle {allowed : List Char → Bool} {host : List Char} (hrefused : allowed host = false)
    {port : Nat} {rest : List RelayInbound} {d d' : Driver} {e : Event} (h : d.Idle)
    (hs : d.step allowed (.connect host port :: rest) e = some d') : d'.Idle := by
  rcases h with ⟨hphase, hreceived⟩ | hphase
  · unfold step at hs
    obtain ⟨-, hs⟩ := Option.ite_none_left_eq_some.mp hs
    cases e with
    | recv writeOk =>
        obtain ⟨-, hs⟩ := Option.ite_none_left_eq_some.mp hs
        rw [hreceived] at hs
        cases hs
        refine .inr ?_
        unfold onInbound
        simp only [hphase, onConnect, hrefused]
        rfl
    | mailboxClosed =>
        obtain ⟨hclosed, -⟩ := Option.ite_none_left_eq_some.mp hs
        rw [hreceived] at hclosed
        exact absurd (.inr nofun) hclosed
    | dial outcome =>
        obtain ⟨hdialing, -⟩ := Option.ite_none_right_eq_some.mp hs
        rw [hphase] at hdialing
        cases hdialing
    | timer =>
        obtain ⟨⟨hpump, -⟩, -⟩ := Option.ite_none_right_eq_some.mp hs
        rw [hphase] at hpump
        cases hpump
    | read r =>
        obtain ⟨⟨hpump, -⟩, -⟩ := Option.ite_none_right_eq_some.mp hs
        rw [hphase] at hpump
        cases hpump
  · unfold step at hs
    obtain ⟨hactive, -⟩ := Option.ite_none_left_eq_some.mp hs
    exact absurd (.inl hphase) hactive

end Driver

/-- No driver whose first message comes from this frame ever dials. -/
def NeverDials (allowDestinations : List (List Char)) (f : WireFrame) : Prop :=
  ∀ key sid rest es, StepRun.AllStates
    (Driver.step (destinationAllowed allowDestinations) ((frameToInbound f).toList ++ rest))
    (fun d => ¬ d.Dials) (Driver.spawn key sid) es

theorem neverDials_of_refused {allowDestinations : List (List Char)} {f : WireFrame}
    {host : List Char} {port : Nat} (hf : frameToInbound f = some (.connect host port))
    (hrefused : destinationAllowed allowDestinations host = false) :
    NeverDials allowDestinations f := by
  intro key sid rest es
  rw [hf]
  exact StepRun.allStates_of_inv (fun _ _ _ h hs => Driver.step_idle hrefused h hs)
    (fun _ h => h.not_dials) (.inl ⟨rfl, rfl⟩) es

/-- The destinations are guarded: without a list no internal address is dialled, however the host
spells it; with a list only hosts that an entry covers are. -/
def Guarded (zone : Ipv6Addr → List Char → Bool) (allowDestinations : List (List Char))
    (f : WireFrame) (host : List Char) : Prop :=
  (allowDestinations = [] → ∀ ip, numericAddr zone host = some ip → isInternalIp ip = true →
    destinationAllowed allowDestinations host = false ∧ NeverDials allowDestinations f) ∧
  (allowDestinations ≠ [] → ¬ NeverDials allowDestinations f →
    ∃ entry ∈ allowDestinations, Covers entry host)

/-- **The guard covers exactly the spellings that the parser of `std::net` reads.** -/
theorem guarded_iff (zone : Ipv6Addr → List Char → Bool) (allowDestinations : List (List Char))
    (f : WireFrame) (hkind : f.kind = .connect) (text : String)
    (htext : String.fromUTF8? ⟨f.payload.toArray⟩ = some text) (host : List Char) (port : Nat)
    (hparse : parseConnectAddr text.toList = some (host, port)) :
    Guarded zone allowDestinations f host ↔
      (allowDestinations = [] → ∀ ip, numericAddr zone host = some ip → isInternalIp ip = true →
        (parseIpAddr host).isSome) := by
  have hf : frameToInbound f = some (.connect host port) := by
    unfold frameToInbound
    rw [hkind]
    simp only [htext, hparse, Option.bind_eq_bind, Option.bind_some]
  constructor
  · intro h hnil ip hip hinternal
    have hrefused := (h.1 hnil ip hip hinternal).1
    rw [hnil] at hrefused
    exact (destinationAllowed_nil_iff hip hinternal).mp hrefused
  · intro h
    refine ⟨fun hnil ip hip hinternal => ?_, fun hne hdials => ?_⟩
    · have hrefused : destinationAllowed allowDestinations host = false := by
        rw [hnil]
        exact (destinationAllowed_nil_iff hip hinternal).mpr (h hnil ip hip hinternal)
      exact ⟨hrefused, neverDials_of_refused hf hrefused⟩
    · refine covered_of_allowed hne ?_
      by_contra hrefused
      exact hdials (neverDials_of_refused hf (Bool.eq_false_iff.mpr hrefused))

/-- A `Connect` frame with this payload. -/
def connectFrame (sid : SessionId) (payload : String) : WireFrame :=
  Sender.buildWireFrame .connect sid 1 (utf8 payload.toList)

/-- The loopback address in its usual spelling. -/
theorem guarded_iff_loopback :
    numericAddr (fun _ _ => true) "127.0.0.1".toList = some (.v4 ⟨127, 0, 0, 1⟩) ∧
      Guarded (fun _ _ => true) [] (connectFrame ⟨List.replicate 16 0, rfl⟩ "127.0.0.1:22")
        "127.0.0.1".toList := by
  refine ⟨by decide +kernel, (guarded_iff _ _ _ rfl "127.0.0.1:22" (by decide +kernel)
    "127.0.0.1".toList 22 (by decide +kernel)).mpr fun _ _ _ _ => ?_⟩
  decide +kernel

/-- The loopback address in a short spelling, which the relay dials. -/
theorem short_loopback_dialled :
    frameToInbound (connectFrame ⟨List.replicate 16 0, rfl⟩ "127.1:22")
        = some (.connect "127.1".toList 22) ∧
      numericAddr (fun _ _ => true) "127.1".toList = some (.v4 ⟨127, 0, 0, 1⟩) ∧
      isInternalIp (.v4 ⟨127, 0, 0, 1⟩) = true ∧ destinationAllowed [] "127.1".toList = true ∧
      ¬ Guarded (fun _ _ => true) [] (connectFrame ⟨List.replicate 16 0, rfl⟩ "127.1:22")
        "127.1".toList := by
  have hip : numericAddr (fun _ _ => true) "127.1".toList = some (.v4 ⟨127, 0, 0, 1⟩) := by
    decide +kernel
  have hallowed : destinationAllowed [] "127.1".toList = true := by decide +kernel
  refine ⟨by decide +kernel, hip, by decide, hallowed, fun h => ?_⟩
  have hrefused := (h.1 rfl _ hip (by decide)).1
  rw [hallowed] at hrefused
  cases hrefused

end Rahgozar.Drive
