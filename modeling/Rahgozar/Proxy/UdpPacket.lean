import Rahgozar.Lib.BigEndian
import Rahgozar.Lib.Offsets
import Rahgozar.Proxy.HttpRequest
import Rahgozar.Proxy.UdpRelay

set_option autoImplicit false

/-! # The header of a SOCKS5 datagram (`src/proxy_server.rs`)

`parse_socks5_udp_packet_offsets` moves a cursor over a datagram: two reserved bytes and a fragment
number, all zero, the type of the address, the address and the port. An index past the end of the
datagram panics, so the parser is written with reads that fail in this case. A reply is put behind
the same header; and the target that was parsed is the key of the session.
-/

namespace Rahgozar.Proxy

/-! ## Texts of addresses -/

/-- `Ipv4Addr::to_string` -/
def ipv4Text (a b c d : UInt8) : String :=
  ".".intercalate ([a, b, c, d].map fun n => toString n.toNat)

/-- `Ipv6Addr::segments` -/
def ipv6Segments : List UInt8 → List Nat
  | hi :: lo :: octets => BigEndian.get [hi, lo] :: ipv6Segments octets
  | _ => []

/-- `fmt_subslice`: the segments in hexadecimal. -/
def segmentsText (segments : List Nat) : String :=
  ":".intercalate (segments.map fun n => String.ofList (Nat.toDigits 16 n))

/-- The first of the longest runs of zeros: its start and its length. -/
def longestZeros (segments : List Nat) : Nat × Nat :=
  let (longest, _) := segments.zipIdx.foldl
    (fun ((longest, current) : (Nat × Nat) × Nat × Nat) (segment, i) =>
      if segment = 0 then
        let current := if current.2 = 0 then (i, 1) else (current.1, current.2 + 1)
        (if longest.2 < current.2 then current else longest, current)
      else (longest, (0, 0)))
    ((0, 0), (0, 0))
  longest

/-- `Ipv6Addr::to_string` -/
def ipv6Text (octets : List UInt8) : String :=
  match octets with
  | [0, 0, 0, 0, 0, 0, 0, 0, 0, 0, 0xff, 0xff, a, b, c, d] => "::ffff:" ++ ipv4Text a b c d
  | octets =>
      let segments := ipv6Segments octets
      let (start, len) := longestZeros segments
      if 1 < len then
        segmentsText (segments.take start) ++ "::" ++ segmentsText (segments.drop (start + len))
      else segmentsText segments

example :
    ipv6Text [0x20, 0x01, 0x0d, 0xb8, 0, 0, 0, 0, 0, 0, 0, 0, 0, 0, 0, 1] = "2001:db8::1" := by
  decide +kernel

/-! ## The codec -/

/-- The address at `pos`: its text, its bytes, and the offset behind it. The inner `none` is a
datagram that is not taken. -/
def readAddr (buf : List UInt8) (atyp : UInt8) (pos : Nat) :
    Option (Option (String × List UInt8 × Nat)) :=
  if atyp = 0x01 then
    if buf.length < pos + 4 + 2 then some none
    else do
      let addr ← Offset.slice buf pos (pos + 4)
      let a ← addr[0]?
      let b ← addr[1]?
      let c ← addr[2]?
      let d ← addr[3]?
      some (some (ipv4Text a b c d, addr, pos + 4))
  else if atyp = 0x03 then
    if buf.length < pos + 1 then some none
    else do
      let len ← buf[pos]?
      let pos := pos + 1
      if len = 0 ∨ buf.length < pos + len.toNat + 2 then some none
      else do
        let addr ← Offset.slice buf pos (pos + len.toNat)
        match Mitm.fromUtf8 addr with
        | none => some none
        | some text => some (some (String.ofList text, addr, pos + len.toNat))
  else if atyp = 0x04 then
    if buf.length < pos + 16 + 2 then some none
    else do
      let addr ← Offset.slice buf pos (pos + 16)
      some (some (ipv6Text addr, addr, pos + 16))
  else some none

/-- The port behind the address. -/
def readTarget (buf : List UInt8) (atyp : UInt8) :
    Option (String × List UInt8 × Nat) → Option (Option (SocksUdpTarget × Nat))
  | none => some none
  | some (host, addr, pos) => do
      let hi ← buf[pos]?
      let lo ← buf[pos + 1]?
      some (some (⟨host, UInt16.ofNat (BigEndian.get [hi, lo]), atyp, addr⟩, pos + 2))

/-- `none`: an index past the end of the datagram. -/
def parseSocks5UdpPacketOffsets (buf : List UInt8) : Option (Option (SocksUdpTarget × Nat)) :=
  if buf.length < 4 then some none
  else do
    let rsv0 ← buf[0]?
    let rsv1 ← buf[1]?
    let frag ← buf[2]?
    if rsv0 ≠ 0 ∨ rsv1 ≠ 0 ∨ frag ≠ 0 then some none
    else do
      let atyp ← buf[3]?
      let found ← readAddr buf atyp 4
      readTarget buf atyp found

/-- `&buf[off..]` -/
def withPayload (buf : List UInt8) :
    Option (SocksUdpTarget × Nat) → Option (Option (SocksUdpTarget × List UInt8))
  | none => some none
  | some (target, off) =>
      (Offset.slice buf off buf.length).map fun payload => some (target, payload)

def parseSocks5UdpPacket (buf : List UInt8) : Option (Option (SocksUdpTarget × List UInt8)) :=
  (parseSocks5UdpPacketOffsets buf).bind (withPayload buf)

/-- The address as it is written: a host name comes behind its length, cast to a byte. -/
def addrBytes (atyp : UInt8) (addr : List UInt8) : List UInt8 :=
  if atyp = 0x03 then UInt8.ofNat addr.length :: addr else addr

def buildSocks5UdpPacket (target : SocksUdpTarget) (payload : List UInt8) : List UInt8 :=
  [0, 0, 0, target.atyp] ++
    (addrBytes target.atyp target.addr ++ (BigEndian.put 2 target.port.toNat ++ payload))

/-! ## Addresses -/

/-- The text of an address of this type, if it is one. -/
def addressText (atyp : UInt8) (addr : List UInt8) : Option String :=
  if atyp = 0x01 then
    match addr with
    | [a, b, c, d] => some (ipv4Text a b c d)
    | _ => none
  else if atyp = 0x03 then
    if 0 < addr.length ∧ addr.length ≤ 255 then (Mitm.fromUtf8 addr).map String.ofList else none
  else if atyp = 0x04 then if addr.length = 16 then some (ipv6Text addr) else none
  else none

/-- The targets that come out of the parser. -/
def SocksUdpTarget.Parsed (t : SocksUdpTarget) : Prop := addressText t.atyp t.addr = some t.host

section

variable {atyp : UInt8} {addr rest xs : List UInt8} {host : String}

theorem readAddr_ipv4 (front : List UInt8) (a b c d : UInt8) (hrest : 2 ≤ rest.length) :
    readAddr (front ++ ([a, b, c, d] ++ rest)) 0x01 front.length
      = some (some (ipv4Text a b c d, [a, b, c, d], front.length + 4)) := by
  have hroom : ¬ (front ++ ([a, b, c, d] ++ rest)).length < front.length + 4 + 2 := by
    simp only [List.length_append, List.length_cons, List.length_nil]
    omega
  have hslice : Offset.slice (front ++ ([a, b, c, d] ++ rest)) front.length (front.length + 4)
      = some [a, b, c, d] :=
    (Offset.slice_append_right front _ 0 4).trans (Offset.slice_left [a, b, c, d] rest)
  unfold readAddr
  rw [if_pos rfl, if_neg hroom, hslice]
  rfl

theorem readAddr_ipv6 (front : List UInt8) (hlen : addr.length = 16) (hrest : 2 ≤ rest.length) :
    readAddr (front ++ (addr ++ rest)) 0x04 front.length
      = some (some (ipv6Text addr, addr, front.length + 16)) := by
  have hroom : ¬ (front ++ (addr ++ rest)).length < front.length + 16 + 2 := by
    simp only [List.length_append]
    omega
  have hslice : Offset.slice (front ++ (addr ++ rest)) front.length (front.length + 16)
      = some addr := by
    rw [← hlen]
    exact (Offset.slice_append_right front _ 0 addr.length).trans (Offset.slice_left addr rest)
  unfold readAddr
  rw [if_neg (by decide), if_neg (by decide), if_pos rfl, if_neg hroom, hslice]
  rfl

/-- A host name that has been found: it is taken if it is UTF-8. -/
theorem readAddr_name (front : List UInt8) {len : UInt8} (hlen : addr.length = len.toNat)
    (hne : len ≠ 0) (hrest : 2 ≤ rest.length) :
    readAddr (front ++ (len :: addr ++ rest)) 0x03 front.length
      = some ((Mitm.fromUtf8 addr).map fun text =>
          (String.ofList text, addr, front.length + (len :: addr).length)) := by
  have hfirst : ¬ (front ++ (len :: addr ++ rest)).length < front.length + 1 := by
    simp only [List.length_append, List.length_cons]
    omega
  have hindex : (front ++ (len :: addr ++ rest))[front.length]? = some len :=
    Offset.getElem?_append_add front _ 0
  have hroom : ¬ (len = 0 ∨
      (front ++ (len :: addr ++ rest)).length < front.length + 1 + len.toNat + 2) := by
    simp only [List.length_append, List.length_cons, hne, false_or]
    omega
  have hslice : Offset.slice (front ++ (len :: addr ++ rest)) (front.length + 1)
      (front.length + 1 + len.toNat) = some addr := by
    have hskip := Offset.slice_append_right (front ++ [len]) (addr ++ rest) 0 addr.length
    rw [List.append_assoc, List.length_append, Nat.add_zero, hlen] at hskip
    refine hskip.trans ?_
    rw [← hlen]
    exact Offset.slice_left addr rest
  have hend : front.length + (len :: addr).length = front.length + 1 + len.toNat := by
    rw [List.length_cons, hlen]
    omega
  unfold readAddr
  rw [if_neg (by decide), if_pos rfl, if_neg hfirst, hindex]
  show (if len = 0 ∨ (front ++ (len :: addr ++ rest)).length < front.length + 1 + len.toNat + 2
    then some none else _) = _
  rw [if_neg hroom, hslice, hend]
  show (match Mitm.fromUtf8 addr with
    | none => some none
    | some text => some (some (String.ofList text, addr, front.length + 1 + len.toNat))) = _
  cases Mitm.fromUtf8 addr with
  | none => rfl
  | some text => rfl

theorem length_of_addressText_name (h : addressText 0x03 addr = some host) :
    0 < addr.length ∧ addr.length ≤ 255 := by
  unfold addressText at h
  rw [if_neg (by decide), if_pos rfl] at h
  exact (Option.ite_none_right_eq_some.mp h).1

/-- An address that was written is read. -/
theorem readAddr_addrBytes (front rest : List UInt8) (h : addressText atyp addr = some host)
    (hrest : 2 ≤ rest.length) :
    readAddr (front ++ (addrBytes atyp addr ++ rest)) atyp front.length
      = some (some (host, addr, front.length + (addrBytes atyp addr).length)) := by
  by_cases h1 : atyp = 0x01
  · subst h1
    unfold addressText at h
    rw [if_pos rfl] at h
    split at h
    · cases h
      exact readAddr_ipv4 front _ _ _ _ hrest
    · cases h
  by_cases h3 : atyp = 0x03
  · subst h3
    obtain ⟨hpos, hle⟩ := length_of_addressText_name h
    have hbyte : (UInt8.ofNat addr.length).toNat = addr.length := by
      rw [UInt8.toNat_ofNat']
      omega
    have hne : UInt8.ofNat addr.length ≠ 0 := by
      intro hzero
      rw [hzero] at hbyte
      exact absurd hbyte.symm (Nat.ne_of_gt hpos)
    unfold addressText at h
    rw [if_neg h1, if_pos rfl, if_pos ⟨hpos, hle⟩] at h
    obtain ⟨text, htext, rfl⟩ := Option.map_eq_some_iff.mp h
    have hread := readAddr_name front hbyte.symm hne hrest
    rw [htext] at hread
    exact hread
  by_cases h4 : atyp = 0x04
  · subst h4
    unfold addressText at h
    rw [if_neg h1, if_neg h3, if_pos rfl] at h
    obtain ⟨hlen, hhost⟩ := Option.ite_none_right_eq_some.mp h
    cases hhost
    have hread := readAddr_ipv6 front hlen hrest
    rw [← hlen] at hread
    exact hread
  · unfold addressText at h
    rw [if_neg h1, if_neg h3, if_neg h4] at h
    cases h

/-- A name of no bytes, or without two bytes behind it, is not taken. -/
theorem readAddr_name_short (front : List UInt8) {len : UInt8} {xs : List UInt8}
    (h : len = 0 ∨ xs.length < len.toNat + 2) :
    readAddr (front ++ len :: xs) 0x03 front.length = some none := by
  have hindex : (front ++ len :: xs)[front.length]? = some len :=
    Offset.getElem?_append_add front _ 0
  have hstop : len = 0 ∨ (front ++ len :: xs).length < front.length + 1 + len.toNat + 2 := by
    refine h.imp_right fun h => ?_
    rw [List.length_append, List.length_cons]
    omega
  unfold readAddr
  rw [if_neg (by decide), if_pos rfl, if_neg (by simp), hindex]
  exact if_pos hstop

/-- What `read_addr` can do: it takes nothing, or `xs` is an address with two bytes behind it. -/
def ReadAddr (atyp : UInt8) (front xs : List UInt8) : Prop :=
  readAddr (front ++ xs) atyp front.length = some none ∨
    ∃ host addr rest, addressText atyp addr = some host ∧ 2 ≤ rest.length ∧
      xs = addrBytes atyp addr ++ rest

theorem readAddr_ipv4_cases (front xs : List UInt8) : ReadAddr 0x01 front xs := by
  by_cases hroom : xs.length < 4 + 2
  · left
    unfold readAddr
    rw [if_pos rfl, if_pos (by rw [List.length_append]; omega)]
  · match xs, hroom with
    | a :: b :: c :: d :: rest, hroom =>
        refine Or.inr ⟨_, [a, b, c, d], rest, rfl, ?_, rfl⟩
        simp only [List.length_cons] at hroom
        omega
    | [], hroom | [_], hroom | [_, _], hroom | [_, _, _], hroom => simp at hroom

theorem readAddr_name_cases (front xs : List UInt8) : ReadAddr 0x03 front xs := by
  cases xs with
  | nil =>
      left
      unfold readAddr
      rw [if_neg (by decide), if_pos rfl, if_pos (by simp)]
  | cons len ys =>
      by_cases hroom : len = 0 ∨ ys.length < len.toNat + 2
      · exact Or.inl (readAddr_name_short front hroom)
      · obtain ⟨hne, hroom⟩ := not_or.mp hroom
        have hlen : (ys.take len.toNat).length = len.toNat := by
          rw [List.length_take]
          omega
        have hrest : 2 ≤ (ys.drop len.toNat).length := by
          rw [List.length_drop]
          omega
        have hpos : len.toNat ≠ 0 := fun h => hne (UInt8.toNat_inj.mp h)
        have hlt := len.toNat_lt
        have hsplit : len :: ys = len :: ys.take len.toNat ++ ys.drop len.toNat := by
          rw [List.cons_append, List.take_append_drop]
        cases hutf8 : Mitm.fromUtf8 (ys.take len.toNat) with
        | none =>
            left
            rw [hsplit, readAddr_name _ hlen hne hrest, hutf8]
            rfl
        | some text =>
            refine Or.inr
              ⟨String.ofList text, ys.take len.toNat, ys.drop len.toNat, ?_, hrest, ?_⟩
            · unfold addressText
              rw [if_neg (by decide), if_pos rfl, if_pos (by rw [hlen]; omega), hutf8]
              rfl
            · rw [hsplit]
              unfold addrBytes
              rw [if_pos rfl, hlen, UInt8.ofNat_toNat]

theorem readAddr_ipv6_cases (front xs : List UInt8) : ReadAddr 0x04 front xs := by
  by_cases hroom : xs.length < 16 + 2
  · left
    unfold readAddr
    rw [if_neg (by decide), if_neg (by decide), if_pos rfl,
      if_pos (by rw [List.length_append]; omega)]
  · have hlen : (xs.take 16).length = 16 := by
      rw [List.length_take]
      omega
    refine Or.inr ⟨ipv6Text (xs.take 16), xs.take 16, xs.drop 16, ?_, ?_, ?_⟩
    · unfold addressText
      rw [if_neg (by decide), if_neg (by decide), if_pos rfl, if_pos hlen]
    · rw [List.length_drop]
      omega
    · exact (List.take_append_drop 16 xs).symm

/-- What is not an address with two bytes behind it is not taken; no index is past the end. -/
theorem readAddr_cases (atyp : UInt8) (front xs : List UInt8) : ReadAddr atyp front xs := by
  by_cases h1 : atyp = 0x01
  · exact h1 ▸ readAddr_ipv4_cases front xs
  by_cases h3 : atyp = 0x03
  · exact h3 ▸ readAddr_name_cases front xs
  by_cases h4 : atyp = 0x04
  · exact h4 ▸ readAddr_ipv6_cases front xs
  · left
    unfold readAddr
    rw [if_neg h1, if_neg h3, if_neg h4]

end

/-! ## Datagrams -/

/-- The part of a datagram that comes before the payload. -/
def udpHeader (t : SocksUdpTarget) : List UInt8 :=
  [0, 0, 0, t.atyp] ++ (addrBytes t.atyp t.addr ++ BigEndian.put 2 t.port.toNat)

theorem buildSocks5UdpPacket_eq (t : SocksUdpTarget) (payload : List UInt8) :
    buildSocks5UdpPacket t payload = udpHeader t ++ payload := by
  unfold buildSocks5UdpPacket udpHeader
  rw [List.append_assoc, List.append_assoc]

theorem port_of_put (port : UInt16) :
    UInt16.ofNat (BigEndian.get [UInt8.ofNat (port.toNat / 256), UInt8.ofNat port.toNat]) =
      port := by
  have hget : BigEndian.get (BigEndian.put 2 port.toNat) = port.toNat :=
    BigEndian.get_put_of_lt port.toNat_lt
  have hput : BigEndian.put 2 port.toNat
      = [UInt8.ofNat (port.toNat / 256), UInt8.ofNat port.toNat] := rfl
  rw [← hput, hget, UInt16.ofNat_toNat]

theorem put_of_port (hi lo : UInt8) :
    BigEndian.put 2 (UInt16.ofNat (BigEndian.get [hi, lo])).toNat = [hi, lo] := by
  have hlt : BigEndian.get [hi, lo] < 2 ^ 16 :=
    lt_of_lt_of_eq (BigEndian.get_lt [hi, lo]) (by norm_num)
  rw [UInt16.toNat_ofNat', Nat.mod_eq_of_lt hlt]
  exact BigEndian.put_get [hi, lo]

theorem readTarget_append (front behind payload : List UInt8) (port : UInt16) (atyp : UInt8)
    (host : String) (addr : List UInt8) :
    readTarget (front ++ (behind ++ (BigEndian.put 2 port.toNat ++ payload))) atyp
        (some (host, addr, front.length + behind.length))
      = some (some (⟨host, port, atyp, addr⟩, front.length + behind.length + 2)) := by
  have hindex : ∀ i, (front ++ (behind ++ (BigEndian.put 2 port.toNat ++ payload)))[
      front.length + behind.length + i]? = (BigEndian.put 2 port.toNat ++ payload)[i]? := by
    intro i
    rw [Nat.add_assoc, Offset.getElem?_append_add, Offset.getElem?_append_add]
  have hhi := hindex 0
  have hlo := hindex 1
  rw [Nat.add_zero] at hhi
  unfold readTarget
  dsimp only
  rw [hhi, hlo]
  show some (some ((⟨host, UInt16.ofNat (BigEndian.get
    [UInt8.ofNat (port.toNat / 256), UInt8.ofNat port.toNat]), atyp, addr⟩ : SocksUdpTarget),
      front.length + behind.length + 2)) = _
  rw [port_of_put]

theorem withPayload_append (header payload : List UInt8) (t : SocksUdpTarget) :
    withPayload (header ++ payload) (some (t, header.length)) = some (some (t, payload)) := by
  have hslice : Offset.slice (header ++ payload) header.length (header ++ payload).length
      = some payload := by
    rw [List.length_append]
    refine (Offset.slice_append_right header payload 0 payload.length).trans ?_
    rw [Offset.slice_zero le_rfl, List.take_length]
  unfold withPayload
  dsimp only
  rw [hslice]
  rfl

theorem parseSocks5UdpPacketOffsets_cons (atyp : UInt8) (xs : List UInt8) :
    parseSocks5UdpPacketOffsets ([0, 0, 0, atyp] ++ xs)
      = (readAddr ([0, 0, 0, atyp] ++ xs) atyp 4).bind
          (readTarget ([0, 0, 0, atyp] ++ xs) atyp) := by
  unfold parseSocks5UdpPacketOffsets
  rw [if_neg (by simp)]
  rfl

/-- A header that was built is parsed, whatever is behind it. -/
theorem parse_buildSocks5UdpPacket {t : SocksUdpTarget} (h : t.Parsed) (payload : List UInt8) :
    parseSocks5UdpPacket (buildSocks5UdpPacket t payload) = some (some (t, payload)) := by
  have hread := readAddr_addrBytes [0, 0, 0, t.atyp] (BigEndian.put 2 t.port.toNat ++ payload) h
    (by simp)
  have htarget :=
    readTarget_append [0, 0, 0, t.atyp] (addrBytes t.atyp t.addr) payload t.port t.atyp
    t.host t.addr
  have hoffsets : parseSocks5UdpPacketOffsets (buildSocks5UdpPacket t payload)
      = some (some (t, (udpHeader t).length)) := by
    unfold buildSocks5UdpPacket
    rw [parseSocks5UdpPacketOffsets_cons]
    show (readAddr _ _ [0, 0, 0, t.atyp].length).bind _ = _
    rw [hread, Option.bind_some, htarget]
    unfold udpHeader
    simp only [List.length_append, BigEndian.length_put, Nat.add_assoc]
  unfold parseSocks5UdpPacket
  rw [hoffsets, Option.bind_some, buildSocks5UdpPacket_eq]
  exact withPayload_append (udpHeader t) payload t

/-- What is not such a datagram is not taken. -/
theorem parseSocks5UdpPacket_cases (x : List UInt8) :
    parseSocks5UdpPacket x = some none ∨
      ∃ t payload, t.Parsed ∧ x = buildSocks5UdpPacket t payload := by
  by_cases hshort : x.length < 4
  · left
    unfold parseSocks5UdpPacket parseSocks5UdpPacketOffsets
    rw [if_pos hshort]
    rfl
  obtain ⟨rsv0, rsv1, frag, atyp, xs, rfl⟩ :
      ∃ rsv0 rsv1 frag atyp xs, x = rsv0 :: rsv1 :: frag :: atyp :: xs := by
    match x, hshort with
    | rsv0 :: rsv1 :: frag :: atyp :: xs, _ => exact ⟨rsv0, rsv1, frag, atyp, xs, rfl⟩
    | [], hshort | [_], hshort | [_, _], hshort | [_, _, _], hshort => simp at hshort
  by_cases hzero : rsv0 ≠ 0 ∨ rsv1 ≠ 0 ∨ frag ≠ 0
  · left
    have hoffsets :
        parseSocks5UdpPacketOffsets (rsv0 :: rsv1 :: frag :: atyp :: xs) = some none := by
      unfold parseSocks5UdpPacketOffsets
      rw [if_neg hshort]
      exact if_pos hzero
    unfold parseSocks5UdpPacket
    rw [hoffsets]
    rfl
  -- The first four bytes are now those of a header, so what is behind them decides.
  simp only [not_or, ne_eq, not_not] at hzero
  obtain ⟨rfl, rfl, rfl⟩ := hzero
  rcases readAddr_cases atyp [0, 0, 0, atyp] xs with hnone | ⟨host, addr, rest, htext, hrest, rfl⟩
  · left
    show (parseSocks5UdpPacketOffsets ([0, 0, 0, atyp] ++ xs)).bind _ = _
    rw [parseSocks5UdpPacketOffsets_cons]
    dsimp only [List.length_cons, List.length_nil] at hnone
    rw [hnone]
    rfl
  · right
    match rest, hrest with
    | hi :: lo :: payload, _ =>
        refine ⟨⟨host, UInt16.ofNat (BigEndian.get [hi, lo]), atyp, addr⟩, payload, htext, ?_⟩
        unfold buildSocks5UdpPacket
        dsimp only
        rw [put_of_port]
        rfl
    | [], hrest | [_], hrest => simp at hrest

/-- The address and the port tell the targets of the parser apart: the text is made of them. -/
theorem SocksUdpTarget.Parsed.eq_iff {t t' : SocksUdpTarget} (h : t.Parsed) (h' : t'.Parsed) :
    t = t' ↔ (t.atyp, t.addr, t.port) = (t'.atyp, t'.addr, t'.port) := by
  constructor
  · rintro rfl
    rfl
  · obtain ⟨host, port, atyp, addr⟩ := t
    obtain ⟨host', port', atyp', addr'⟩ := t'
    intro heq
    cases heq
    have hhost : some host = some host' := h.symm.trans h'
    cases hhost
    rfl

/-- **The header codec is exact.** No index is past the end of a datagram; what is parsed is built
back, and a target that was parsed is parsed from its own header before any payload; and the keys
of two sessions are equal exactly if their addresses and ports are. -/
theorem socks5UdpPacket_exact :
    (∀ x, ∃ r, parseSocks5UdpPacket x = some r) ∧
    (∀ x t p, parseSocks5UdpPacket x = some (some (t, p)) → buildSocks5UdpPacket t p = x ∧
      ∀ q, parseSocks5UdpPacket (buildSocks5UdpPacket t q) = some (some (t, q))) ∧
    ∀ x x' t t' p p', parseSocks5UdpPacket x = some (some (t, p)) →
      parseSocks5UdpPacket x' = some (some (t', p')) →
      (t = t' ↔ (t.atyp, t.addr, t.port) = (t'.atyp, t'.addr, t'.port)) := by
  have hspec : ∀ x t p, parseSocks5UdpPacket x = some (some (t, p)) →
      t.Parsed ∧ x = buildSocks5UdpPacket t p := by
    intro x t p hparse
    rcases parseSocks5UdpPacket_cases x with hnone | ⟨t', p', hparsed, rfl⟩
    · rw [hnone] at hparse
      cases hparse
    · rw [parse_buildSocks5UdpPacket hparsed] at hparse
      cases hparse
      exact ⟨hparsed, rfl⟩
  refine ⟨fun x => ?_, fun x t p hparse => ?_, fun x x' t t' p p' hparse hparse' => ?_⟩
  · rcases parseSocks5UdpPacket_cases x with hnone | ⟨t, p, hparsed, rfl⟩
    · exact ⟨_, hnone⟩
    · exact ⟨_, parse_buildSocks5UdpPacket hparsed p⟩
  · obtain ⟨hparsed, hx⟩ := hspec x t p hparse
    exact ⟨hx.symm, parse_buildSocks5UdpPacket hparsed⟩
  · exact (hspec x t p hparse).1.eq_iff (hspec x' t' p' hparse').1

example : parseSocks5UdpPacket [0, 0, 0, 3, 3, 97, 46, 98, 0, 53, 7] =
    some (some (⟨"a.b", 53, 3, [97, 46, 98]⟩, [7])) :=
  parse_buildSocks5UdpPacket (t := ⟨"a.b", 53, 3, [97, 46, 98]⟩) (show _ = _ by decide +kernel) [7]

end Rahgozar.Proxy
