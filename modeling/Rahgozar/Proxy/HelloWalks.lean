import Rahgozar.Lib.FirstItem
import Rahgozar.Proxy.ClientHello

set_option autoImplicit false

/-! # The two walks over a ClientHello

`tls_sni_host_range` (`src/direct_mode.rs`) looks for the host name, `client_hello_alpn`
(`src/camouflage.rs`) for the protocols the browser offers. Both walk to the extensions in the same
way, without a look at the lengths of the record and of the handshake, and both take the first
extension of their type. A ClientHello may do without the block of extensions; then both go on into
what is behind it.
-/

namespace Rahgozar.Proxy.HelloWalks

open Direct (word Extension ServerName)
open FirstItem (Starts First Rules)

variable {β : Type}

/-! ## The walks, with their panics -/

/-- The loop over the extensions; `none` is a panic. -/
def walkExtensions (typ : Nat) (found : Nat → Nat → Option (Option β)) (data : List UInt8)
    (extEnd i : Nat) : Option (Option β) :=
  if _h : extEnd < i + 4 then some none
  else
    match word data i, word data (i + 2) with
    | some t, some l =>
        if extEnd < i + 4 + l then some none
        else if t = typ then found (i + 4) (i + 4 + l)
        else walkExtensions typ found data extEnd (i + 4 + l)
    | _, _ => some none
termination_by extEnd - i

/-- The walk to the extensions. -/
def walkHello (typ : Nat) (found : Nat → Nat → Option (Option β)) (data : List UInt8) :
    Option (Option β) :=
  if data[0]? ≠ some 0x16 ∨ data[5]? ≠ some 0x01 then some none
  else
    -- record header, handshake header, version and random
    (data[43]?).elim (some none) fun sessionLen =>
      let i := 43 + 1 + sessionLen.toNat
      (word data i).elim (some none) fun cipherLen =>
        let i := i + 2 + cipherLen
        (data[i]?).elim (some none) fun compLen =>
          let i := i + 1 + compLen.toNat
          (word data i).elim (some none) fun extLen =>
            let i := i + 2
            if data.length < i + extLen then some none
            else walkExtensions typ found data (i + extLen) i

/-- The loop over the protocols; `data[i..ne]` panics where it does not lie inside. -/
def alpnNames (data : List UInt8) (listEnd i : Nat) (out : List (List UInt8)) :
    Option (Option (List (List UInt8))) :=
  if _h : listEnd ≤ i then some (if out.isEmpty then none else some out)
  else
    match data[i]? with
    | none => some none
    | some nl =>
        if listEnd < i + 1 + nl.toNat then some none
        else
          (Offset.slice data (i + 1) (i + 1 + nl.toNat)).bind fun name =>
            alpnNames data listEnd (i + 1 + nl.toNat) (out ++ [name])
termination_by listEnd - i

def parseAlpnList (data : List UInt8) (start stop : Nat) : Option (Option (List (List UInt8))) :=
  match word data start with
  | none => some none
  | some listLen =>
      if stop < start + 2 + listLen then some none
      else alpnNames data (start + 2 + listLen) (start + 2) []

def clientHelloAlpn (data : List UInt8) : Option (Option (List (List UInt8))) :=
  walkHello 0x0010 (parseAlpnList data) data

theorem sniExtensions_eq (data : List UInt8) (extEnd i : Nat) :
    Direct.Checked.sniExtensions data extEnd i =
      walkExtensions 0 (Direct.Checked.sniHostRangeInExtension data) data extEnd i := by
  induction hk : extEnd - i using Nat.strong_induction_on generalizing i with
  | _ k ih =>
    unfold Direct.Checked.sniExtensions walkExtensions
    by_cases hlast : extEnd < i + 4
    · rw [dif_pos hlast, dif_pos hlast]
    · rw [dif_neg hlast, dif_neg hlast]
      cases word data i with
      | none => rfl
      | some typ =>
        cases word data (i + 2) with
        | none => rfl
        | some l =>
          dsimp only
          rw [ih (extEnd - (i + 4 + l)) (by omega) _ rfl]

/-- The two functions walk in the same way. -/
theorem tlsSniHostRange_eq (data : List UInt8) :
    Direct.Checked.tlsSniHostRange data =
      walkHello 0 (Direct.Checked.sniHostRangeInExtension data) data := by
  unfold Direct.Checked.tlsSniHostRange walkHello
  simp only [sniExtensions_eq]

/-! ## No panic -/

theorem walkExtensions_isSome {typ : Nat} {found : Nat → Nat → Option (Option β)}
    {data : List UInt8} {extEnd : Nat} (hend : extEnd ≤ data.length)
    (hfound : ∀ i j, j ≤ data.length → (found i j).isSome) (i : Nat) :
    (walkExtensions typ found data extEnd i).isSome := by
  induction hk : extEnd - i using Nat.strong_induction_on generalizing i with
  | _ k ih =>
    unfold walkExtensions
    split_ifs with hlast
    · rfl
    · cases word data i with
      | none => rfl
      | some t =>
        cases word data (i + 2) with
        | none => rfl
        | some l =>
          dsimp only
          split_ifs with hext htyp
          · rfl
          · exact hfound _ _ (by omega)
          · exact ih (extEnd - (i + 4 + l)) (by omega) _ rfl

theorem walkHello_isSome {typ : Nat} {found : Nat → Nat → Option (Option β)}
    {data : List UInt8} (hfound : ∀ i j, j ≤ data.length → (found i j).isSome) :
    (walkHello typ found data).isSome := by
  unfold walkHello
  split_ifs
  · rfl
  cases data[43]? with
  | none => rfl
  | some sessionLen =>
    dsimp only [Option.elim_some]
    cases word data (43 + 1 + sessionLen.toNat) with
    | none => rfl
    | some cipherLen =>
      dsimp only [Option.elim_some]
      cases data[43 + 1 + sessionLen.toNat + 2 + cipherLen]? with
      | none => rfl
      | some compLen =>
        dsimp only [Option.elim_some]
        cases word data (43 + 1 + sessionLen.toNat + 2 + cipherLen + 1 + compLen.toNat) with
        | none => rfl
        | some extLen =>
          dsimp only [Option.elim_some]
          split_ifs with hext
          · rfl
          · exact walkExtensions_isSome (by omega) hfound _

theorem alpnNames_isSome {data : List UInt8} {listEnd : Nat} (hend : listEnd ≤ data.length)
    (i : Nat) (out : List (List UInt8)) : (alpnNames data listEnd i out).isSome := by
  induction hk : listEnd - i using Nat.strong_induction_on generalizing i out with
  | _ k ih =>
    unfold alpnNames
    split_ifs with hlast
    · rfl
    · rfl
    · cases data[i]? with
      | none => rfl
      | some nl =>
        dsimp only
        split_ifs with hname
        · rfl
        · rw [Offset.slice_of_le (by omega) (by omega), Option.bind_some]
          exact ih (listEnd - (i + 1 + nl.toNat)) (by omega) _ _ rfl

theorem parseAlpnList_isSome {data : List UInt8} {start stop : Nat} (hstop : stop ≤ data.length) :
    (parseAlpnList data start stop).isSome := by
  unfold parseAlpnList
  cases word data start with
  | none => rfl
  | some listLen =>
    dsimp only
    split_ifs with hlist
    · rfl
    · exact alpnNames_isSome (by omega) _ _

theorem sniHostRange_isSome (data : List UInt8) : (Direct.Checked.tlsSniHostRange data).isSome := by
  rw [Direct.Checked.tlsSniHostRange_eq]
  rfl

theorem clientHelloAlpn_isSome (data : List UInt8) : (clientHelloAlpn data).isSome :=
  walkHello_isSome fun _ _ hstop => parseAlpnList_isSome hstop

/-! ## What the scans find -/

/-- Two bytes are a number. -/
theorem exists_put (bytes : List UInt8) (h : 2 ≤ bytes.length) :
    ∃ n, n < 2 ^ 16 ∧ bytes = BigEndian.put 2 n ++ bytes.drop 2 := by
  have hlen : (bytes.take 2).length = 2 := by
    rw [List.length_take]
    omega
  have hput := BigEndian.put_get (bytes.take 2)
  have hlt := BigEndian.get_lt (bytes.take 2)
  rw [hlen] at hput hlt
  exact ⟨BigEndian.get (bytes.take 2), hlt, by rw [hput, List.take_append_drop]⟩

def Extension.Fits (e : Extension) : Prop := e.body.length < 2 ^ 16

def ServerName.Fits (n : ServerName) : Prop := n.name.length < 2 ^ 16

theorem extension_ne_nil (e : Extension) : e.bytes ≠ [] := by
  intro hnil
  have hlen := Direct.length_extension_bytes e
  rw [hnil, List.length_nil] at hlen
  omega

theorem serverName_ne_nil (n : ServerName) : n.bytes ≠ [] := List.cons_ne_nil _ _

/-- Where no complete extension begins, the length does not fit. -/
theorem extension_short {block : List UInt8} (h : ¬ Starts Extension.bytes Extension.Fits block)
    (hlen : 4 ≤ block.length) :
    ∃ t l, t < 2 ^ 16 ∧ l < 2 ^ 16 ∧ block.length < 4 + l ∧
      block = BigEndian.put 2 t ++ (BigEndian.put 2 l ++ block.drop 4) := by
  obtain ⟨t, ht, hblock⟩ := exists_put block (by omega)
  obtain ⟨l, hl, hbody⟩ := exists_put (block.drop 2) (by rw [List.length_drop]; omega)
  rw [List.drop_drop] at hbody
  rw [hbody] at hblock
  refine ⟨t, l, ht, hl, not_le.mp fun hle => h ?_, hblock⟩
  have hbodyLength : ((block.drop 4).take l).length = l := by
    rw [List.length_take, List.length_drop]
    omega
  refine ⟨⟨UInt16.ofNat t, (block.drop 4).take l⟩, (block.drop 4).drop l, ?_, ?_⟩
  · show ((block.drop 4).take l).length < 2 ^ 16
    omega
  · have htyp : (UInt16.ofNat t).toNat = t := UInt16.toNat_ofNat_of_lt' ht
    rw [Extension.bytes, htyp, hbodyLength, List.append_assoc, List.append_assoc,
      List.take_append_drop]
    exact hblock

theorem serverName_short {block : List UInt8}
    (h : ¬ Starts ServerName.bytes ServerName.Fits block) (hlen : 3 ≤ block.length) :
    ∃ t l, l < 2 ^ 16 ∧ block.length < 3 + l ∧
      block = t :: (BigEndian.put 2 l ++ block.drop 3) := by
  cases block with
  | nil => simp at hlen
  | cons t tail =>
    rw [List.length_cons] at hlen
    obtain ⟨l, hl, htail⟩ := exists_put tail (by omega)
    refine ⟨t, l, hl, not_le.mp fun hle => h ?_, congrArg (t :: ·) htail⟩
    rw [List.length_cons] at hle
    have hnameLength : ((tail.drop 2).take l).length = l := by
      rw [List.length_take, List.length_drop]
      omega
    refine ⟨⟨t, (tail.drop 2).take l⟩, (tail.drop 2).drop l, ?_, ?_⟩
    · show ((tail.drop 2).take l).length < 2 ^ 16
      omega
    · rw [ServerName.bytes, hnameLength, List.cons_append, List.append_assoc,
        List.take_append_drop]
      exact congrArg (t :: ·) htail

/-- The walk takes the first extension of its type. -/
theorem extensions_rules (typ : UInt16) (found : Nat → Nat → Option (Option β))
    (whole rest : List UInt8) :
    Rules Extension.bytes Extension.Fits (fun e => e.typ = typ) whole
      (fun front => walkExtensions typ.toNat found (whole ++ rest) whole.length front.length)
      (some none) (fun front e => found (front.length + 4) (front.length + 4 + e.body.length)) where
  short := by
    rintro front block rfl hshort
    unfold walkExtensions
    rw [List.length_append]
    by_cases hlen : block.length < 4
    · rw [dif_pos (by omega)]
    · -- the extension is cut off: its length reaches behind the block
      obtain ⟨t, l, ht, hl, hover, hblock⟩ := extension_short hshort (by omega)
      have htyp := Direct.word_put ht front (BigEndian.put 2 l ++ (block.drop 4 ++ rest))
      have hlength := Direct.word_put hl (front ++ BigEndian.put 2 t) (block.drop 4 ++ rest)
      have hdata : front ++ block ++ rest =
          front ++ (BigEndian.put 2 t ++ (BigEndian.put 2 l ++ (block.drop 4 ++ rest))) := by
        conv_lhs => rw [hblock]
        simp only [List.append_assoc]
      rw [List.append_assoc, List.length_append, BigEndian.length_put] at hlength
      rw [dif_neg (by omega), hdata, htyp, hlength]
      dsimp only
      rw [if_pos (by omega)]
  next := by
    rintro front e more rfl hfits hne
    obtain ⟨htyp, hlength⟩ := Direct.head_extension hfits front (more ++ rest)
    have hne' : e.typ.toNat ≠ typ.toNat := fun heq => hne (UInt16.toNat_inj.mp heq)
    rw [← List.append_assoc, ← List.append_assoc] at htyp hlength
    conv_lhs => unfold walkExtensions
    rw [List.length_append, List.length_append, List.length_append,
      Direct.length_extension_bytes, dif_neg (by omega)]
    rw [List.append_assoc front] at htyp hlength
    rw [htyp, hlength]
    dsimp only
    rw [if_neg (by omega), if_neg hne', Nat.add_assoc front.length 4]
  found := by
    rintro front e more rfl hfits rfl
    obtain ⟨htyp, hlength⟩ := Direct.head_extension hfits front (more ++ rest)
    rw [← List.append_assoc, ← List.append_assoc] at htyp hlength
    unfold walkExtensions
    rw [List.length_append, List.length_append, Direct.length_extension_bytes,
      dif_neg (by omega)]
    rw [List.append_assoc front] at htyp hlength
    rw [htyp, hlength]
    dsimp only
    rw [if_neg (by omega), if_pos rfl]

/-- The walk takes the first host name. -/
theorem names_rules (whole rest : List UInt8) :
    Rules ServerName.bytes ServerName.Fits (fun n => n.nameType = 0) whole
      (fun front => Direct.Checked.sniNames (whole ++ rest) whole.length front.length)
      (some none)
      (fun front n => some (some (front.length + 3, front.length + 3 + n.name.length))) where
  short := by
    rintro front block rfl hshort
    unfold Direct.Checked.sniNames
    rw [List.length_append]
    by_cases hlen : block.length < 3
    · rw [dif_pos (by omega)]
    · -- the name is cut off: its length reaches behind the list
      obtain ⟨t, l, hl, hover, hblock⟩ := serverName_short hshort (by omega)
      have hdata : front ++ block ++ rest =
          front ++ (t :: (BigEndian.put 2 l ++ (block.drop 3 ++ rest))) := by
        conv_lhs => rw [hblock]
        simp only [List.append_assoc, List.cons_append]
      have htype : (front ++ (t :: (BigEndian.put 2 l ++ (block.drop 3 ++ rest))))[front.length]? =
          some t := Offset.getElem?_append_add front _ 0
      have hlength := Direct.word_put hl (front ++ [t]) (block.drop 3 ++ rest)
      rw [List.append_assoc, List.length_append] at hlength
      rw [dif_neg (by omega), hdata, htype, Option.bind_some]
      rw [show word (front ++ (t :: (BigEndian.put 2 l ++ (block.drop 3 ++ rest))))
        (front.length + 1) = some l from hlength]
      dsimp only
      rw [if_pos (by omega)]
  next := by
    rintro front n more rfl hfits hne
    obtain ⟨htype, hlength⟩ := Direct.head_serverName hfits front (more ++ rest)
    have hdata : front ++ (n.bytes ++ more) ++ rest = front ++ (n.bytes ++ (more ++ rest)) := by
      simp only [List.append_assoc]
    conv_lhs => unfold Direct.Checked.sniNames
    rw [List.length_append, List.length_append, List.length_append,
      Direct.length_serverName_bytes, dif_neg (by omega), hdata, htype, Option.bind_some, hlength]
    dsimp only
    rw [if_neg (by omega), if_neg hne, Nat.add_assoc front.length 3]
  found := by
    rintro front n more rfl hfits hzero
    obtain ⟨htype, hlength⟩ := Direct.head_serverName hfits front (more ++ rest)
    have hdata : front ++ (n.bytes ++ more) ++ rest = front ++ (n.bytes ++ (more ++ rest)) := by
      simp only [List.append_assoc]
    unfold Direct.Checked.sniNames
    rw [List.length_append, List.length_append, Direct.length_serverName_bytes,
      dif_neg (by omega), hdata, htype, Option.bind_some, hlength]
    dsimp only
    rw [if_neg (by omega), if_pos hzero]

/-- A list behind its length, with bytes behind it that are not looked at. -/
def Listed (body list : List UInt8) : Prop :=
  list.length < 2 ^ 16 ∧ ∃ junk, body = BigEndian.put 2 list.length ++ (list ++ junk)

theorem listed_or_short (front body rest : List UInt8) :
    (∃ list, Listed body list) ∨
      ∀ l, word (front ++ (body ++ rest)) front.length = some l → body.length < 2 + l := by
  by_cases hlen : 2 ≤ body.length
  · obtain ⟨n, hn, hbody⟩ := exists_put body hlen
    by_cases hfits : n ≤ (body.drop 2).length
    · have htake : ((body.drop 2).take n).length = n := List.length_take_of_le hfits
      refine Or.inl ⟨(body.drop 2).take n, by rwa [htake], (body.drop 2).drop n, ?_⟩
      rw [htake, List.take_append_drop]
      exact hbody
    · refine Or.inr fun l hl => ?_
      have hword := Direct.word_put hn front (body.drop 2 ++ rest)
      rw [← List.append_assoc (BigEndian.put 2 n), ← hbody, hl] at hword
      rw [List.length_drop] at hfits
      cases hword
      omega
  · exact Or.inr fun l _ => by omega

/-- A protocol of the list. -/
def protocolBytes (name : List UInt8) : List UInt8 := UInt8.ofNat name.length :: name

theorem length_protocolBytes (p : List UInt8) : (protocolBytes p).length = 1 + p.length := by
  rw [protocolBytes, List.length_cons, Nat.add_comm]

/-- One turn of the loop. -/
theorem alpnNames_protocol {p : List UInt8} (hp : p.length < 2 ^ 8) (front more : List UInt8)
    {listEnd : Nat} (hend : front.length + 1 + p.length ≤ listEnd) (out : List (List UInt8)) :
    alpnNames (front ++ (protocolBytes p ++ more)) listEnd front.length out =
      alpnNames (front ++ (protocolBytes p ++ more)) listEnd (front ++ protocolBytes p).length
        (out ++ [p]) := by
  have hlength : (UInt8.ofNat p.length).toNat = p.length := Direct.toNat_ofNat_of_lt hp
  have hbyte : (front ++ (protocolBytes p ++ more))[front.length]? = some (UInt8.ofNat p.length) :=
    Offset.getElem?_append_add front _ 0
  have hslice : Offset.slice (front ++ (protocolBytes p ++ more)) (front.length + 1)
      (front.length + 1 + p.length) = some p := by
    have hsplit : front ++ (protocolBytes p ++ more) =
        (front ++ [UInt8.ofNat p.length]) ++ (p ++ more) := by
      simp [protocolBytes]
    have hat := Offset.slice_append_right (front ++ [UInt8.ofNat p.length]) (p ++ more) 0 p.length
    rw [List.length_append, List.length_singleton] at hat
    rw [hsplit]
    exact hat.trans (Offset.slice_left p more)
  conv_lhs => unfold alpnNames
  rw [dif_neg (by omega), hbyte]
  dsimp only
  rw [hlength, if_neg (by omega), hslice, Option.bind_some, List.length_append,
    length_protocolBytes, Nat.add_assoc front.length 1]

theorem alpnNames_protocols {protocols : List (List UInt8)}
    (hlen : ∀ p ∈ protocols, p.length < 2 ^ 8) (front rest : List UInt8)
    (out : List (List UInt8)) :
    alpnNames (front ++ (protocols.flatMap protocolBytes ++ rest))
        (front.length + (protocols.flatMap protocolBytes).length) front.length out =
      some (if (out ++ protocols).isEmpty then none else some (out ++ protocols)) := by
  induction protocols generalizing front out with
  | nil =>
    unfold alpnNames
    rw [List.flatMap_nil, List.length_nil, Nat.add_zero, dif_pos le_rfl, List.append_nil]
  | cons p protocols ih =>
    have hrest := ih (fun q hq => hlen q (List.mem_cons_of_mem p hq)) (front ++ protocolBytes p)
      (out ++ [p])
    have hdata : front ++ ((p :: protocols).flatMap protocolBytes ++ rest) =
        front ++ (protocolBytes p ++ (protocols.flatMap protocolBytes ++ rest)) := by
      rw [List.flatMap_cons, List.append_assoc]
    have hend : front.length + ((p :: protocols).flatMap protocolBytes).length =
        (front ++ protocolBytes p).length + (protocols.flatMap protocolBytes).length := by
      rw [List.flatMap_cons, List.length_append, List.length_append, Nat.add_assoc]
    have hroom : front.length + 1 + p.length ≤
        (front ++ protocolBytes p).length + (protocols.flatMap protocolBytes).length := by
      rw [List.length_append, length_protocolBytes]
      omega
    rw [hdata, hend, alpnNames_protocol (hlen p List.mem_cons_self) front _ hroom,
      ← List.append_assoc front, hrest, List.append_assoc, List.singleton_append]

/-- Where protocols are returned, the list is made of them. -/
theorem protocols_of_alpnNames {front list rest : List UInt8} {out r : List (List UInt8)}
    (h : alpnNames (front ++ (list ++ rest)) (front.length + list.length) front.length out =
      some (some r)) :
    ∃ protocols, (∀ p ∈ protocols, p.length < 2 ^ 8) ∧
      list = protocols.flatMap protocolBytes ∧ r = out ++ protocols ∧ r ≠ [] := by
  induction hk : list.length using Nat.strong_induction_on generalizing front list out with
  | _ k ih =>
    cases list with
    | nil =>
      unfold alpnNames at h
      rw [List.length_nil, Nat.add_zero, dif_pos le_rfl, Option.some_inj] at h
      have hout : out ≠ [] ∧ out = r := by
        simpa using h
      exact ⟨[], fun p hp => absurd hp List.not_mem_nil, rfl, by rw [List.append_nil, hout.2],
        hout.2 ▸ hout.1⟩
    | cons b list =>
      rw [List.length_cons] at hk
      by_cases hover : list.length < b.toNat
      · have hbyte : (front ++ (b :: list ++ rest))[front.length]? = some b :=
          Offset.getElem?_append_add front _ 0
        unfold alpnNames at h
        rw [List.length_cons, dif_neg (by omega), hbyte] at h
        dsimp only at h
        rw [if_pos (by omega)] at h
        cases h
      · have hname : (list.take b.toNat).length = b.toNat := List.length_take_of_le (by omega)
        have hp : (list.take b.toNat).length < 2 ^ 8 := by
          rw [hname]
          exact b.toNat_lt
        have hlist : b :: list = protocolBytes (list.take b.toNat) ++ list.drop b.toNat := by
          rw [protocolBytes, hname, UInt8.ofNat_toNat, List.cons_append, List.take_append_drop]
        have hlens := congrArg List.length hlist
        rw [List.length_append, length_protocolBytes] at hlens
        have hend : front.length + (protocolBytes (list.take b.toNat) ++ list.drop b.toNat).length =
            (front ++ protocolBytes (list.take b.toNat)).length + (list.drop b.toNat).length := by
          simp only [List.length_append, Nat.add_assoc]
        rw [hlist, List.append_assoc, hend, alpnNames_protocol hp front _ (by
          rw [List.length_append, length_protocolBytes]; omega), ← List.append_assoc front] at h
        obtain ⟨protocols, hlen, hprotocols, hr, hne⟩ := ih (list.drop b.toNat).length
          (by rw [List.length_drop]; omega) h rfl
        refine ⟨list.take b.toNat :: protocols, List.forall_mem_cons.mpr ⟨hp, hlen⟩, ?_, ?_, hne⟩
        · rw [hlist, List.flatMap_cons, ← hprotocols]
        · rw [hr, List.append_assoc, List.singleton_append]

end Rahgozar.Proxy.HelloWalks
