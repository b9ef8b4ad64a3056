import Rahgozar.Proxy.HelloWalks

set_option autoImplicit false

/-! # What the two walks return for a ClientHello

A ClientHello is built from its parts. Where it has a block of extensions, both walks return what is
in it, whatever follows; where it has none, they return what they make of the bytes behind it.
-/

namespace Rahgozar.Proxy.HelloWalks

open Direct (word Extension ServerName)
open FirstItem (Starts First Rules)

variable {β : Type}

/-! ## A ClientHello -/

inductive HelloExtension where
  | serverName (names : List ServerName)
  | alpn (protocols : List (List UInt8))
  | other (typ : UInt16) (body : List UInt8)

/-- A list behind its length. -/
def putList (list : List UInt8) : List UInt8 := BigEndian.put 2 list.length ++ list

def HelloExtension.toExtension : HelloExtension → Extension
  | .serverName names => ⟨0x0000, putList (names.flatMap ServerName.bytes)⟩
  | .alpn protocols => ⟨0x0010, putList (protocols.flatMap protocolBytes)⟩
  | .other typ body => ⟨typ, body⟩

def HelloExtension.bytes (e : HelloExtension) : List UInt8 := e.toExtension.bytes

def HelloExtension.WellFormed : HelloExtension → Prop
  | .serverName _ => True
  | .alpn protocols => ∀ p ∈ protocols, p.length < 2 ^ 8
  | .other typ _ => typ ≠ 0x0000 ∧ typ ≠ 0x0010

/-- The parts of a ClientHello; a record may hold more than the ClientHello. -/
structure HelloFields where
  recordVersion : UInt16
  recordLength : UInt16
  version : UInt16
  random : List UInt8
  sessionId : List UInt8
  cipherSuites : List UInt8
  compression : List UInt8
  extensions : Option (List HelloExtension)

namespace HelloFields

variable (h : HelloFields)

/-- The block of extensions, when there is one. -/
def block : List UInt8 :=
  match h.extensions with
  | none => []
  | some es => putList (es.flatMap HelloExtension.bytes)

/-- What stands between the random bytes and the extensions. -/
def lists : List UInt8 :=
  UInt8.ofNat h.sessionId.length :: (h.sessionId ++
    (BigEndian.put 2 h.cipherSuites.length ++ (h.cipherSuites ++
      (UInt8.ofNat h.compression.length :: h.compression))))

def body : List UInt8 :=
  BigEndian.put 2 h.version.toNat ++ (h.random ++ (h.lists ++ h.block))

def handshake : List UInt8 := 0x01 :: (BigEndian.put 3 h.body.length ++ h.body)

def bytes : List UInt8 :=
  0x16 :: (BigEndian.put 2 h.recordVersion.toNat ++
    (BigEndian.put 2 h.recordLength.toNat ++ h.handshake))

/-- What is in front of the session id. -/
def start : List UInt8 :=
  0x16 :: (BigEndian.put 2 h.recordVersion.toNat ++ (BigEndian.put 2 h.recordLength.toNat ++
    (0x01 :: (BigEndian.put 3 h.body.length ++ (BigEndian.put 2 h.version.toNat ++ h.random)))))

/-- What is in front of the extensions. -/
def front : List UInt8 := h.start ++ h.lists

theorem bytes_eq : h.bytes = h.front ++ h.block := by
  simp only [bytes, handshake, body, front, start, List.cons_append, List.append_assoc]

end HelloFields

/-- A ClientHello in one record. The types may repeat; the first counts. -/
structure Hello extends HelloFields where
  random_length : random.length = 32
  sessionId_length : sessionId.length < 2 ^ 8
  compression_length : compression.length < 2 ^ 8
  wellFormed : ∀ es, extensions = some es → ∀ e ∈ es, e.WellFormed
  single : toHelloFields.handshake.length ≤ recordLength.toNat

/-- The range of the first host name, where the names begin at `i`. -/
def namesRange (i : Nat) : List ServerName → Option (Nat × Nat)
  | [] => none
  | n :: names =>
      if n.nameType = 0 then some (i + 3, i + 3 + n.name.length)
      else namesRange (i + n.bytes.length) names

/-- The range of the host name, where the extensions begin at `i`. -/
def rangeIn (i : Nat) : List HelloExtension → Option (Nat × Nat)
  | [] => none
  | .serverName names :: _ => namesRange (i + 4 + 2) names
  | e :: es => rangeIn (i + e.bytes.length) es

def protocolsIn : List HelloExtension → Option (List (List UInt8))
  | [] => none
  | .alpn protocols :: _ => if protocols.isEmpty then none else some protocols
  | _ :: es => protocolsIn es

/-- Where the host name is. -/
def Hello.hostRange (h : Hello) : Option (Nat × Nat) :=
  rangeIn (h.front.length + 2) (h.extensions.getD [])

/-- The protocols that are offered. -/
def Hello.protocols (h : Hello) : Option (List (List UInt8)) := protocolsIn (h.extensions.getD [])

/-! ## Lists in an extension -/

/-- Both readers of an extension look for a list in it. -/
def inList (scan : Nat → Nat → Option (Option β)) (data : List UInt8) (start stop : Nat) :
    Option (Option β) :=
  match word data start with
  | none => some none
  | some listLen =>
      if stop < start + 2 + listLen then some none else scan (start + 2 + listLen) (start + 2)

theorem sniHostRangeInExtension_eq (data : List UInt8) (start stop : Nat) :
    Direct.Checked.sniHostRangeInExtension data start stop =
      inList (Direct.Checked.sniNames data) data start stop := rfl

theorem parseAlpnList_eq (data : List UInt8) (start stop : Nat) :
    parseAlpnList data start stop =
      inList (fun listEnd i => alpnNames data listEnd i []) data start stop := rfl

section

variable {scan : Nat → Nat → Option (Option β)} {front body list rest : List UInt8}

theorem inList_listed (scan : Nat → Nat → Option (Option β)) (front rest : List UInt8)
    (h : Listed body list) :
    inList scan (front ++ (body ++ rest)) front.length (front.length + body.length) =
      scan (front.length + 2 + list.length) (front.length + 2) := by
  obtain ⟨hlen, junk, rfl⟩ := h
  have hword := Direct.word_put hlen front (list ++ junk ++ rest)
  rw [← List.append_assoc (BigEndian.put 2 list.length)] at hword
  unfold inList
  rw [hword]
  dsimp only
  rw [List.length_append, List.length_append, BigEndian.length_put, if_neg (by omega)]

theorem inList_short
    (h : ∀ l, word (front ++ (body ++ rest)) front.length = some l → body.length < 2 + l) :
    inList scan (front ++ (body ++ rest)) front.length (front.length + body.length) =
      some none := by
  unfold inList
  cases hword : word (front ++ (body ++ rest)) front.length with
  | none => rfl
  | some l =>
    have hl := h l hword
    dsimp only
    rw [if_pos (by omega)]

end

theorem listed_putList {list : List UInt8} (h : list.length < 2 ^ 16) :
    Listed (putList list) list :=
  ⟨h, [], by rw [List.append_nil, putList]⟩

/-! ## The walks over well-formed extensions -/

theorem sniNames_eq {names : List ServerName}
    (hlen : (names.flatMap ServerName.bytes).length < 2 ^ 16) (front rest : List UInt8) :
    Direct.Checked.sniNames (front ++ (names.flatMap ServerName.bytes ++ rest))
        (front.length + (names.flatMap ServerName.bytes).length) front.length =
      some (namesRange front.length names) := by
  rw [← List.append_assoc, ← List.length_append]
  generalize hwhole : front ++ names.flatMap ServerName.bytes = whole
  have hrules := names_rules whole rest
  induction names generalizing front with
  | nil => exact hrules.short front [] hwhole (FirstItem.not_starts_nil serverName_ne_nil)
  | cons n names ih =>
    rw [List.flatMap_cons] at hwhole hlen
    rw [List.length_append, Direct.length_serverName_bytes] at hlen
    have hfits : ServerName.Fits n := by
      show n.name.length < 2 ^ 16
      omega
    by_cases hzero : n.nameType = 0
    · rw [namesRange, if_pos hzero]
      exact hrules.found front n _ hwhole hfits hzero
    · have hnext := hrules.next front n _ hwhole hfits hzero
      rw [namesRange, if_neg hzero, ← List.length_append]
      exact hnext.trans (ih (by omega) _ (by rw [List.append_assoc, hwhole]))

section

variable {es : List HelloExtension} {front whole : List UInt8}

theorem extension_front (front rest : List UInt8) (e : Extension) :
    front ++ (e.bytes ++ rest) =
      (front ++ (BigEndian.put 2 e.typ.toNat ++ BigEndian.put 2 e.body.length)) ++
        (e.body ++ rest) := by
  simp only [Extension.bytes, List.append_assoc]

theorem length_extension_front (front : List UInt8) (e : Extension) :
    (front ++ (BigEndian.put 2 e.typ.toNat ++ BigEndian.put 2 e.body.length)).length =
      front.length + 4 := by
  rw [List.length_append, List.length_append, BigEndian.length_put, BigEndian.length_put]

/-- Where the list of an extension is. -/
theorem listed_split {e : Extension} {list : List UInt8} (h : Listed e.body list)
    (front rest : List UInt8) :
    ∃ front' rest', front ++ (e.bytes ++ rest) = front' ++ (list ++ rest') ∧
      front'.length = front.length + 4 + 2 := by
  obtain ⟨-, junk, hbody⟩ := h
  have hrest : e.body ++ rest = BigEndian.put 2 list.length ++ (list ++ (junk ++ rest)) := by
    rw [hbody, List.append_assoc, List.append_assoc]
  refine ⟨front ++ (BigEndian.put 2 e.typ.toNat ++ BigEndian.put 2 e.body.length) ++
    BigEndian.put 2 list.length, junk ++ rest, ?_, ?_⟩
  · rw [extension_front, hrest]
    simp only [List.append_assoc]
  · rw [List.length_append, length_extension_front, BigEndian.length_put]

/-- What is read of the body of an extension. -/
theorem inList_extension {scan : Nat → Nat → Option (Option β)} {e : Extension}
    {list rest : List UInt8} (h : Listed e.body list) :
    inList scan (front ++ (e.bytes ++ rest)) (front.length + 4)
        (front.length + 4 + e.body.length) =
      scan (front.length + 4 + 2 + list.length) (front.length + 4 + 2) := by
  rw [extension_front, ← length_extension_front front e]
  exact inList_listed scan _ rest h

/-- Where there is no list in an extension, nothing is read of it. -/
theorem listed_or_unread (scan : Nat → Nat → Option (Option β)) (front rest : List UInt8)
    (e : Extension) :
    (∃ list, Listed e.body list) ∨ inList scan (front ++ (e.bytes ++ rest)) (front.length + 4)
        (front.length + 4 + e.body.length) = some none := by
  rw [extension_front, ← length_extension_front front e]
  rcases listed_or_short (front ++ (BigEndian.put 2 e.typ.toNat ++
    BigEndian.put 2 e.body.length)) e.body rest with hlisted | hshort
  · exact Or.inl hlisted
  · exact Or.inr (inList_short hshort)

theorem walk_wellFormed (typ : UInt16) {found : Nat → Nat → Option (Option β)}
    (expected : Nat → List HelloExtension → Option β) (hnil : ∀ i, expected i [] = none)
    (hskip : ∀ i e es, HelloExtension.WellFormed e → e.toExtension.typ ≠ typ →
      expected i (e :: es) = expected (i + e.bytes.length) es)
    (hfound : ∀ front e es, front ++ (e.bytes ++ es.flatMap HelloExtension.bytes) = whole →
      HelloExtension.WellFormed e → Extension.Fits e.toExtension → e.toExtension.typ = typ →
      found (front.length + 4) (front.length + 4 + e.toExtension.body.length) =
        some (expected front.length (e :: es)))
    (hwhole : front ++ es.flatMap HelloExtension.bytes = whole)
    (hlen : (es.flatMap HelloExtension.bytes).length < 2 ^ 16)
    (hwell : ∀ e ∈ es, e.WellFormed) (rest : List UInt8) :
    walkExtensions typ.toNat found (whole ++ rest) whole.length front.length =
      some (expected front.length es) := by
  have hrules := extensions_rules typ found whole rest
  induction es generalizing front with
  | nil =>
    rw [hnil]
    exact hrules.short front [] hwhole (FirstItem.not_starts_nil extension_ne_nil)
  | cons e es ih =>
    have hwhole' : front ++ (e.toExtension.bytes ++ es.flatMap HelloExtension.bytes) = whole := by
      rwa [List.flatMap_cons] at hwhole
    have hbody := Direct.length_extension_bytes e.toExtension
    rw [List.flatMap_cons, List.length_append, HelloExtension.bytes, hbody] at hlen
    have hfits : Extension.Fits e.toExtension := by
      show e.toExtension.body.length < 2 ^ 16
      omega
    have hwell' := hwell e List.mem_cons_self
    by_cases htyp : e.toExtension.typ = typ
    · rw [← hfound front e es hwhole' hwell' hfits htyp]
      exact hrules.found front e.toExtension _ hwhole' hfits htyp
    · rw [hskip _ e es hwell' htyp, ← List.length_append]
      exact (hrules.next front e.toExtension _ hwhole' hfits htyp).trans
        (ih (by rw [List.append_assoc]; exact hwhole') (by omega)
          fun b hb => hwell b (List.mem_cons_of_mem e hb))

/-- The first walk over the extensions of a ClientHello. -/
theorem walk_serverName (hwhole : front ++ es.flatMap HelloExtension.bytes = whole)
    (hlen : (es.flatMap HelloExtension.bytes).length < 2 ^ 16)
    (hwell : ∀ e ∈ es, e.WellFormed) (rest : List UInt8) :
    walkExtensions 0 (Direct.Checked.sniHostRangeInExtension (whole ++ rest)) (whole ++ rest)
      whole.length front.length = some (rangeIn front.length es) := by
  refine walk_wellFormed 0 rangeIn (fun _ => rfl) ?_ ?_ hwhole hlen hwell rest
  · intro i e es hwell htyp
    cases e with
    | serverName names => exact absurd rfl htyp
    | alpn protocols => rfl
    | other typ body => rfl
  · intro front e es hwhole hwell hfits htyp
    cases e with
    | serverName names =>
      have hnames : (names.flatMap ServerName.bytes).length < 2 ^ 16 := by
        have hlen : (putList (names.flatMap ServerName.bytes)).length < 2 ^ 16 := hfits
        rw [putList, List.length_append] at hlen
        omega
      have hlisted := listed_putList hnames
      obtain ⟨front', rest', hsplit, hfront'⟩ := listed_split
        (e := HelloExtension.toExtension (.serverName names)) hlisted front
        (es.flatMap HelloExtension.bytes ++ rest)
      rw [← hwhole, List.append_assoc, List.append_assoc, sniHostRangeInExtension_eq]
      refine (inList_extension (e := HelloExtension.toExtension (.serverName names))
        hlisted).trans ?_
      have hread := sniNames_eq hnames front' rest'
      rw [← hsplit, hfront'] at hread
      exact hread
    | alpn protocols => cases htyp
    | other typ body => exact absurd htyp hwell.1

theorem walk_protocols (hwhole : front ++ es.flatMap HelloExtension.bytes = whole)
    (hlen : (es.flatMap HelloExtension.bytes).length < 2 ^ 16)
    (hwell : ∀ e ∈ es, e.WellFormed) (rest : List UInt8) :
    walkExtensions 0x0010 (parseAlpnList (whole ++ rest)) (whole ++ rest) whole.length
      front.length = some (protocolsIn es) := by
  refine walk_wellFormed 0x0010 (fun _ => protocolsIn) (fun _ => rfl) ?_ ?_
    hwhole hlen hwell rest
  · intro i e es hwell htyp
    cases e with
    | serverName names => rfl
    | alpn protocols => exact absurd rfl htyp
    | other typ body => rfl
  · intro front e es hwhole hwell hfits htyp
    cases e with
    | serverName names => cases htyp
    | alpn protocols =>
      have hprotocols : (protocols.flatMap protocolBytes).length < 2 ^ 16 := by
        have hlen : (putList (protocols.flatMap protocolBytes)).length < 2 ^ 16 := hfits
        rw [putList, List.length_append] at hlen
        omega
      have hlisted := listed_putList hprotocols
      obtain ⟨front', rest', hsplit, hfront'⟩ := listed_split
        (e := HelloExtension.toExtension (.alpn protocols)) hlisted front
        (es.flatMap HelloExtension.bytes ++ rest)
      rw [← hwhole, List.append_assoc, List.append_assoc, parseAlpnList_eq]
      refine (inList_extension (e := HelloExtension.toExtension (.alpn protocols))
        hlisted).trans ?_
      have hread := alpnNames_protocols hwell front' rest' []
      rw [← hsplit, hfront'] at hread
      exact hread
    | other typ body => exact absurd htyp hwell.2

end

/-! ## The walk to the extensions -/

theorem length_start (h : Hello) : h.start.length = 43 := by
  simp only [HelloFields.start, List.length_cons, List.length_append, BigEndian.length_put,
    h.random_length]

theorem length_lists (h : HelloFields) :
    h.lists.length = 1 + h.sessionId.length + 2 + h.cipherSuites.length + 1 +
      h.compression.length := by
  simp only [HelloFields.lists, List.length_cons, List.length_append, BigEndian.length_put]
  omega

theorem length_front (h : Hello) :
    h.front.length = 43 + 1 + h.sessionId.length + 2 + h.cipherSuites.length + 1 +
      h.compression.length := by
  rw [HelloFields.front, List.length_append, length_start, length_lists]
  omega

/-- A record holds less than `2 ^ 16` bytes, so each length fits in its field. -/
theorem length_lt (h : Hello) :
    h.cipherSuites.length < 2 ^ 16 ∧ h.block.length < 2 ^ 16 := by
  have hsingle := h.single
  have hrecord := h.recordLength.toNat_lt
  simp only [HelloFields.handshake, HelloFields.body, List.length_cons, List.length_append,
    BigEndian.length_put, length_lists] at hsingle
  omega

/-- What the walk reads of a ClientHello, whatever is behind its front. -/
structure Reads (h : Hello) (data : List UInt8) : Prop where
  session : data[43]? = some (UInt8.ofNat h.sessionId.length)
  ciphers : word data (43 + 1 + h.sessionId.length) = some h.cipherSuites.length
  compression : data[43 + 1 + h.sessionId.length + 2 + h.cipherSuites.length]? =
    some (UInt8.ofNat h.compression.length)

theorem reads_front (h : Hello) (after : List UInt8) : Reads h (h.front ++ after) where
  session := by
    rw [HelloFields.front, List.append_assoc, ← length_start h]
    exact Offset.getElem?_append_add h.start _ 0
  ciphers := by
    have hdata : h.front ++ after = (h.start ++ UInt8.ofNat h.sessionId.length :: h.sessionId) ++
        (BigEndian.put 2 h.cipherSuites.length ++ (h.cipherSuites ++
          (UInt8.ofNat h.compression.length :: (h.compression ++ after)))) := by
      simp [HelloFields.front, HelloFields.lists]
    have hlength : (h.start ++ UInt8.ofNat h.sessionId.length :: h.sessionId).length =
        43 + 1 + h.sessionId.length := by
      rw [List.length_append, length_start, List.length_cons]
      omega
    rw [hdata, ← hlength]
    exact Direct.word_put (length_lt h).1 _ _
  compression := by
    have hdata : h.front ++ after = (h.start ++ UInt8.ofNat h.sessionId.length :: (h.sessionId ++
        (BigEndian.put 2 h.cipherSuites.length ++ h.cipherSuites))) ++
          (UInt8.ofNat h.compression.length :: (h.compression ++ after)) := by
      simp [HelloFields.front, HelloFields.lists]
    have hlength : (h.start ++ UInt8.ofNat h.sessionId.length :: (h.sessionId ++
        (BigEndian.put 2 h.cipherSuites.length ++ h.cipherSuites))).length =
          43 + 1 + h.sessionId.length + 2 + h.cipherSuites.length := by
      rw [List.length_append, length_start, List.length_cons, List.length_append,
        List.length_append, BigEndian.length_put]
      omega
    rw [hdata, ← hlength]
    exact Offset.getElem?_append_add _ _ 0

section

variable {typ : Nat} {found : Nat → Nat → Option (Option β)}

/-- The walk is at the block of extensions. -/
theorem walkHello_front (h : Hello) (after : List UInt8) :
    walkHello typ found (h.front ++ after) =
      (word (h.front ++ after) h.front.length).elim (some none) fun extLen =>
        if (h.front ++ after).length < h.front.length + 2 + extLen then some none
        else walkExtensions typ found (h.front ++ after) (h.front.length + 2 + extLen)
          (h.front.length + 2) := by
  have hreads := reads_front h after
  have hrecord : (h.front ++ after)[0]? = some 0x16 := rfl
  have htype : (h.front ++ after)[5]? = some 0x01 := rfl
  unfold walkHello
  rw [if_neg (by rw [hrecord, htype]; simp), hreads.session]
  dsimp only [Option.elim_some]
  rw [Direct.toNat_ofNat_of_lt h.sessionId_length, hreads.ciphers]
  dsimp only [Option.elim_some]
  rw [hreads.compression]
  dsimp only [Option.elim_some]
  rw [Direct.toNat_ofNat_of_lt h.compression_length, ← length_front h]

/-- A read of the first bytes of some data is none, or the same read of the data. -/
theorem getElem?_take (data : List UInt8) (k i : Nat) :
    (data.take k)[i]? = none ∨ (data.take k)[i]? = data[i]? := by
  by_cases hlt : i < k
  · exact Or.inr (List.getElem?_take_of_lt hlt)
  · exact Or.inl (List.getElem?_eq_none (by rw [List.length_take]; omega))

theorem word_take (data : List UInt8) (k i : Nat) :
    word (data.take k) i = none ∨
      word (data.take k) i = word data i ∧ i + 2 ≤ (data.take k).length := by
  by_cases hle : i + 2 ≤ (data.take k).length
  · refine Or.inr ⟨?_, hle⟩
    obtain ⟨n, hn, hput⟩ := exists_put ((data.take k).drop i)
      (by rw [List.length_drop]; omega)
    have hfront : ((data.take k).take i).length = i := List.length_take_of_le (by omega)
    have hsplit : data.take k =
        (data.take k).take i ++ (BigEndian.put 2 n ++ ((data.take k).drop i).drop 2) := by
      rw [← hput, List.take_append_drop]
    have hdata : data = (data.take k).take i ++
        (BigEndian.put 2 n ++ (((data.take k).drop i).drop 2 ++ data.drop k)) := by
      have hall := List.take_append_drop k data
      rw [hsplit, List.append_assoc, List.append_assoc] at hall
      exact hall.symm
    have hword := Direct.word_put hn ((data.take k).take i) (((data.take k).drop i).drop 2)
    have hword' := Direct.word_put hn ((data.take k).take i)
      (((data.take k).drop i).drop 2 ++ data.drop k)
    rw [← hsplit, hfront] at hword
    rw [← hdata, hfront] at hword'
    rw [hword, hword']
  · refine Or.inl ?_
    have hlen : ((data.take k).drop i).length < 2 := by
      rw [List.length_drop]
      omega
    unfold word
    split
    next hi lo tail heq =>
      rw [heq] at hlen
      simp at hlen
    next => rfl

theorem block_eq {h : HelloFields} {es : List HelloExtension} (hes : h.extensions = some es) :
    h.block = putList (es.flatMap HelloExtension.bytes) := by
  rw [HelloFields.block, hes]

/-- The length of the block, and the block behind it. -/
theorem word_block (h : Hello) {es : List HelloExtension} (hes : h.extensions = some es)
    (rest : List UInt8) :
    word (h.bytes ++ rest) h.front.length =
        some (es.flatMap HelloExtension.bytes).length ∧
      h.bytes.length = h.front.length + 2 + (es.flatMap HelloExtension.bytes).length ∧
      (es.flatMap HelloExtension.bytes).length < 2 ^ 16 := by
  have hblock := block_eq hes
  have hlen := (length_lt h).2
  rw [hblock, putList, List.length_append, BigEndian.length_put] at hlen
  have hfits : (es.flatMap HelloExtension.bytes).length < 2 ^ 16 := by omega
  refine ⟨?_, ?_, hfits⟩
  · rw [h.bytes_eq, hblock, putList, List.append_assoc, List.append_assoc]
    exact Direct.word_put hfits _ _
  · rw [h.bytes_eq, hblock, putList, List.length_append, List.length_append,
      BigEndian.length_put, Nat.add_assoc]

/-- Nothing is found in a truncated ClientHello. -/
theorem walkHello_truncated (h : Hello) {k : Nat} (hk : k < h.bytes.length) :
    walkHello typ found (h.bytes.take k) = some none := by
  have hreads := reads_front h h.block
  rw [← h.bytes_eq] at hreads
  unfold walkHello
  split_ifs with hhead
  · rfl
  rcases getElem?_take h.bytes k 43 with hnone | hsession
  · rw [hnone]
    rfl
  rw [hsession, hreads.session]
  dsimp only [Option.elim_some]
  rw [Direct.toNat_ofNat_of_lt h.sessionId_length]
  rcases word_take h.bytes k (43 + 1 + h.sessionId.length) with hnone | ⟨hciphers, -⟩
  · rw [hnone]
    rfl
  rw [hciphers, hreads.ciphers]
  dsimp only [Option.elim_some]
  rcases getElem?_take h.bytes k (43 + 1 + h.sessionId.length + 2 + h.cipherSuites.length) with
    hnone | hcompression
  · rw [hnone]
    rfl
  rw [hcompression, hreads.compression]
  dsimp only [Option.elim_some]
  rw [Direct.toNat_ofNat_of_lt h.compression_length, ← length_front h]
  rcases word_take h.bytes k h.front.length with hnone | ⟨hextensions, hroom⟩
  · rw [hnone]
    rfl
  rw [hextensions]
  rw [List.length_take] at hroom ⊢
  cases hes : h.extensions with
  | none =>
    have hbytes : h.bytes.length = h.front.length := by
      rw [h.bytes_eq, HelloFields.block, hes, List.append_nil]
    omega
  | some es =>
    obtain ⟨hword, hlength, -⟩ := word_block h hes []
    rw [List.append_nil] at hword
    rw [hword]
    dsimp only [Option.elim_some]
    rw [if_pos (by omega)]

end

/-! ## With a block of extensions -/

theorem walkHello_block (h : Hello) {es : List HelloExtension} (hes : h.extensions = some es)
    {typ : Nat} {found : Nat → Nat → Option (Option β)} (rest : List UInt8) :
    walkHello typ found (h.bytes ++ rest) =
      walkExtensions typ found (h.bytes ++ rest) h.bytes.length (h.front.length + 2) := by
  obtain ⟨hword, hlength, -⟩ := word_block h hes rest
  rw [h.bytes_eq, List.append_assoc, walkHello_front, ← List.append_assoc, ← h.bytes_eq, hword]
  dsimp only [Option.elim_some]
  rw [← hlength, if_neg (by rw [List.length_append]; omega)]

theorem bytes_block (h : Hello) {es : List HelloExtension} (hes : h.extensions = some es) :
    (h.front ++ BigEndian.put 2 (es.flatMap HelloExtension.bytes).length) ++
      es.flatMap HelloExtension.bytes = h.bytes := by
  rw [h.bytes_eq, block_eq hes, putList, List.append_assoc]

theorem exact_of_block (h : Hello) (hblock : h.extensions.isSome) (rest : List UInt8) :
    Direct.Checked.tlsSniHostRange (h.bytes ++ rest) = some h.hostRange ∧
      clientHelloAlpn (h.bytes ++ rest) = some h.protocols := by
  obtain ⟨es, hes⟩ := Option.isSome_iff_exists.mp hblock
  obtain ⟨-, -, hfits⟩ := word_block h hes rest
  have hbytes := bytes_block h hes
  have hwell := h.wellFormed es hes
  have hfront : (h.front ++ BigEndian.put 2 (es.flatMap HelloExtension.bytes).length).length =
      h.front.length + 2 := by
    rw [List.length_append, BigEndian.length_put]
  constructor
  · rw [tlsSniHostRange_eq, walkHello_block h hes, ← hfront, walk_serverName hbytes hfits hwell,
      Hello.hostRange, hes, hfront]
    rfl
  · rw [clientHelloAlpn, walkHello_block h hes, ← hfront, walk_protocols hbytes hfits hwell,
      Hello.protocols, hes]
    rfl

/-! ## Without a block of extensions -/

/-- The extension `e` is the first of its type in a block behind its length. -/
def BlockHas (typ : UInt16) (bytes : List UInt8) (e : Extension) : Prop :=
  ∃ block before, Listed bytes block ∧
    First Extension.bytes Extension.Fits (fun e => e.typ = typ) block before e

/-- The bytes begin with a block of extensions that has a host name. -/
def HasHost (bytes : List UInt8) : Prop :=
  ∃ e list before name, BlockHas 0x0000 bytes e ∧ Listed e.body list ∧
    First ServerName.bytes ServerName.Fits (fun n => n.nameType = 0) list before name

/-- The bytes begin with a block of extensions that offers protocols. -/
def HasProtocols (bytes : List UInt8) : Prop :=
  ∃ e protocols, BlockHas 0x0010 bytes e ∧ protocols ≠ [] ∧ (∀ p ∈ protocols, p.length < 2 ^ 8) ∧
    Listed e.body (protocols.flatMap protocolBytes)

section

variable {front bytes rest : List UInt8}

/-- The walk over a listed block is a walk from behind its length. -/
theorem inList_walk (front rest : List UInt8) {block : List UInt8} (h : Listed bytes block)
    (typ : Nat) (found : Nat → Nat → Option (Option β)) :
    ∃ whole rest', front ++ (bytes ++ rest) = whole ++ rest' ∧
      front ++ BigEndian.put 2 block.length ++ block = whole ∧
      inList (walkExtensions typ found (front ++ (bytes ++ rest))) (front ++ (bytes ++ rest))
          front.length (front.length + bytes.length) =
        walkExtensions typ found (whole ++ rest') whole.length
          (front ++ BigEndian.put 2 block.length).length := by
  have hlist := inList_listed (walkExtensions typ found (front ++ (bytes ++ rest))) front rest h
  obtain ⟨hlen, junk, hbytes⟩ := h
  have hdata : front ++ (bytes ++ rest) =
      front ++ BigEndian.put 2 block.length ++ block ++ (junk ++ rest) := by
    rw [hbytes]
    simp only [List.append_assoc]
  refine ⟨_, junk ++ rest, hdata, rfl, ?_⟩
  rw [hlist, ← hdata, List.length_append, List.length_append, BigEndian.length_put]

theorem block_first (front rest : List UInt8) {typ : UInt16} {e : Extension}
    (h : BlockHas typ bytes e) (found : Nat → Nat → Option (Option β)) :
    ∃ front' rest', front ++ (bytes ++ rest) = front' ++ (e.bytes ++ rest') ∧
      inList (walkExtensions typ.toNat found (front ++ (bytes ++ rest)))
          (front ++ (bytes ++ rest)) front.length (front.length + bytes.length) =
        found (front'.length + 4) (front'.length + 4 + e.body.length) := by
  obtain ⟨block, before, hlisted, hfirst⟩ := h
  obtain ⟨whole, rest', hdata, hwhole, hwalk⟩ :=
    inList_walk front rest hlisted typ.toNat found
  have hfound := (extensions_rules typ found whole rest').first hwhole hfirst
  obtain ⟨more, hblock⟩ := hfirst.data
  refine ⟨front ++ BigEndian.put 2 block.length ++ before.flatMap Extension.bytes, more ++ rest',
    ?_, hwalk.trans hfound⟩
  have hsplit : block ++ rest' =
      before.flatMap Extension.bytes ++ (e.bytes ++ (more ++ rest')) := by
    rw [hblock, List.append_assoc, List.append_assoc]
  rw [hdata, ← hwhole, List.append_assoc _ block, hsplit, ← List.append_assoc]

theorem block_cases (front bytes rest : List UInt8) (typ : UInt16)
    (found : Nat → Nat → Option (Option β)) :
    (inList (walkExtensions typ.toNat found (front ++ (bytes ++ rest)))
        (front ++ (bytes ++ rest)) front.length (front.length + bytes.length) = some none) ∨
      ∃ e, BlockHas typ bytes e := by
  rcases listed_or_short front bytes rest with ⟨block, hlisted⟩ | hshort
  · obtain ⟨whole, rest', hdata, hwhole, hwalk⟩ :=
      inList_walk front rest hlisted typ.toNat found
    rcases (extensions_rules typ found whole rest').ended_or_first extension_ne_nil hwhole with
      hended | ⟨before, e, hfirst, -⟩
    · exact Or.inl (hwalk.trans hended)
    · exact Or.inr ⟨e, block, before, hlisted, hfirst⟩
  · exact Or.inl (inList_short hshort)

theorem host_behind :
    inList (walkExtensions 0 (Direct.Checked.sniHostRangeInExtension (front ++ (bytes ++ rest)))
        (front ++ (bytes ++ rest))) (front ++ (bytes ++ rest)) front.length
        (front.length + bytes.length) = some none ↔ ¬ HasHost bytes := by
  constructor
  · rintro hnone ⟨e, list, before, name, hblock, hlisted, hfirst⟩
    obtain ⟨front', rest', hdata, hfound⟩ := block_first front rest hblock
      (Direct.Checked.sniHostRangeInExtension (front ++ (bytes ++ rest)))
    have hread := hfound.symm.trans hnone
    rw [hdata, sniHostRangeInExtension_eq, inList_extension hlisted] at hread
    obtain ⟨front₂, rest₂, hsplit, hfront₂⟩ := listed_split hlisted front' rest'
    rw [hsplit, ← hfront₂, ← List.append_assoc, ← List.length_append] at hread
    rw [(names_rules (front₂ ++ list) rest₂).first rfl hfirst] at hread
    cases hread
  · intro hnot
    rcases block_cases front bytes rest 0
      (Direct.Checked.sniHostRangeInExtension (front ++ (bytes ++ rest))) with hnone | ⟨e, hblock⟩
    · exact hnone
    · obtain ⟨front', rest', hdata, hfound⟩ := block_first front rest hblock
        (Direct.Checked.sniHostRangeInExtension (front ++ (bytes ++ rest)))
      refine hfound.trans ?_
      rw [hdata, sniHostRangeInExtension_eq]
      rcases listed_or_unread (Direct.Checked.sniNames (front' ++ (e.bytes ++ rest'))) front'
        rest' e with ⟨list, hlisted⟩ | hunread
      · rw [inList_extension hlisted]
        obtain ⟨front₂, rest₂, hsplit, hfront₂⟩ := listed_split hlisted front' rest'
        rw [hsplit, ← hfront₂, ← List.append_assoc, ← List.length_append]
        rcases (names_rules (front₂ ++ list) rest₂).ended_or_first serverName_ne_nil rfl with
          hended | ⟨before, name, hfirst, -⟩
        · exact hended
        · exact absurd ⟨e, list, before, name, hblock, hlisted, hfirst⟩ hnot
      · exact hunread

theorem protocols_behind :
    inList (walkExtensions 0x0010 (parseAlpnList (front ++ (bytes ++ rest)))
        (front ++ (bytes ++ rest))) (front ++ (bytes ++ rest)) front.length
        (front.length + bytes.length) = some none ↔ ¬ HasProtocols bytes := by
  constructor
  · rintro hnone ⟨e, protocols, hblock, hne, hlen, hlisted⟩
    obtain ⟨front', rest', hdata, hfound⟩ := block_first front rest hblock
      (parseAlpnList (front ++ (bytes ++ rest)))
    have hread := hfound.symm.trans hnone
    rw [hdata, parseAlpnList_eq, inList_extension hlisted] at hread
    obtain ⟨front₂, rest₂, hsplit, hfront₂⟩ := listed_split hlisted front' rest'
    rw [hsplit, ← hfront₂, alpnNames_protocols hlen] at hread
    exact hne (by simpa using hread)
  · intro hnot
    rcases block_cases front bytes rest 0x0010
      (parseAlpnList (front ++ (bytes ++ rest))) with hnone | ⟨e, hblock⟩
    · exact hnone
    · obtain ⟨front', rest', hdata, hfound⟩ := block_first front rest hblock
        (parseAlpnList (front ++ (bytes ++ rest)))
      refine hfound.trans ?_
      rw [hdata, parseAlpnList_eq]
      rcases listed_or_unread (fun listEnd i => alpnNames (front' ++ (e.bytes ++ rest')) listEnd i
        []) front' rest' e with ⟨list, hlisted⟩ | hunread
      · rw [inList_extension hlisted]
        obtain ⟨front₂, rest₂, hsplit, hfront₂⟩ := listed_split hlisted front' rest'
        rw [hsplit, ← hfront₂]
        have hend : front₂.length + list.length ≤ (front₂ ++ (list ++ rest₂)).length := by
          simp
        have hsome := alpnNames_isSome hend front₂.length []
        obtain ⟨r, hr⟩ := Option.isSome_iff_exists.mp hsome
        cases r with
        | none => exact hr
        | some r =>
          obtain ⟨protocols, hlen, rfl, hprotocols, hne⟩ := protocols_of_alpnNames hr
          rw [hprotocols, List.nil_append] at hne
          exact absurd ⟨e, protocols, hblock, hne, hlen, hlisted⟩ hnot
      · exact hunread

end

/-- Without a block, the bytes behind a ClientHello are read as one. -/
theorem walkHello_behind (h : Hello) (hes : h.extensions = none) {typ : Nat}
    (found : Nat → Nat → Option (Option β)) (rest : List UInt8) :
    walkHello typ found (h.bytes ++ rest) =
      inList (walkExtensions typ found (h.bytes ++ (rest ++ []))) (h.bytes ++ (rest ++ []))
        h.bytes.length (h.bytes.length + rest.length) := by
  have hbytes : h.bytes = h.front := by
    rw [h.bytes_eq, HelloFields.block, hes, List.append_nil]
  rw [hbytes, walkHello_front, List.append_nil, inList, ← List.length_append]
  cases word (h.front ++ rest) h.front.length <;> rfl

/-- Without a block, nothing is returned if and only if the bytes behind have nothing. -/
theorem exact_behind_iff (h : Hello) (hes : h.extensions = none) (rest : List UInt8) :
    Direct.Checked.tlsSniHostRange (h.bytes ++ rest) = some h.hostRange ∧
        clientHelloAlpn (h.bytes ++ rest) = some h.protocols ↔
      ¬ HasHost rest ∧ ¬ HasProtocols rest := by
  have hrange : h.hostRange = none := by
    rw [Hello.hostRange, hes]
    rfl
  have hprotocols : h.protocols = none := by
    rw [Hello.protocols, hes]
    rfl
  have hdata : h.bytes ++ rest = h.bytes ++ (rest ++ []) := by rw [List.append_nil]
  rw [tlsSniHostRange_eq, clientHelloAlpn, walkHello_behind h hes, walkHello_behind h hes, hrange,
    hprotocols, hdata, host_behind, protocols_behind]

/-! ## Both walks -/

/-- **The walks over a ClientHello.** They never panic, they return what the ClientHello has if and
only if it has a block of extensions, or nothing is in the bytes behind it when they are read as
such a block; and of a truncated ClientHello they return nothing. -/
theorem hello_walks_exact (data : List UInt8) (h : Hello) :
    ((Direct.Checked.tlsSniHostRange data).isSome ∧ (clientHelloAlpn data).isSome) ∧
      (∀ rest, Direct.Checked.tlsSniHostRange (h.bytes ++ rest) = some h.hostRange ∧
          clientHelloAlpn (h.bytes ++ rest) = some h.protocols ↔
        h.extensions.isSome ∨ ¬ HasHost rest ∧ ¬ HasProtocols rest) ∧
      ∀ k, k < h.bytes.length →
        Direct.Checked.tlsSniHostRange (h.bytes.take k) = some none ∧
          clientHelloAlpn (h.bytes.take k) = some none := by
  refine ⟨⟨sniHostRange_isSome data, clientHelloAlpn_isSome data⟩,
    fun rest => ?_, fun k hk => ⟨?_, walkHello_truncated h hk⟩⟩
  · cases hes : h.extensions with
    | none => simpa using exact_behind_iff h hes rest
    | some es => exact iff_of_true (exact_of_block h (by rw [hes]; rfl) rest) (Or.inl rfl)
  · rw [tlsSniHostRange_eq]
    exact walkHello_truncated h hk

/-- A ClientHello without a block of extensions. -/
def bareHello : Hello where
  recordVersion := 0x0301
  recordLength := 45
  version := 0x0303
  random := List.replicate 32 0
  sessionId := []
  cipherSuites := [0x00, 0x2f]
  compression := [0]
  extensions := none
  random_length := by decide
  sessionId_length := by decide
  compression_length := by decide
  wellFormed := by simp
  single := by decide

/-- Bytes that are no part of the ClientHello: a block with the host name `a` and the
protocol `h2`. -/
def blockBehind : List UInt8 :=
  putList ((HelloExtension.serverName [⟨0, [0x61]⟩]).bytes ++
    (HelloExtension.alpn [[0x68, 0x32]]).bytes)

/-- A ClientHello without a block of extensions is given a host name and a protocol that are
behind it. -/
theorem bareHello_misread :
    bareHello.hostRange = none ∧ bareHello.protocols = none ∧
    Direct.Checked.tlsSniHostRange (bareHello.bytes ++ blockBehind) = some (some (61, 62)) ∧
    clientHelloAlpn (bareHello.bytes ++ blockBehind) = some (some [[0x68, 0x32]]) := by
  rw [Direct.Checked.tlsSniHostRange_eq]
  exact ⟨rfl, rfl, by decide, by decide +kernel⟩

end Rahgozar.Proxy.HelloWalks
