import Rahgozar.Drive.Destination
import Rahgozar.Drive.Names
import Rahgozar.Lib.Trim

set_option autoImplicit false

/-! # The destination in a `Connect` frame (`build_session_open_batch`, `parse_connect_addr`)

The client writes a host, a colon and a port, whatever the host is. The relay takes what stands in
brackets at the start for the host, and otherwise what stands before the last colon. The two fit for
every host that the client can hold: a port has no colon, and a literal in brackets none of them.
-/

namespace Rahgozar.Drive

def buildSessionOpenBatch (sid : SessionId) (host : List Char) (port : UInt16)
    (initialDataFrames : List WireFrame) : Batch :=
  let payload := utf8 (host ++ ':' :: Nat.toDigits 10 port.toNat)
  ⟨Sender.buildWireFrame .connect sid 0 payload :: initialDataFrames⟩

/-- The first batch of a session is this one. -/
theorem Opening.frames_eq (o : Opening) (sid : SessionId) :
    o.frames sid = (buildSessionOpenBatch sid o.host.val o.port
      (o.payloads.mapIdx fun i bytes => Sender.buildWireFrame .data sid (i + 1) bytes)).frames :=
  rfl

/-! ## The hosts of the client -/

/-- A text without white space and brackets. -/
structure IsBare (text : List Char) : Prop where
  ne_nil : text ≠ []
  noSpace : ∀ c ∈ text, isWhitespace c = false
  noOpen : '[' ∉ text
  noClose : ']' ∉ text

/-- A text that the parser of `std::net` takes for an address, or with a zone for one. -/
def IsLiteral (text : List Char) : Prop :=
  (parseIpAddr text).isSome ∨ ∃ address scope, text = address ++ '%' :: scope ∧
    (parseIpAddr address).isSome ∧ IsBare scope

/-- The client may hold the first text for the host that the second one names. -/
inductive ClientHost : List Char → List Char → Prop where
  | dnsName {name : List Char} (h : IsBare name) (hcolon : ':' ∉ name) : ClientHost name name
  | literal {text : List Char} (h : IsLiteral text) : ClientHost text text
  | bracketed {text : List Char} (h : IsLiteral text) : ClientHost ('[' :: (text ++ [']'])) text

/-! ## The characters of an address -/

/-- What a reader takes of a text are characters of an address. -/
def Spelled (text rest : List Char) : Prop :=
  ∃ used, text = used ++ rest ∧ ∀ c ∈ used, digitValue c < 16 ∨ c = ':' ∨ c = '.'

theorem Spelled.refl (text : List Char) : Spelled text text := ⟨[], rfl, by simp⟩

theorem Spelled.trans {a b c : List Char} (h : Spelled a b) (h' : Spelled b c) : Spelled a c := by
  obtain ⟨used, rfl, hused⟩ := h
  obtain ⟨used', rfl, hused'⟩ := h'
  refine ⟨used ++ used', (List.append_assoc _ _ _).symm, fun x hx => ?_⟩
  exact (List.mem_append.mp hx).elim (hused x) (hused' x)

theorem readGivenChar_spelled {c : Char} (hc : c = ':' ∨ c = '.') {text rest : List Char}
    (h : readGivenChar c text = some rest) : Spelled text rest := by
  rw [readGivenChar_eq_some h]
  refine ⟨[c], rfl, fun x hx => .inr ?_⟩
  rwa [List.mem_singleton.mp hx]

theorem readNumber_spelled {radix maxDigits size n : Nat} {allowZeroPrefix : Bool}
    (hradix : radix ≤ 16) {text rest : List Char}
    (h : readNumber radix maxDigits allowZeroPrefix size text = some (n, rest)) :
    Spelled text rest := by
  obtain ⟨digits, -, rfl, hdigits⟩ := readNumber_eq_some h
  exact ⟨digits, rfl, fun c hc => .inl ((hdigits c hc).trans_le hradix)⟩

theorem readSeparator_spelled {α : Type} {sep : Char} (hsep : sep = ':' ∨ sep = '.') {first : Bool}
    {inner : List Char → Option (α × List Char)}
    (hinner : ∀ {text v rest}, inner text = some (v, rest) → Spelled text rest)
    {text : List Char} {v : α} {rest : List Char}
    (h : readSeparator sep first inner text = some (v, rest)) : Spelled text rest := by
  unfold readSeparator at h
  split at h
  · exact hinner h
  · obtain ⟨text', hchar, h⟩ := Option.bind_eq_some_iff.mp h
    exact (readGivenChar_spelled hsep hchar).trans (hinner h)

theorem readOctet_spelled {first : Bool} {n : Nat} {text rest : List Char}
    (h : readOctet first text = some (n, rest)) : Spelled text rest :=
  readSeparator_spelled (.inr rfl) (readNumber_spelled (by decide)) h

theorem readIpv4Addr_spelled {ip : Ipv4Addr} {text rest : List Char}
    (h : readIpv4Addr text = some (ip, rest)) : Spelled text rest := by
  obtain ⟨⟨a, s₁⟩, h₁, h⟩ := Option.bind_eq_some_iff.mp h
  obtain ⟨⟨b, s₂⟩, h₂, h⟩ := Option.bind_eq_some_iff.mp h
  obtain ⟨⟨c, s₃⟩, h₃, h⟩ := Option.bind_eq_some_iff.mp h
  obtain ⟨⟨d, s₄⟩, h₄, h⟩ := Option.map_eq_some_iff.mp h
  cases h
  exact (readOctet_spelled h₁).trans ((readOctet_spelled h₂).trans
    ((readOctet_spelled h₃).trans (readOctet_spelled h₄)))

theorem readGroups_spelled (left : Nat) (first : Bool) (text : List Char) :
    Spelled text (readGroups left first text).2.2 := by
  induction left generalizing first text with
  | zero => exact .refl text
  | succ left ih =>
      unfold readGroups
      split
      next ip rest hipv4 =>
        obtain ⟨-, h⟩ := Option.ite_none_right_eq_some.mp hipv4
        exact readSeparator_spelled (.inl rfl) readIpv4Addr_spelled h
      · split
        · exact .refl text
        next group rest hgroup =>
          have hread := readSeparator_spelled (.inl rfl) (readNumber_spelled le_rfl) hgroup
          exact hread.trans (ih false rest)

theorem readIpv6Addr_spelled {ip : Ipv6Addr} {text rest : List Char}
    (h : readIpv6Addr text = some (ip, rest)) : Spelled text rest := by
  have hhead := readGroups_spelled 8 true text
  unfold readIpv6Addr at h
  generalize readGroups 8 true text = r at h hhead
  obtain ⟨head, ipv4, s₁⟩ := r
  dsimp only at h hhead
  split_ifs at h
  · cases h
    exact hhead
  · obtain ⟨s₂, h₂, h⟩ := Option.bind_eq_some_iff.mp h
    obtain ⟨s₃, h₃, h⟩ := Option.map_eq_some_iff.mp h
    have htail := readGroups_spelled (8 - (head.length + 1)) true s₃
    have hcolons := (readGivenChar_spelled (.inl rfl) h₂).trans (readGivenChar_spelled (.inl rfl) h₃)
    generalize readGroups (8 - (head.length + 1)) true s₃ = r at h htail
    obtain ⟨tail, _, s₄⟩ := r
    cases h
    exact hhead.trans (hcolons.trans htail)

theorem plain_of_digitValue {c : Char} (h : digitValue c < 16 ∨ c = ':' ∨ c = '.') :
    isWhitespace c = false ∧ c ≠ '[' ∧ c ≠ ']' := by
  rcases h with h | rfl | rfl
  · have hcode : (48 ≤ c.toNat ∧ c.toNat ≤ 57) ∨ (97 ≤ c.toNat ∧ c.toNat ≤ 102) ∨
        (65 ≤ c.toNat ∧ c.toNat ≤ 70) := by
      unfold digitValue at h
      split_ifs at h <;> omega
    refine ⟨?_, ?_, ?_⟩
    · simp only [isWhitespace, Bool.or_eq_false_iff, Bool.and_eq_false_iff, decide_eq_false_iff_not]
      omega
    all_goals
      rintro rfl
      revert hcode
      decide
  · decide
  · decide

theorem isBare_of_spelled {text : List Char} (hne : text ≠ []) (h : Spelled text []) :
    IsBare text := by
  obtain ⟨used, heq, hused⟩ := h
  rw [List.append_nil] at heq
  subst heq
  exact ⟨hne, fun c hc => (plain_of_digitValue (hused c hc)).1,
    fun hc => (plain_of_digitValue (hused _ hc)).2.1 rfl,
    fun hc => (plain_of_digitValue (hused _ hc)).2.2 rfl⟩

theorem isBare_of_parseIpAddr {text : List Char} (h : (parseIpAddr text).isSome) :
    IsBare text := by
  have hspelled : ∀ {ip rest}, readIpAddr text = some (ip, rest) → Spelled text rest := by
    intro ip rest h
    unfold readIpAddr at h
    split at h
    next hipv4 =>
      cases h
      exact readIpv4Addr_spelled hipv4
    · obtain ⟨⟨ip, rest⟩, hipv6, heq⟩ := Option.map_eq_some_iff.mp h
      cases heq
      exact readIpv6Addr_spelled hipv6
  unfold parseIpAddr parseWith at h
  split at h
  next v hread =>
    refine isBare_of_spelled ?_ (hspelled hread)
    rintro rfl
    have hnone : readIpAddr [] = none := rfl
    rw [hnone] at hread
    cases hread
  · cases h

theorem IsBare.append_percent {a b : List Char} (ha : IsBare a) (hb : IsBare b) :
    IsBare (a ++ '%' :: b) := by
  refine ⟨by simp, fun c hc => ?_, ?_, ?_⟩
  · rcases List.mem_append.mp hc with hc | hc
    · exact ha.noSpace c hc
    · rcases List.mem_cons.mp hc with rfl | hc
      · decide
      · exact hb.noSpace c hc
  · simpa using ⟨ha.noOpen, hb.noOpen⟩
  · simpa using ⟨ha.noClose, hb.noClose⟩

theorem IsLiteral.isBare {text : List Char} (h : IsLiteral text) : IsBare text := by
  rcases h with h | ⟨address, scope, rfl, haddress, hscope⟩
  · exact isBare_of_parseIpAddr h
  · exact (isBare_of_parseIpAddr haddress).append_percent hscope

/-! ## The round trip -/

theorem trim_of_noSpace {text : List Char} (h : ∀ c ∈ text, isWhitespace c = false) :
    trim text = text :=
  Trim.trim_eq_self h

/-- A host in brackets ends where the brackets close. -/
theorem splitOnce_close {host : List Char} (h : ']' ∉ host) (rest : List Char) :
    splitOnce [']', ':'] (host ++ ']' :: ':' :: rest) = some (host, rest) := by
  induction host with
  | nil => simp [splitOnce, List.isPrefixOf]
  | cons c host ih =>
      obtain ⟨hc, hhost⟩ := not_or.mp (List.mem_cons.not.mp h)
      have hstarts : [']', ':'].isPrefixOf (c :: (host ++ ']' :: ':' :: rest)) = false := by
        simp [List.isPrefixOf, hc]
      rw [List.cons_append, splitOnce, hstarts, if_neg Bool.false_ne_true, ih hhost]
      rfl

theorem colon_notMem_toDigits (n : Nat) : ':' ∉ Nat.toDigits 10 n := by
  intro hc
  exact absurd (Nat.isDigit_of_mem_toDigits (by decide) (by decide) hc) (by decide)

theorem isWhitespace_toDigits (n : Nat) : ∀ c ∈ Nat.toDigits 10 n, isWhitespace c = false := by
  intro c hc
  have hdigit := Nat.isDigit_of_mem_toDigits (by decide) (by decide) hc
  have hcode : 48 ≤ c.toNat ∧ c.toNat ≤ 57 := by
    simp only [Char.isDigit, Bool.and_eq_true, decide_eq_true_eq, ge_iff_le,
      UInt32.le_iff_toNat_le] at hdigit
    exact hdigit
  simp only [isWhitespace, Bool.or_eq_false_iff, Bool.and_eq_false_iff, decide_eq_false_iff_not]
  omega

/-- What the relay makes of the two halves. -/
theorem parseConnectAddr_of_halves {text host : List Char} {port : UInt16} (hport : 1 ≤ port)
    (hspace : ∀ c ∈ text, isWhitespace c = false) (htext : text ≠ []) (hhost : host ≠ [])
    (hhalves : (∃ rest, stripPrefix ['['] text = some rest ∧
        splitOnce [']', ':'] rest = some (host, Nat.toDigits 10 port.toNat)) ∨
      stripPrefix ['['] text = none ∧
        rsplitOnce ':' text = some (host, Nat.toDigits 10 port.toNat)) :
    parseConnectAddr text = some (host, port.toNat) := by
  have hzero : port.toNat ≠ 0 := by
    have hle : 1 ≤ port.toNat := UInt16.le_iff_toNat_le.mp hport
    omega
  unfold parseConnectAddr
  rcases hhalves with ⟨rest, hstrip, hsplit⟩ | ⟨hstrip, hsplit⟩
  all_goals
    simp only [trim_of_noSpace hspace, List.isEmpty_iff, htext, hstrip, hsplit, hhost, if_false,
      parseUnsigned_toDigits port.toNat_lt, hzero]

theorem stripPrefix_open {text : List Char} (h : text.head? ≠ some '[') :
    stripPrefix ['['] text = none := by
  cases text with
  | nil => rfl
  | cons c text =>
      have hc : '[' ≠ c := fun hc => h (hc ▸ rfl)
      simp [stripPrefix, List.isPrefixOf, hc]

theorem parseConnectAddr_bare {host : List Char} (h : IsBare host) {port : UInt16}
    (hport : 1 ≤ port) :
    parseConnectAddr (host ++ ':' :: Nat.toDigits 10 port.toNat) = some (host, port.toNat) := by
  refine parseConnectAddr_of_halves hport (fun c hc => ?_) (by simp) h.ne_nil (.inr ⟨?_, ?_⟩)
  · rcases List.mem_append.mp hc with hc | hc
    · exact h.noSpace c hc
    · rcases List.mem_cons.mp hc with rfl | hc
      · decide
      · exact isWhitespace_toDigits _ c hc
  · refine stripPrefix_open fun hhead => h.noOpen ?_
    rw [List.head?_append_of_ne_nil _ h.ne_nil] at hhead
    exact List.mem_of_head? hhead
  · exact rsplitOnce_append host (colon_notMem_toDigits _)

theorem parseConnectAddr_brackets {host : List Char} (h : IsBare host) {port : UInt16}
    (hport : 1 ≤ port) :
    parseConnectAddr ('[' :: (host ++ [']']) ++ ':' :: Nat.toDigits 10 port.toNat) =
      some (host, port.toNat) := by
  refine parseConnectAddr_of_halves hport (fun c hc => ?_) (by simp) h.ne_nil
    (.inl ⟨host ++ ']' :: ':' :: Nat.toDigits 10 port.toNat, ?_, splitOnce_close h.noClose _⟩)
  · simp only [List.cons_append, List.append_assoc, List.mem_cons, List.mem_append,
      List.nil_append] at hc
    rcases hc with rfl | hc | rfl | rfl | hc
    · decide
    · exact h.noSpace c hc
    · decide
    · decide
    · exact isWhitespace_toDigits _ c hc
  · simp [stripPrefix, List.append_assoc]

theorem parseConnectAddr_clientHost {host bare : List Char} (h : ClientHost host bare)
    {port : UInt16} (hport : 1 ≤ port) :
    parseConnectAddr (host ++ ':' :: Nat.toDigits 10 port.toNat) = some (bare, port.toNat) := by
  cases h with
  | dnsName h hcolon => exact parseConnectAddr_bare h hport
  | literal h => exact parseConnectAddr_bare h.isBare hport
  | bracketed h => exact parseConnectAddr_brackets h.isBare hport

theorem fromUTF8?_utf8 (text : List Char) :
    String.fromUTF8? ⟨(utf8 text).toArray⟩ = some (String.ofList text) := by
  have hbytes : (⟨(utf8 text).toArray⟩ : ByteArray) = text.utf8Encode := by
    apply ByteArray.ext
    simp [List.utf8Encode, utf8]
  rw [hbytes]
  exact dif_pos (ByteArray.IsValidUTF8.intro text rfl)

/-- **Connect addresses survive the wire.** From what the client writes for a host, the relay reads
the host without brackets, and the port. -/
theorem connect_addr_survives {host bare : List Char} (h : ClientHost host bare) {port : UInt16}
    (hport : 1 ≤ port) (sid : SessionId) (initialDataFrames : List WireFrame) :
    ∃ connect text,
      (buildSessionOpenBatch sid host port initialDataFrames).frames =
        connect :: initialDataFrames ∧
      String.fromUTF8? ⟨connect.payload.toArray⟩ = some text ∧
      parseConnectAddr text.toList = some (bare, port.toNat) ∧
      frameToInbound connect = some (.connect bare port.toNat) := by
  have htext := fromUTF8?_utf8 (host ++ ':' :: Nat.toDigits 10 port.toNat)
  have hparse := parseConnectAddr_clientHost h hport
  refine ⟨_, _, rfl, htext, by rw [String.toList_ofList, hparse], ?_⟩
  simp only [frameToInbound, Sender.buildWireFrame, htext, Option.bind_eq_bind, Option.bind_some,
    String.toList_ofList, hparse]

/-- An address whose last group could be a port. -/
theorem connect_addr_survives_numeric_group :
    ∃ connect text,
      (buildSessionOpenBatch ⟨List.replicate 16 0, rfl⟩ "2001:db8::443".toList 8080 []).frames =
        [connect] ∧
      String.fromUTF8? ⟨connect.payload.toArray⟩ = some text ∧
      parseConnectAddr text.toList = some ("2001:db8::443".toList, 8080) ∧
      frameToInbound connect = some (.connect "2001:db8::443".toList 8080) :=
  connect_addr_survives (.literal (.inl (by decide))) (by decide) _ []

end Rahgozar.Drive
