import Rahgozar.Drive.Names

set_option autoImplicit false

/-! # Names that are not the ones that are written

A parsed name is the name that would be written, up to the case of the letters of the session,
exactly when its number has neither a sign nor leading zeros and the last character of the session
has zeros behind the 128 bits.
-/

namespace Rahgozar.Drive

open BitBuffer (value)

/-- Two names agree up to the case of the letters of the session. -/
def SameUpToCase (a b : List Char) : Prop :=
  ∃ (kind : FilenameKind) (s t q : List Char),
    a = kind.start ++ (s ++ '_' :: q) ∧ b = kind.start ++ (t ++ '_' :: q) ∧ '_' ∉ q ∧
      s.map Char.toLower = t.map Char.toLower

/-- A text for a session: 26 characters of base32, of either case. -/
def IsSid (s : List Char) : Prop := s.length = 26 ∧ ∀ c ∈ s, (b32Value c).isSome = true

/-- The last character has its two low bits zero. -/
def ZeroPad (s : List Char) : Prop := ∃ v, s.getLast?.bind b32Value = some v ∧ v % 4 = 0

/-- A text for the number of a file. -/
structure IsSeq (kind : FilenameKind) (q : List Char) : Prop where
  number : IsNumber u64Size q
  hello : kind = .hello → Nat.ofDigitChars 10 (digitsOf q) 0 = 0

/-- Neither a sign nor leading zeros. -/
def PlainSeq (q : List Char) : Prop := q.head? ≠ some '+' ∧ Decimal.Plain q

/-! ## The session -/

theorem spells_of_isSid {s : List Char} (h : IsSid s) : ∃ vs, Spells s vs ∧ vs.length = 26 := by
  have hspells : Spells s (s.map fun c => (b32Value c).getD 0) := by
    rw [Spells, List.map_map]
    apply List.map_congr_left
    intro c hc
    obtain ⟨v, hv⟩ := Option.isSome_iff_exists.mp (h.2 c hc)
    rw [Function.comp_apply, hv, Option.getD_some]
  exact ⟨_, hspells, by rw [List.length_map, h.1]⟩

theorem isSid_of_spells {s : List Char} {vs : List Nat} (h : Spells s vs) (hlen : vs.length = 26) :
    IsSid s := by
  refine ⟨(length_of_spells h).trans hlen, ?_⟩
  intro c hc
  have hmem : b32Value c ∈ vs.map some := by
    rw [← h]
    exact List.mem_map_of_mem hc
  obtain ⟨v, _, hv⟩ := List.mem_map.mp hmem
  rw [← hv]
  rfl

theorem toLower_of_spells {s : List Char} {vs : List Nat} (h : Spells s vs) :
    s.map Char.toLower = vs.map b32Char := by
  induction s generalizing vs with
  | nil =>
      obtain rfl : vs = [] := List.map_eq_nil_iff.mp h.symm
      rfl
  | cons c s ih =>
      cases vs with
      | nil => cases h
      | cons v vs =>
          rw [Spells, List.map_cons, List.map_cons, List.cons.injEq] at h
          rw [List.map_cons, List.map_cons, toLower_eq h.1, ih h.2]

theorem b32Char_map_inj {vs ws : List Nat} (hvs : IsIndices vs) (hws : IsIndices ws)
    (h : vs.map b32Char = ws.map b32Char) : vs = ws := by
  have hvalues := congrArg (List.map b32Value) h
  rw [spells_indices hvs, spells_indices hws] at hvalues
  exact List.map_injective_iff.mpr (Option.some_injective Nat) hvalues

theorem zeroPad_iff {s : List Char} {vs : List Nat} (h : Spells s vs) (hlen : vs.length = 26) :
    ZeroPad s ↔ value 32 vs % 4 = 0 := by
  obtain ⟨init, v, rfl⟩ : ∃ init v, vs = init ++ [v] := by
    have hne : vs ≠ [] := by
      rintro rfl
      cases hlen
    exact ⟨vs.dropLast, vs.getLast hne, (List.dropLast_append_getLast hne).symm⟩
  have hlast : s.getLast?.bind b32Value = some v := by
    have hmap := congrArg List.getLast? h
    rw [List.getLast?_map, List.map_append, List.map_singleton, List.getLast?_concat] at hmap
    obtain ⟨c, hc, hv⟩ := Option.map_eq_some_iff.mp hmap
    rw [hc, Option.bind_some, hv]
  have hmod : value 32 (init ++ [v]) % 4 = v % 4 := by
    rw [BitBuffer.value_concat]
    omega
  rw [ZeroPad, hlast, hmod]
  constructor
  · rintro ⟨w, hw, hzero⟩
    rwa [Option.some.inj hw]
  · intro hzero
    exact ⟨v, rfl, hzero⟩

/-- The text of a session is the one that is written if nothing stands in its last two bits. -/
theorem toLower_encodeSidB32_iff {s : List Char} {sid : SessionId}
    (h : decodeSidB32 s = some sid) :
    s.map Char.toLower = (encodeSidB32 sid).map Char.toLower ↔ ZeroPad s := by
  obtain ⟨vs, hspells, hlen⟩ := spells_of_decodeSidB32 h
  obtain ⟨sid', hdec, low, hlow, hvalue⟩ := decodeSidB32_of_spells hspells hlen
  obtain ⟨idxs, henc, hidxs, hidxlen, hidxvalue⟩ := encodeSidB32_spec sid
  obtain rfl : sid' = sid := Option.some.inj (hdec.symm.trans h)
  rw [toLower_of_spells hspells, henc, toLower_of_spells (spells_indices hidxs),
    zeroPad_iff hspells hlen]
  constructor
  · intro heq
    have hvs := b32Char_map_inj (lt_of_spells hspells) hidxs heq
    rw [hvs]
    omega
  · intro hzero
    have hvs : vs = idxs := by
      apply BitBuffer.value_inj (by decide) (hlen.trans hidxlen.symm) (lt_of_spells hspells) hidxs
      omega
    rw [hvs]

/-! ## The number -/

theorem toDigits_iff {q : List Char} {n : Nat} (h : parseUnsigned u64Size q = some n) :
    q = Nat.toDigits 10 n ↔ PlainSeq q := by
  obtain ⟨hnumber, rfl⟩ := parseUnsigned_eq_some_iff.mp h
  by_cases hplus : q.head? = some '+'
  · constructor
    · intro heq
      rw [heq] at hplus
      exact absurd hplus (head?_toDigits_ne_plus _)
    · intro hplain
      exact absurd hplus hplain.1
  · have hdigits := digitsOf_of_head hplus
    have hne := hnumber.ne_nil
    have hall := hnumber.digits
    rw [hdigits] at hne hall ⊢
    rw [Decimal.toDigits_ofDigitChars_iff hall hne]
    exact ⟨fun hplain => ⟨hplus, hplain⟩, And.right⟩

/-! ## Names -/

/-- A name is taken apart in one way. -/
theorem parts_inj {kind kind' : FilenameKind} {s s' q q' : List Char}
    (h : kind.start ++ (s ++ '_' :: q) = kind'.start ++ (s' ++ '_' :: q')) (hq : '_' ∉ q)
    (hq' : '_' ∉ q') : kind = kind' ∧ s = s' ∧ q = q' := by
  have hkind := congrArg splitKind h
  rw [splitKind_start, splitKind_start, Option.some.injEq, Prod.mk.injEq] at hkind
  have hparts := congrArg (rsplitOnce '_') hkind.2
  rw [rsplitOnce_append s hq, rsplitOnce_append s' hq', Option.some.injEq, Prod.mk.injEq] at hparts
  exact ⟨hkind.1, hparts⟩

/-- A name that parses although another name would be written for what it says. -/
def Loose (name : List Char) : Prop :=
  ∃ (kind : FilenameKind) (s q : List Char), name = kind.start ++ (s ++ '_' :: q) ∧ IsSid s ∧
    IsSeq kind q ∧ ¬ (ZeroPad s ∧ PlainSeq q)

theorem parseFilename_of_parts {kind : FilenameKind} {s q : List Char} (hs : IsSid s)
    (hq : IsSeq kind q) :
    ∃ f : DriveFilename, parseFilename (kind.start ++ (s ++ '_' :: q)) = some f := by
  obtain ⟨vs, hspells, hlen⟩ := spells_of_isSid hs
  obtain ⟨sid, hsid, _⟩ := decodeSidB32_of_spells hspells hlen
  have hseq := parseUnsigned_eq_some_iff.mpr ⟨hq.number, rfl⟩
  have hok : ¬ (kind = .hello ∧ Nat.ofDigitChars 10 (digitsOf q) 0 ≠ 0) :=
    fun h => h.2 (hq.hello h.1)
  rw [parseFilename_parts kind s (underscore_not_mem hq.number), hsid, hseq, Option.bind_some,
    Option.bind_some, if_neg hok]
  exact ⟨_, rfl⟩

theorem sameUpToCase_format_iff {name s q : List Char} {f : DriveFilename}
    (hname : name = f.kind.start ++ (s ++ '_' :: q)) (hsid : decodeSidB32 s = some f.sid)
    (hseq : parseUnsigned u64Size q = some f.seq) :
    SameUpToCase name f.format ↔ ZeroPad s ∧ PlainSeq q := by
  have hq : '_' ∉ q := underscore_not_mem (parseUnsigned_eq_some_iff.mp hseq).1
  rw [← toLower_encodeSidB32_iff hsid, ← toDigits_iff hseq]
  constructor
  · rintro ⟨kind, s', t, q', hname', hformat, hq', hlower⟩
    obtain ⟨-, rfl, rfl⟩ := parts_inj (hname.symm.trans hname') hq hq'
    obtain ⟨-, rfl, rfl⟩ := parts_inj hformat Nat.underscore_not_in_toDigits hq'
    exact ⟨hlower, rfl⟩
  · rintro ⟨hlower, heq⟩
    exact ⟨f.kind, s, encodeSidB32 f.sid, q, hname, by rw [DriveFilename.format, ← heq], hq, hlower⟩

theorem sameUpToCase_of_not_loose {name : List Char} {f : DriveFilename} (h : ¬ Loose name)
    (hparse : parseFilename name = some f) : SameUpToCase name f.format := by
  obtain ⟨s, q, hname, hsid, hseq, hhello⟩ := parseFilename_eq_some hparse
  obtain ⟨hnumber, hvalue⟩ := parseUnsigned_eq_some_iff.mp hseq
  obtain ⟨vs, hspells, hlen⟩ := spells_of_decodeSidB32 hsid
  rw [sameUpToCase_format_iff hname hsid hseq]
  by_contra hnot
  apply h
  exact ⟨f.kind, s, q, hname, isSid_of_spells hspells hlen,
    ⟨hnumber, fun hk => hvalue.symm.trans (hhello hk)⟩, hnot⟩

theorem sameUpToCase_trans {a b c : List Char} (hab : SameUpToCase a c) (hbc : SameUpToCase b c) :
    SameUpToCase a b := by
  obtain ⟨kind, s, t, q, ha, hc, hq, hst⟩ := hab
  obtain ⟨kind', s', t', q', hb, hc', hq', hst'⟩ := hbc
  obtain ⟨rfl, rfl, rfl⟩ := parts_inj (hc.symm.trans hc') hq hq'
  exact ⟨kind, s, s', q, ha, hb, hq, hst.trans hst'.symm⟩

theorem length_of_sameUpToCase {a b : List Char} (h : SameUpToCase a b) :
    a.length = b.length := by
  obtain ⟨kind, s, t, q, rfl, rfl, _, hlower⟩ := h
  have hlen := congrArg List.length hlower
  rw [List.length_map, List.length_map] at hlen
  simp only [List.length_append, hlen]

/-- A name that parses agrees with the one that would be written exactly if it is not loose; two
such names for one file agree. -/
theorem parseFilename_unambiguous_iff (name : List Char) :
    ((∀ f, parseFilename name = some f → SameUpToCase name f.format) ↔ ¬ Loose name) ∧
    (∀ (other : List Char) (f : DriveFilename), ¬ Loose name → ¬ Loose other →
      parseFilename name = some f → parseFilename other = some f → SameUpToCase name other) := by
  constructor
  · constructor
    · rintro h ⟨kind, s, q, rfl, hs, hq, hnot⟩
      obtain ⟨f, hparse⟩ := parseFilename_of_parts hs hq
      obtain ⟨s', q', hname, hsid, hseq, _⟩ := parseFilename_eq_some hparse
      have hq' : '_' ∉ q' := underscore_not_mem (parseUnsigned_eq_some_iff.mp hseq).1
      obtain ⟨rfl, rfl, rfl⟩ := parts_inj hname (underscore_not_mem hq.number) hq'
      exact hnot ((sameUpToCase_format_iff rfl hsid hseq).mp (h f hparse))
    · exact fun h f hparse => sameUpToCase_of_not_loose h hparse
  · intro other f hname hother hparse hparse'
    exact sameUpToCase_trans (sameUpToCase_of_not_loose hname hparse)
      (sameUpToCase_of_not_loose hother hparse')

/-- Number 7, with leading zeros. -/
def sevenPadded : List Char := prefixC2r ++ (List.replicate 26 'a' ++ ['_', '0', '0', '7'])

theorem sevenPadded_accepted :
    ¬ ∀ f, parseFilename sevenPadded = some f → SameUpToCase sevenPadded f.format := by
  intro h
  have hparse : parseFilename sevenPadded =
      some ⟨.frame .clientToRelay, ⟨List.replicate 16 0, rfl⟩, 7⟩ := by decide +kernel
  exact absurd (length_of_sameUpToCase (h _ hparse)) (by decide +kernel)

end Rahgozar.Drive
