import Rahgozar.Fronter.Panics
import Rahgozar.Fronter.RawResponse

set_option autoImplicit false

/-! # What is delivered of an envelope

An envelope is delivered if the raw response that is made of it, taken apart again, has the status,
one `Content-Length`, every end-to-end header, and the `Content-Encoding` of a body that is still
encoded. A header value is a string or an array of strings. The relay's parser delivers every
envelope; the exit node's drops headers in array form and cuts the status to 16 bits.
-/

namespace Rahgozar.Fronter.Envelope

open Drive (utf8 isWhitespace)
open Proxy (toAsciiLowercase)
open Proxy.Mitm (Headers crlf eqIgnoreAsciiCase)
open Settings (Json Object)
open Http

/-! ## Envelopes -/

/-- The characters of an HTTP token: visible ASCII without the delimiters. -/
def isTokenChar (c : Char) : Bool :=
  33 ≤ c.toNat && c.toNat ≤ 126 && !"\"(),/:;<=>?@[\\]\x7b\x7d".toList.contains c

structure Token (name : List Char) : Prop where
  ne_nil : name ≠ []
  chars : ∀ c ∈ name, isTokenChar c = true

/-- A string or an array of strings, each of one line. -/
inductive HeaderValue : Json → Prop where
  | str {s : List Char} (hs : OneLine s) : HeaderValue (.str s)
  | arr {items : List (List Char)} (hitems : ∀ s ∈ items, OneLine s) :
      HeaderValue (.arr (items.map .str))

/-- Headers with names and values as HTTP has them. -/
structure Plain (h : Object) : Prop where
  names : ∀ kv ∈ h, Token kv.1.toList
  values : ∀ kv ∈ h, HeaderValue kv.2

/-- The strings of a header value. -/
def strings : Json → List (List Char)
  | .str s => [s]
  | .arr items => items.filterMap Json.asString
  | _ => []

def isName (name : String) (k : List Char) : Bool := eqIgnoreAsciiCase k name.toList

def isCoding (k : String) : Bool := isName "content-encoding" k.toList

/-- The headers that are about the connection, or about the length that is written anew. -/
def isHop (k : String) : Bool := relayBaseSkip.any fun s => s.toList = toAsciiLowercase k.toList

/-- Those headers with all their strings, without white space at the ends. -/
def headersWith (p : String → Bool) (h : Object) : Headers :=
  (h.filter fun kv => p kv.1).flatMap fun kv =>
    (strings kv.2).map fun s => (kv.1.toList, Drive.trim s)

def endToEnd (h : Object) : Headers := headersWith (fun k => !isHop k && !isCoding k) h

def codings (h : Object) : Headers := headersWith isCoding h

/-- A body with these codings, of which `delivered` was made, is still encoded: it has a coding
other than `gzip` that was not decoded, or more than one. -/
def Undecoded (crates : Crates) (sent delivered : List UInt8) : List (List Char) → Prop
  | [] => False
  | [token] => token ≠ "gzip".toList ∧
      ¬ (token = "br".toList ∧ crates.decodeBrotli sent = some delivered) ∧
      ¬ (token = "zstd".toList ∧ crates.decodeZstd sent = some delivered)
  | _ => True

def StillCoded (crates : Crates) (h : Object) (sent delivered : List UInt8) : Prop :=
  sent ≠ [] ∧ ∃ raw, contentEncoding h = some raw ∧
    Undecoded crates sent delivered (encodingTokens raw)

/-- The raw response has what the envelope has. -/
def Delivers (crates : Crates) (allowBrotliZstd : Bool) (status : Nat) (h : Object)
    (sent raw : List UInt8) : Prop :=
  ∃ headers body, splitResponse raw = some (status, headers, body) ∧
    headers.filter (fun kv => isName "content-length" kv.1) = [lengthHeader body.length] ∧
    headers.filter (fun kv => !isName "content-length" kv.1 && !isName "content-encoding" kv.1) =
      endToEnd h ∧
    (allowBrotliZstd = true → StillCoded crates h sent body →
      headers.filter (fun kv => isName "content-encoding" kv.1) = codings h)

/-! ## Names -/

theorem isTokenChar_cases {c : Char} (h : isTokenChar c = true) :
    isWhitespace c = false ∧ c ≠ ':' ∧ c ≠ '\r' ∧ c ≠ '\n' := by
  unfold isTokenChar at h
  obtain ⟨hboth, hdelim⟩ := (Bool.and_eq_true _ _).mp h
  obtain ⟨hlow, hhigh⟩ := (Bool.and_eq_true _ _).mp hboth
  have hlow := of_decide_eq_true hlow
  have hhigh := of_decide_eq_true hhigh
  refine ⟨?_, ?_, ?_, ?_⟩
  · unfold isWhitespace
    simp only [Bool.or_eq_false_iff, Bool.and_eq_false_iff, decide_eq_false_iff_not]
    omega
  · rintro rfl
    exact absurd hdelim (by decide)
  · rintro rfl
    exact absurd hlow (by decide)
  · rintro rfl
    exact absurd hlow (by decide)

theorem Token.trim_eq {name : List Char} (h : Token name) : Drive.trim name = name :=
  trim_of_noSpace fun c hc => (isTokenChar_cases (h.chars c hc)).1

theorem Token.sendable {name value : List Char} (h : Token name) (hvalue : OneLine value) :
    Sendable (name, value) where
  name := ⟨fun hmem => (isTokenChar_cases (h.chars _ hmem)).2.2.1 rfl,
    fun hmem => (isTokenChar_cases (h.chars _ hmem)).2.2.2 rfl⟩
  value := hvalue
  colon := fun hmem => (isTokenChar_cases (h.chars _ hmem)).2.1 rfl

theorem isName_iff {name : String} (hlower : toAsciiLowercase name.toList = name.toList)
    (k : List Char) : isName name k = true ↔ toAsciiLowercase k = name.toList := by
  unfold isName eqIgnoreAsciiCase
  rw [decide_eq_true_iff, hlower]

theorem isHop_iff (k : String) : isHop k = true ↔
    ∃ s ∈ relayBaseSkip, s.toList = toAsciiLowercase k.toList := by
  unfold isHop
  rw [List.any_eq_true]
  simp only [decide_eq_true_iff]

theorem isHop_of_length {k : String} (h : isName "content-length" k.toList = true) :
    isHop k = true := by
  rw [isName_iff (by decide)] at h
  exact (isHop_iff k).mpr ⟨"content-length", by decide, h.symm⟩

theorem not_isHop_of_coding {k : String} (h : isCoding k = true) : isHop k = false := by
  unfold isCoding at h
  rw [isName_iff (by decide)] at h
  refine Bool.eq_false_iff.mpr fun hhop => ?_
  obtain ⟨s, hs, heq⟩ := (isHop_iff k).mp hhop
  rw [h] at heq
  have hnone : ∀ s ∈ relayBaseSkip, s.toList ≠ "content-encoding".toList := by decide
  exact hnone s hs heq

/-- A header is skipped because of its name, or because it is the coding of a plain body. -/
theorem isSkipped_eq {baseSkip : List String} (hskip : ∀ s, s ∈ baseSkip ↔ s ∈ relayBaseSkip)
    (strip : Bool) (k : String) :
    isSkipped baseSkip strip k = (isHop k || (strip && isCoding k)) := by
  have hhop : baseSkip.any (fun s => s.toList = toAsciiLowercase k.toList) = isHop k := by
    rw [Bool.eq_iff_iff, isHop_iff, List.any_eq_true]
    simp only [decide_eq_true_iff, hskip]
  have hcoding : decide (toAsciiLowercase k.toList = "content-encoding".toList) = isCoding k := by
    rw [Bool.eq_iff_iff, decide_eq_true_iff]
    exact (isName_iff (by decide) k.toList).symm
  unfold isSkipped
  dsimp only
  rw [hhop, hcoding]

theorem mem_exitBaseSkip (s : String) : s ∈ exitBaseSkip ↔ s ∈ relayBaseSkip := by
  unfold exitBaseSkip relayBaseSkip
  simp only [List.mem_cons, List.not_mem_nil, or_false]
  tauto

/-! ## Headers -/

section

variable {values : Json → List (List Char)} {baseSkip : List String} {strip : Bool} {h : Object}

theorem OneLine.of_mem_strings {v : Json} (hv : HeaderValue v) {s : List Char}
    (hs : s ∈ strings v) : OneLine s := by
  cases hv with
  | str hone =>
      rw [List.mem_singleton.mp hs]
      exact hone
  | arr hitems =>
      obtain ⟨item, hitem, hstring⟩ := List.mem_filterMap.mp hs
      obtain ⟨t, ht, rfl⟩ := List.mem_map.mp hitem
      cases hstring
      exact hitems s ht

theorem strings_arr (items : List (List Char)) : strings (.arr (items.map .str)) = items := by
  show (items.map Json.str).filterMap Json.asString = items
  rw [List.filterMap_map]
  exact List.filterMap_some

/-- A parser that writes some of the strings writes headers that can be sent. -/
theorem sendable_fields (hplain : Plain h)
    (hvalues : ∀ kv ∈ h, values kv.2 = strings kv.2 ∨ values kv.2 = []) :
    ∀ kv ∈ fields values baseSkip strip h, Sendable kv := by
  intro kv hkv
  obtain ⟨⟨k, v⟩, hmem, hkv⟩ := List.mem_flatMap.mp hkv
  dsimp only at hkv
  split_ifs at hkv
  · cases hkv
  · obtain ⟨s, hs, rfl⟩ := List.mem_map.mp hkv
    rcases hvalues (k, v) hmem with heq | hnil
    · dsimp only at heq
      rw [heq] at hs
      exact (hplain.names _ hmem).sendable (OneLine.of_mem_strings (hplain.values _ hmem) hs)
    · dsimp only at hnil
      rw [hnil] at hs
      cases hs

/-- The headers of some names that are written. -/
theorem filter_fields (hplain : Plain h) (p : List Char → Bool) :
    (trimHeaders (fields values baseSkip strip h)).filter (fun kv => p kv.1) =
      (h.filter fun kv => p kv.1.toList && !isSkipped baseSkip strip kv.1).flatMap fun kv =>
        (values kv.2).map fun s => (kv.1.toList, Drive.trim s) := by
  have hnames := hplain.names
  clear hplain
  induction h with
  | nil => rfl
  | cons kv h ih =>
      obtain ⟨k, v⟩ := kv
      obtain ⟨htoken, hnames⟩ := List.forall_mem_cons.mp hnames
      have hcons : fields values baseSkip strip ((k, v) :: h) =
          (if isSkipped baseSkip strip k then [] else (values v).map fun s => (k.toList, s)) ++
            fields values baseSkip strip h := List.flatMap_cons
      have htrims : trimHeaders ((values v).map fun s => (k.toList, s)) =
          (values v).map fun s => (k.toList, Drive.trim s) := by
        unfold trimHeaders
        rw [List.map_map]
        refine List.map_congr_left fun s _ => ?_
        exact congrArg (fun name => (name, Drive.trim s)) htoken.trim_eq
      have happend : ∀ a b : Headers, trimHeaders (a ++ b) = trimHeaders a ++ trimHeaders b :=
        fun a b => List.map_append
      rw [hcons, happend, List.filter_append, ih hnames]
      by_cases hskip : isSkipped baseSkip strip k = true
      · rw [if_pos hskip, List.filter_cons_of_neg (by simp [hskip])]
        rfl
      · rw [if_neg hskip, htrims]
        by_cases hp : p k.toList = true
        · rw [List.filter_cons_of_pos (by simp [hskip, hp]), List.flatMap_cons,
            List.filter_eq_self.mpr]
          intro kv hkv
          obtain ⟨s, -, rfl⟩ := List.mem_map.mp hkv
          exact hp
        · rw [List.filter_cons_of_neg (by simp [hp]), List.filter_eq_nil_iff.mpr]
          · rfl
          · intro kv hkv
            obtain ⟨s, -, rfl⟩ := List.mem_map.mp hkv
            exact hp

end

theorem length_flatMap_le {α β : Type} {f g : α → List β} {l : List α}
    (h : ∀ x ∈ l, f x = g x ∨ f x = []) : (l.flatMap f).length ≤ (l.flatMap g).length := by
  induction l with
  | nil => exact Nat.le_refl 0
  | cons x l ih =>
      obtain ⟨hx, hl⟩ := List.forall_mem_cons.mp h
      have hrest := ih hl
      rw [List.flatMap_cons, List.flatMap_cons, List.length_append, List.length_append]
      rcases hx with heq | hnil
      · rw [heq]
        omega
      · rw [hnil, List.length_nil]
        omega

/-- A part that is left out is missed. -/
theorem flatMap_eq_iff {α β : Type} {f g : α → List β} {l : List α}
    (h : ∀ x ∈ l, f x = g x ∨ f x = []) : l.flatMap f = l.flatMap g ↔ ∀ x ∈ l, f x = g x := by
  constructor
  · intro heq
    induction l with
    | nil =>
        intro x hx
        cases hx
    | cons x l ih =>
        obtain ⟨hx, hl⟩ := List.forall_mem_cons.mp h
        have hlengths := congrArg List.length heq
        have hle := length_flatMap_le hl
        rw [List.flatMap_cons, List.flatMap_cons] at heq
        rw [List.flatMap_cons, List.flatMap_cons, List.length_append, List.length_append]
          at hlengths
        have hsame : f x = g x := by
          rcases hx with hsame | hnil
          · exact hsame
          · rw [hnil, List.length_nil] at hlengths
            rw [hnil, List.length_eq_zero_iff.mp (show (g x).length = 0 by omega)]
        rw [hsame] at heq
        rw [List.forall_mem_cons]
        exact ⟨hsame, ih hl (List.append_cancel_left heq)⟩
  · exact fun hsame => List.flatMap_congr hsame

/-! ## Codings -/

/-- A body with these codings cannot be made plain: there are several, or one that is not `gzip`
and that its decoder does not take. -/
def Undecodable (crates : Crates) (sent : List UInt8) : List (List Char) → Prop
  | [] => False
  | [token] => token ≠ "gzip".toList ∧
      (token = "br".toList → crates.decodeBrotli sent = none) ∧
      (token = "zstd".toList → crates.decodeZstd sent = none)
  | _ => True

def StaysCoded (crates : Crates) (h : Object) (sent : List UInt8) : Prop :=
  sent ≠ [] ∧ ∃ raw, contentEncoding h = some raw ∧
    Undecodable crates sent (encodingTokens raw)

section

variable {crates : Crates} {h : Option Object} {sent : List UInt8}

theorem bind_contentEncoding (h : Option Object) :
    h.bind contentEncoding = contentEncoding (h.getD []) := by
  cases h with
  | none => rfl
  | some h => rfl

/-- With the flag, `br` and `zstd` are decoded if they can be. -/
theorem decode_cases (token : List Char) (hgzip : token ≠ "gzip".toList) (coded : Coded)
    (hcoded : coded = if token = "br".toList ∧ true = true then
        tryDecode crates.decodeBrotli sent
      else if token = "zstd".toList ∧ true = true then tryDecode crates.decodeZstd sent
      else ⟨sent, false⟩) :
    (Undecoded crates sent coded.body [token] ↔ Undecodable crates sent [token]) ∧
      (Undecodable crates sent [token] → coded.strip = false) := by
  have hdiffer : "zstd".toList ≠ "br".toList := by decide
  unfold Undecoded Undecodable tryDecode at *
  subst hcoded
  generalize "gzip".toList = gzip at *
  generalize "br".toList = br at *
  generalize "zstd".toList = zstd at *
  by_cases hbr : token = br
  · subst hbr
    rw [if_pos ⟨rfl, rfl⟩]
    cases hdecode : crates.decodeBrotli sent with
    | none => simp [hgzip, hdiffer.symm]
    | some decoded => simp
  · rw [if_neg fun hboth => hbr hboth.1]
    by_cases hzstd : token = zstd
    · subst hzstd
      rw [if_pos ⟨rfl, rfl⟩]
      cases hdecode : crates.decodeZstd sent with
      | none => simp [hgzip, hdiffer]
      | some decoded => simp
    · rw [if_neg fun hboth => hzstd hboth.1]
      simp [hgzip, hbr, hzstd]

/-- What both parsers do with the codings of a body, with the flag. -/
def CodedAs (crates : Crates) (sent : List UInt8) (coded : Coded) : List (List Char) → Prop
  | [] => True
  | [token] => token ≠ "gzip".toList → coded = if token = "br".toList ∧ true = true then
        tryDecode crates.decodeBrotli sent
      else if token = "zstd".toList ∧ true = true then tryDecode crates.decodeZstd sent
      else ⟨sent, false⟩
  | _ => coded.strip = false

/-- With the flag, a body that cannot be made plain stays encoded, and its coding is kept. -/
theorem stillCoded_iff {h : Object} (coded : Coded)
    (hcoded : sent ≠ [] → ∀ raw, contentEncoding h = some raw →
      CodedAs crates sent coded (encodingTokens raw)) :
    (StillCoded crates h sent coded.body ↔ StaysCoded crates h sent) ∧
      (StaysCoded crates h sent → coded.strip = false) := by
  have hboth : sent ≠ [] → ∀ raw, contentEncoding h = some raw →
      (Undecoded crates sent coded.body (encodingTokens raw) ↔
        Undecodable crates sent (encodingTokens raw)) ∧
      (Undecodable crates sent (encodingTokens raw) → coded.strip = false) := by
    intro hsent raw hraw
    have hcoded := hcoded hsent raw hraw
    generalize encodingTokens raw = tokens at hcoded ⊢
    cases tokens with
    | nil => exact ⟨Iff.rfl, fun hfalse => hfalse.elim⟩
    | cons token more =>
        cases more with
        | nil =>
            by_cases hgzip : token = "gzip".toList
            · exact ⟨⟨fun h => absurd hgzip h.1, fun h => absurd hgzip h.1⟩,
                fun h => absurd hgzip h.1⟩
            · exact decode_cases token hgzip coded (hcoded hgzip)
        | cons token' more => exact ⟨Iff.rfl, fun _ => hcoded⟩
  constructor
  · constructor
    · rintro ⟨hsent, raw, hraw, hundecoded⟩
      exact ⟨hsent, raw, hraw, (hboth hsent raw hraw).1.mp hundecoded⟩
    · rintro ⟨hsent, raw, hraw, hundecodable⟩
      exact ⟨hsent, raw, hraw, (hboth hsent raw hraw).1.mpr hundecodable⟩
  · rintro ⟨hsent, raw, hraw, hundecodable⟩
    exact (hboth hsent raw hraw).2 hundecodable

theorem relayCoded_codedAs (hsent : sent ≠ []) {raw : List Char}
    (hraw : contentEncoding (h.getD []) = some raw) :
    CodedAs crates sent (relayCoded crates true h sent) (encodingTokens raw) := by
  have hempty : sent.isEmpty = false := List.isEmpty_eq_false_iff.mpr hsent
  unfold relayCoded
  rw [hempty, if_neg Bool.false_ne_true, bind_contentEncoding, hraw]
  dsimp only
  generalize encodingTokens raw = tokens
  cases tokens with
  | nil => exact True.intro
  | cons token more =>
      cases more with
      | nil =>
          intro hgzip
          dsimp only
          rw [if_neg hgzip]
      | cons token' more => exact rfl

theorem exitCoded_codedAs (hsent : sent ≠ []) {raw : List Char}
    (hraw : contentEncoding (h.getD []) = some raw) :
    CodedAs crates sent (exitCoded crates true h sent) (encodingTokens raw) := by
  have hempty : sent.isEmpty = false := List.isEmpty_eq_false_iff.mpr hsent
  unfold exitCoded
  rw [hempty, if_neg Bool.false_ne_true, bind_contentEncoding, hraw]
  dsimp only
  generalize encodingTokens raw = tokens
  cases tokens with
  | nil => exact True.intro
  | cons token more =>
      cases more with
      | nil =>
          intro hgzip
          dsimp only
          rw [if_neg hgzip]
          rfl
      | cons token' more => exact rfl

end

/-! ## Deliveries -/

section

variable {crates : Crates} {allowBrotliZstd : Bool} {values : Json → List (List Char)}
  {baseSkip : List String} {h : Object} {sent : List UInt8}

/-- The strings of the values of some headers. -/
theorem flatMap_values_iff (l : Object)
    (hvalues : ∀ kv ∈ l, values kv.2 = strings kv.2 ∨ values kv.2 = []) :
    (l.flatMap fun kv => (values kv.2).map fun s => (kv.1.toList, Drive.trim s)) =
        (l.flatMap fun kv => (strings kv.2).map fun s => (kv.1.toList, Drive.trim s)) ↔
      ∀ kv ∈ l, values kv.2 = strings kv.2 := by
  have hparts : ∀ kv ∈ l, ((values kv.2).map fun s => (kv.1.toList, Drive.trim s)) =
      ((strings kv.2).map fun s => (kv.1.toList, Drive.trim s)) ∨
      ((values kv.2).map fun s => (kv.1.toList, Drive.trim s)) = [] := by
    intro kv hkv
    rcases hvalues kv hkv with heq | hnil
    · exact Or.inl (by rw [heq])
    · exact Or.inr (by rw [hnil, List.map_nil])
  rw [flatMap_eq_iff hparts]
  refine forall₂_congr fun kv hkv => ?_
  rcases hvalues kv hkv with heq | hnil
  · exact ⟨fun _ => heq, fun h => by rw [h]⟩
  · rw [hnil, List.map_nil]
    exact ⟨fun h => (List.map_eq_nil_iff.mp h.symm).symm, fun h => by rw [← h, List.map_nil]⟩

/-- No length is copied. -/
theorem length_fields (hplain : Plain h) (hskip : ∀ s, s ∈ baseSkip ↔ s ∈ relayBaseSkip)
    (strip : Bool) : (trimHeaders (fields values baseSkip strip h)).filter
      (fun kv => isName "content-length" kv.1) = [] := by
  rw [filter_fields hplain (isName "content-length"), List.filter_eq_nil_iff.mpr]
  · rfl
  · intro kv _ hboth
    obtain ⟨hlength, hkept⟩ := (Bool.and_eq_true _ _).mp hboth
    rw [isSkipped_eq hskip, isHop_of_length hlength] at hkept
    cases hkept

/-- All end-to-end headers are written if all their strings are. -/
theorem endToEnd_fields_iff (hplain : Plain h)
    (hvalues : ∀ kv ∈ h, values kv.2 = strings kv.2 ∨ values kv.2 = [])
    (hskip : ∀ s, s ∈ baseSkip ↔ s ∈ relayBaseSkip) (strip : Bool) :
    (trimHeaders (fields values baseSkip strip h)).filter
        (fun kv => !isName "content-length" kv.1 && !isName "content-encoding" kv.1) =
        endToEnd h ↔
      ∀ kv ∈ h, isHop kv.1 = false → isCoding kv.1 = false → values kv.2 = strings kv.2 := by
  have hsame : ∀ kv ∈ h, (!isName "content-length" kv.1.toList &&
      !isName "content-encoding" kv.1.toList && !isSkipped baseSkip strip kv.1) =
      (!isHop kv.1 && !isCoding kv.1) := by
    intro kv _
    have hlength : isName "content-length" kv.1.toList = true → isHop kv.1 = true :=
      isHop_of_length
    rw [isSkipped_eq hskip]
    show (!isName "content-length" kv.1.toList && !isCoding kv.1 && _) = _
    cases hhop : isHop kv.1 with
    | true => simp
    | false =>
        have hnot : isName "content-length" kv.1.toList = false :=
          Bool.eq_false_iff.mpr fun h => by
            rw [hlength h] at hhop
            cases hhop
        cases isCoding kv.1 with
        | true => simp
        | false => simp [hnot]
  rw [filter_fields hplain
    (fun k => !isName "content-length" k && !isName "content-encoding" k),
    List.filter_congr hsame, endToEnd, headersWith, flatMap_values_iff]
  · simp only [List.mem_filter, Bool.and_eq_true, Bool.not_eq_true', and_imp]
  · exact fun kv hkv => hvalues kv (List.mem_filter.mp hkv).1

theorem codings_fields_iff (hplain : Plain h)
    (hvalues : ∀ kv ∈ h, values kv.2 = strings kv.2 ∨ values kv.2 = [])
    (hskip : ∀ s, s ∈ baseSkip ↔ s ∈ relayBaseSkip) :
    (trimHeaders (fields values baseSkip false h)).filter
        (fun kv => isName "content-encoding" kv.1) = codings h ↔
      ∀ kv ∈ h, isCoding kv.1 = true → values kv.2 = strings kv.2 := by
  have hsame : ∀ kv ∈ h, (isName "content-encoding" kv.1.toList &&
      !isSkipped baseSkip false kv.1) = isCoding kv.1 := by
    intro kv _
    rw [isSkipped_eq hskip, Bool.false_and, Bool.or_false]
    show (isCoding kv.1 && _) = _
    cases hcoding : isCoding kv.1 with
    | true => rw [not_isHop_of_coding hcoding]; rfl
    | false => rfl
  rw [filter_fields hplain (isName "content-encoding"), List.filter_congr hsame, codings,
    headersWith, flatMap_values_iff]
  · simp only [List.mem_filter, and_imp]
  · exact fun kv hkv => hvalues kv (List.mem_filter.mp hkv).1

/-- What has to be written so that the envelope is delivered. -/
theorem delivers_iff {status expected : Nat} {reason : String} (coded : Coded)
    (hstatus : status < 2 ^ 16) (hreason : OneLine reason.toList) (hplain : Plain h)
    (hvalues : ∀ kv ∈ h, values kv.2 = strings kv.2 ∨ values kv.2 = [])
    (hskip : ∀ s, s ∈ baseSkip ↔ s ∈ relayBaseSkip)
    (hstrip : allowBrotliZstd = true → StillCoded crates h sent coded.body → coded.strip = false) :
    Delivers crates allowBrotliZstd expected h sent
        (rawResponse status reason (fields values baseSkip coded.strip h) coded.body) ↔
      status = expected ∧
      (∀ kv ∈ h, isHop kv.1 = false → isCoding kv.1 = false → values kv.2 = strings kv.2) ∧
      (allowBrotliZstd = true → StillCoded crates h sent coded.body →
        ∀ kv ∈ h, isCoding kv.1 = true → values kv.2 = strings kv.2) := by
  -- every line that is written is read back as it is
  have hsend : ∀ kv ∈ fields values baseSkip coded.strip h, Splittable (spaced kv) :=
    fun kv hkv => spaced_splittable (sendable_fields hplain hvalues kv hkv)
  have hsplit := splitResponse_rawResponse hstatus hreason hsend coded.body
  have hname : isName "content-length" "Content-Length".toList = true := by decide
  have hother : isName "content-encoding" "Content-Length".toList = false := by decide
  change isName "content-length" (lengthHeader coded.body.length).1 = true at hname
  change isName "content-encoding" (lengthHeader coded.body.length).1 = false at hother
  have hends := endToEnd_fields_iff hplain hvalues hskip coded.strip
  have hcodings : coded.strip = false →
      ((trimHeaders (fields values baseSkip coded.strip h)).filter
        (fun kv => isName "content-encoding" kv.1) = codings h ↔
      ∀ kv ∈ h, isCoding kv.1 = true → values kv.2 = strings kv.2) := by
    intro hkept
    rw [hkept]
    exact codings_fields_iff hplain hvalues hskip
  -- the length comes behind the headers
  have hfilter : ∀ p : List Char × List Char → Bool,
      (trimHeaders (fields values baseSkip coded.strip h) ++
        [lengthHeader coded.body.length]).filter p =
      (trimHeaders (fields values baseSkip coded.strip h)).filter p ++
        [lengthHeader coded.body.length].filter p := fun p => List.filter_append _ _
  constructor
  · rintro ⟨headers, body, hsplit', -, hothers, hcoding⟩
    rw [hsplit] at hsplit'
    obtain ⟨rfl, hrest⟩ := Prod.mk.inj (Option.some.inj hsplit')
    obtain ⟨rfl, rfl⟩ := Prod.mk.inj hrest
    rw [hfilter, List.filter_singleton, hname] at hothers
    refine ⟨rfl, hends.mp (by simpa using hothers), fun hallow hstill => ?_⟩
    have hcoding := hcoding hallow hstill
    rw [hfilter, List.filter_singleton, hother] at hcoding
    exact (hcodings (hstrip hallow hstill)).mp (by simpa using hcoding)
  · rintro ⟨rfl, hothers, hcoding⟩
    refine ⟨_, _, hsplit, ?_, ?_, fun hallow hstill => ?_⟩
    · rw [hfilter, length_fields hplain hskip, List.filter_singleton, hname]
      rfl
    · rw [hfilter, List.filter_singleton, hname, hends.mpr hothers]
      simp
    · rw [hfilter, List.filter_singleton, hother,
        (hcodings (hstrip hallow hstill)).mpr (hcoding hallow hstill)]
      simp

end

/-! ## The two parsers -/

section

variable {crates : Crates}

theorem relayValues_eq {v : Json} (hv : HeaderValue v) : relayValues crates v = strings v := by
  cases hv with
  | str hone => rfl
  | arr hitems =>
      rw [strings_arr]
      show List.filterMap (valueToHeaderStr crates) (List.map Json.str _) = _
      rw [List.filterMap_map]
      exact List.filterMap_some

/-- An array is left out. -/
theorem exitValues_cases {v : Json} (hv : HeaderValue v) :
    (exitValues v = strings v ∨ exitValues v = []) ∧
      (exitValues v = strings v ↔ ∀ items, v = .arr items → items = []) := by
  cases hv with
  | str hone =>
      refine ⟨Or.inl rfl, fun _ items h => ?_, fun _ => rfl⟩
      cases h
  | @arr items hitems =>
      rw [strings_arr]
      show ([] = items ∨ _) ∧ ([] = items ↔ _)
      refine ⟨Or.inr rfl, ?_, fun h => ?_⟩
      · rintro rfl items' h
        cases h
        rfl
      · exact (List.map_eq_nil_iff.mp (h _ rfl)).symm

theorem oneLine_statusText (status : Nat) : OneLine (statusText status).toList := by
  unfold statusText
  split <;> exact ⟨by decide, by decide⟩

theorem oneLine_statusReason (status : Nat) : OneLine (statusReason status).toList := by
  unfold statusReason
  split <;> exact ⟨by decide, by decide⟩

theorem decodedBody_eq {failure : List Char → Fault} {b : Option (List Char)} {sent : List UInt8}
    (h : Base64.decode (b.getD []) = some sent) : decodedBody failure b = .ok sent := by
  unfold decodedBody
  cases b with
  | none =>
      cases h
      rfl
  | some b =>
      dsimp only [Option.getD_some] at h ⊢
      rw [h]

theorem relayRaw_delivers {allowBrotliZstd : Bool} {data : RelayResponse} {s : UInt16}
    {sent raw : List UInt8} (hs : data.s = some s) (hplain : Plain (data.h.getD []))
    (hsent : Base64.decode (data.b.getD []) = some sent)
    (hraw : relayRaw crates allowBrotliZstd data = .ok raw) :
    Delivers crates allowBrotliZstd s.toNat (data.h.getD []) sent raw := by
  have hvalues : ∀ kv ∈ data.h.getD [], relayValues crates kv.2 = strings kv.2 :=
    fun kv hkv => relayValues_eq (hplain.values kv hkv)
  have hstill := fun hallow : allowBrotliZstd = true => stillCoded_iff
    (relayCoded crates true data.h sent) fun hne _ henc => relayCoded_codedAs hne henc
  unfold relayRaw at hraw
  cases he : data.e with
  | some e =>
      rw [he] at hraw
      cases hraw
  | none =>
      rw [he, decodedBody_eq hsent, hs] at hraw
      cases hraw
      apply (delivers_iff (relayCoded crates allowBrotliZstd data.h sent) s.toNat_lt
        (oneLine_statusText s.toNat) hplain (fun kv hkv => Or.inl (hvalues kv hkv))
        (fun _ => Iff.rfl) ?_).mpr
      · exact ⟨rfl, fun kv hkv _ _ => hvalues kv hkv, fun _ _ kv hkv _ => hvalues kv hkv⟩
      · rintro rfl hcoded
        obtain ⟨hiff, hstrip⟩ := hstill rfl
        exact hstrip (hiff.mp hcoded)

/-- No header that is to be delivered is an array with a string. -/
structure NoArrays (crates : Crates) (allowBrotliZstd : Bool) (h : Object) (sent : List UInt8) :
    Prop where
  endToEnd : ∀ kv ∈ h, isHop kv.1 = false → isCoding kv.1 = false →
    ∀ items, kv.2 = .arr items → items = []
  coding : allowBrotliZstd = true → StaysCoded crates h sent →
    ∀ kv ∈ h, isCoding kv.1 = true → ∀ items, kv.2 = .arr items → items = []

/-- What the exit node's parser makes of an accepted envelope. -/
theorem exitRaw_eq {allowBrotliZstd : Bool} {v : Json} {sent raw : List UInt8}
    (hsent : Base64.decode (((get v "b").bind Json.asString).getD []) = some sent)
    (hraw : exitRaw crates allowBrotliZstd v = .ok raw) :
    (get v "e").bind Json.asString = none ∧ looksLikeExitNodeEnvelope crates sent = false ∧
    ∃ status, status = (((get v "s").bind (Json.asUnsigned 64)).map (· % 2 ^ 16)).getD 502 ∧
      ∃ coded, coded = exitCoded crates allowBrotliZstd ((get v "h").bind asObject) sent ∧
        raw = rawResponse status (statusReason status) (fields exitValues exitBaseSkip coded.strip
          (((get v "h").bind asObject).getD [])) coded.body := by
  unfold exitRaw at hraw
  cases he : (get v "e").bind Json.asString with
  | some message =>
      rw [he] at hraw
      cases hraw
  | none =>
      rw [he, decodedBody_eq hsent] at hraw
      dsimp only at hraw
      cases hlooks : looksLikeExitNodeEnvelope crates sent with
      | true =>
          rw [hlooks, if_pos rfl] at hraw
          cases hraw
      | false =>
          rw [hlooks, if_neg Bool.false_ne_true] at hraw
          exact ⟨rfl, rfl, _, rfl, _, rfl, (Except.ok.inj hraw).symm⟩

theorem exitRaw_delivers_iff {allowBrotliZstd : Bool} {v : Json} {n : Int} {h : Object}
    {sent raw : List UInt8} (hs : get v "s" = some (.int n))
    (hh : ((get v "h").bind asObject).getD [] = h) (hplain : Plain h)
    (hsent : Base64.decode (((get v "b").bind Json.asString).getD []) = some sent)
    (hraw : exitRaw crates allowBrotliZstd v = .ok raw) :
    (∃ status : Nat, (status : Int) = n ∧ Delivers crates allowBrotliZstd status h sent raw) ↔
      (0 ≤ n ∧ n < 2 ^ 16) ∧ NoArrays crates allowBrotliZstd h sent := by
  obtain ⟨-, -, status, hstatus, coded, hcoded, rfl⟩ := exitRaw_eq hsent hraw
  have hlt : status < 2 ^ 16 := by
    rw [hstatus]
    cases (get v "s").bind (Json.asUnsigned 64) with
    | none => decide
    | some m => exact Nat.mod_lt m (by decide)
  have hsame : (∃ expected : Nat, (expected : Int) = n ∧ status = expected) ↔
      0 ≤ n ∧ n < 2 ^ 16 := by
    rw [hs] at hstatus
    constructor
    · rintro ⟨_, rfl, rfl⟩
      omega
    · rintro ⟨hnonneg, hsmall⟩
      have hunsigned : Json.asUnsigned 64 (.int n) = some n.toNat :=
        if_pos ⟨hnonneg, by omega⟩
      refine ⟨n.toNat, Int.toNat_of_nonneg hnonneg, ?_⟩
      rw [hstatus, Option.bind_some, hunsigned]
      exact Nat.mod_eq_of_lt (by omega)
  have hstill : allowBrotliZstd = true →
      (StillCoded crates h sent coded.body ↔ StaysCoded crates h sent) ∧
        (StaysCoded crates h sent → coded.strip = false) := by
    rintro rfl
    subst hh hcoded
    exact stillCoded_iff _ fun hne _ henc => exitCoded_codedAs hne henc
  have hvalues := fun kv (hkv : kv ∈ h) => exitValues_cases (hplain.values kv hkv)
  have hdelivers := fun expected : Nat => (delivers_iff coded hlt (oneLine_statusReason status)
    hplain (fun kv hkv => (hvalues kv hkv).1) mem_exitBaseSkip
    fun hallow hstays => (hstill hallow).2 ((hstill hallow).1.mp hstays) :
    Delivers crates allowBrotliZstd expected h sent _ ↔ _)
  rw [hh, ← hsame]
  constructor
  · rintro ⟨expected, hn, hall⟩
    obtain ⟨heq, hends, hcodings⟩ := (hdelivers expected).mp hall
    refine ⟨⟨expected, hn, heq⟩, fun kv hkv hhop hcoding => ?_,
      fun hallow hstays kv hkv hname => ?_⟩
    · exact (hvalues kv hkv).2.mp (hends kv hkv hhop hcoding)
    · exact (hvalues kv hkv).2.mp
        (hcodings hallow ((hstill hallow).1.mpr hstays) kv hkv hname)
  · rintro ⟨⟨expected, hn, heq⟩, hno⟩
    refine ⟨expected, hn, (hdelivers expected).mpr ⟨heq, fun kv hkv hhop hcoding => ?_,
      fun hallow hstays kv hkv hname => ?_⟩⟩
    · exact (hvalues kv hkv).2.mpr (hno.endToEnd kv hkv hhop hcoding)
    · exact (hvalues kv hkv).2.mpr
        (hno.coding hallow ((hstill hallow).1.mp hstays) kv hkv hname)

/-! ## Two forms of one header -/

/-- The same headers, one of them in the form of an array with one item. -/
def stringForm (h₁ : Object) (k : String) (t : List Char) (h₂ : Object) : Object :=
  h₁ ++ (k, .str t) :: h₂

def arrayForm (h₁ : Object) (k : String) (t : List Char) (h₂ : Object) : Object :=
  h₁ ++ (k, .arr [.str t]) :: h₂

variable {h₁ h₂ : Object} {k : String} {t : List Char}

/-- A default is read like another one that gives the same. -/
theorem bind_or_some {α β : Type} {f : α → Option β} {x y : α} (o : Option α) (h : f x = f y) :
    (o.or (some x)).bind f = (o.or (some y)).bind f := by
  cases o with
  | none => exact h
  | some _ => rfl

theorem contentEncoding_arrayForm :
    contentEncoding (arrayForm h₁ k t h₂) = contentEncoding (stringForm h₁ k t h₂) := by
  have hvalue : headerStringValue (.arr [.str t]) = headerStringValue (.str t) := by
    show some (List.intercalate ", ".toList [t]) = some t
    rw [List.intercalate_singleton]
  unfold contentEncoding arrayForm stringForm
  rw [List.find?_append, List.find?_append, List.find?_cons, List.find?_cons]
  dsimp only
  cases eqIgnoreAsciiCase k.toList "content-encoding".toList with
  | true => exact bind_or_some _ hvalue
  | false => rfl

theorem fields_append (values : Json → List (List Char)) (baseSkip : List String) (strip : Bool)
    (v : Json) : fields values baseSkip strip (h₁ ++ (k, v) :: h₂) =
      fields values baseSkip strip h₁ ++
        ((if isSkipped baseSkip strip k then [] else (values v).map fun s => (k.toList, s)) ++
          fields values baseSkip strip h₂) := by
  unfold fields
  rw [List.flatMap_append, List.flatMap_cons]

/-- The relay's parser does not tell the two forms apart. -/
theorem relayRaw_arrayForm (allowBrotliZstd : Bool) (data : RelayResponse) :
    relayRaw crates allowBrotliZstd { data with h := some (arrayForm h₁ k t h₂) } =
      relayRaw crates allowBrotliZstd { data with h := some (stringForm h₁ k t h₂) } := by
  have hcoded : ∀ body, relayCoded crates allowBrotliZstd (some (arrayForm h₁ k t h₂)) body =
      relayCoded crates allowBrotliZstd (some (stringForm h₁ k t h₂)) body := by
    intro body
    unfold relayCoded
    rw [Option.bind_some, Option.bind_some, contentEncoding_arrayForm]
  have hfields : ∀ strip, fields (relayValues crates) relayBaseSkip strip (arrayForm h₁ k t h₂) =
      fields (relayValues crates) relayBaseSkip strip (stringForm h₁ k t h₂) := by
    intro strip
    unfold arrayForm stringForm
    rw [fields_append, fields_append]
    rfl
  unfold relayRaw
  dsimp only
  simp only [hcoded, Option.getD_some, hfields]

theorem length_rawResponse (status : Nat) (reason : String) (headers : Headers)
    (body : List UInt8) :
    (rawResponse status reason headers body).length =
      (rawResponse status reason [] body).length + (headers.map fun kv =>
        (utf8 (kv.1 ++ ": ".toList ++ kv.2 ++ "\r\n".toList)).length).sum := by
  unfold rawResponse
  rw [List.length_append, List.length_append, List.length_append, List.length_append,
    List.length_append, List.length_append, List.length_flatMap, List.flatMap_nil, List.length_nil]
  dsimp only
  omega

/-- The exit node's parser leaves a body with these codings as it is, and keeps their header. -/
def LeavesCoded (crates : Crates) (allowBrotliZstd : Bool) (sent : List UInt8) :
    List (List Char) → Prop
  | [] => False
  | [token] => token = "gzip".toList ∧ crates.decodeGzip sent = none ∨
      token ≠ "gzip".toList ∧ allowBrotliZstd = true ∧
      (token = "br".toList → crates.decodeBrotli sent = none) ∧
      (token = "zstd".toList → crates.decodeZstd sent = none)
  | _ => allowBrotliZstd = true

def KeepsCoding (crates : Crates) (allowBrotliZstd : Bool) (h : Object) (sent : List UInt8) :
    Prop :=
  sent ≠ [] ∧ ∃ raw, contentEncoding h = some raw ∧
    LeavesCoded crates allowBrotliZstd sent (encodingTokens raw)

theorem strip_tryDecode (decode : List UInt8 → Option (List UInt8)) (sent : List UInt8) :
    (tryDecode decode sent).strip = false ↔ decode sent = none := by
  unfold tryDecode
  cases decode sent with
  | none => simp
  | some decoded => simp

theorem exitCoded_strip {allowBrotliZstd : Bool} {h : Object} {sent : List UInt8} :
    (exitCoded crates allowBrotliZstd (some h) sent).strip = false ↔
      KeepsCoding crates allowBrotliZstd h sent := by
  unfold exitCoded KeepsCoding
  rw [Option.bind_some]
  -- without a body there is nothing to decode
  by_cases hsent : sent = []
  · subst hsent
    simp
  · rw [List.isEmpty_eq_false_iff.mpr hsent, if_neg Bool.false_ne_true]
    cases contentEncoding h with
    | none => simp
    | some raw =>
        dsimp only
        simp only [Option.some.injEq, exists_eq_left', hsent, ne_eq, not_false_eq_true, true_and]
        generalize encodingTokens raw = tokens
        have hdiffer : "zstd".toList ≠ "br".toList := by decide
        unfold LeavesCoded
        generalize "gzip".toList = gzip
        generalize "br".toList = br at *
        generalize "zstd".toList = zstd at *
        cases tokens with
        | nil => simp
        | cons token more =>
            cases more with
            | cons token' more => simp
            | nil =>
                dsimp only
                by_cases hgzip : token = gzip
                · rw [if_pos hgzip, strip_tryDecode]
                  simp [hgzip]
                · rw [if_neg hgzip]
                  cases allowBrotliZstd with
                  | false => simp [hgzip]
                  | true =>
                      by_cases hbr : token = br
                      · subst hbr
                        rw [if_pos ⟨rfl, rfl⟩, strip_tryDecode]
                        simp [hgzip, hdiffer.symm]
                      · rw [if_neg fun h => hbr h.1]
                        by_cases hzstd : token = zstd
                        · subst hzstd
                          rw [if_pos ⟨rfl, rfl⟩, strip_tryDecode]
                          simp [hgzip, hbr]
                        · rw [if_neg fun h => hzstd h.1]
                          simp [hgzip, hbr, hzstd]

/-- The exit node's parser writes the one form, and leaves the other out. -/
theorem exitRaw_arrayForm_iff {allowBrotliZstd : Bool} {v v' : Json} {sent raw : List UInt8}
    (he : get v' "e" = get v "e") (hs : get v' "s" = get v "s") (hb : get v' "b" = get v "b")
    (hstring : get v "h" = some (.obj (stringForm h₁ k t h₂)))
    (harray : get v' "h" = some (.obj (arrayForm h₁ k t h₂)))
    (hsent : Base64.decode (((get v "b").bind Json.asString).getD []) = some sent)
    (hraw : exitRaw crates allowBrotliZstd v = .ok raw) :
    exitRaw crates allowBrotliZstd v' = .ok raw ↔ isHop k = true ∨
      isCoding k = true ∧ ¬ KeepsCoding crates allowBrotliZstd (stringForm h₁ k t h₂) sent := by
  obtain ⟨hnone, hlooks, status, hstatus, coded, hcoded, rfl⟩ := exitRaw_eq hsent hraw
  -- the coding is that of the first value in either form
  have hcoded' : exitCoded crates allowBrotliZstd (some (arrayForm h₁ k t h₂)) sent = coded := by
    rw [hcoded, hstring]
    show _ = exitCoded crates allowBrotliZstd (some (stringForm h₁ k t h₂)) sent
    unfold exitCoded
    rw [Option.bind_some, Option.bind_some, contentEncoding_arrayForm]
  have hraw' : exitRaw crates allowBrotliZstd v' = .ok (rawResponse status (statusReason status)
      (fields exitValues exitBaseSkip coded.strip (arrayForm h₁ k t h₂)) coded.body) := by
    unfold exitRaw
    rw [he, hnone, hs, hb, decodedBody_eq hsent, ← hstatus, harray]
    dsimp only
    rw [hlooks, if_neg Bool.false_ne_true, Option.bind_some]
    show Except.ok (rawResponse status _ (fields _ _ (exitCoded crates allowBrotliZstd
      (some (arrayForm h₁ k t h₂)) sent).strip _) (exitCoded crates allowBrotliZstd
      (some (arrayForm h₁ k t h₂)) sent).body) = _
    rw [hcoded']
    rfl
  have hstrip : KeepsCoding crates allowBrotliZstd (stringForm h₁ k t h₂) sent ↔
      coded.strip = false := by
    rw [← exitCoded_strip, hcoded, hstring]
    rfl
  have hskipped : (isHop k = true ∨ isCoding k = true ∧ ¬ coded.strip = false) ↔
      isSkipped exitBaseSkip coded.strip k = true := by
    rw [isSkipped_eq mem_exitBaseSkip, Bool.or_eq_true, Bool.and_eq_true, Bool.not_eq_false,
      and_comm]
  have hh : ((get v "h").bind asObject).getD [] = stringForm h₁ k t h₂ := by
    rw [hstring]
    rfl
  rw [hraw', hstrip, hskipped, hh, Except.ok.injEq]
  constructor
  · intro hsame
    -- a line is there in one form only, and the responses differ in length
    by_contra hkept
    have hlength := congrArg List.length hsame
    unfold arrayForm stringForm at hlength
    rw [length_rawResponse, length_rawResponse _ _ (fields _ _ _ _), fields_append, fields_append,
      if_neg hkept, if_neg hkept] at hlength
    have hnone : exitValues (.arr [.str t]) = [] := rfl
    have hone : exitValues (.str t) = [t] := rfl
    have hline : 0 < (utf8 (k.toList ++ ": ".toList ++ t ++ "\r\n".toList)).length := by
      rw [utf8_append, List.length_append]
      exact Nat.add_pos_right _ (by decide)
    rw [hnone, hone] at hlength
    simp only [List.map_append, List.sum_append, List.map_nil, List.sum_nil, List.map_cons,
      List.sum_cons] at hlength
    omega
  · intro hskip
    unfold arrayForm stringForm
    rw [fields_append, fields_append, if_pos hskip, if_pos hskip]

/-- What the two parsers deliver. The relay's delivers every envelope; the exit node's those
without an array, and with a status of 16 bits. -/
theorem parsers_deliver (crates : Crates) (allowBrotliZstd : Bool) :
    (∀ body data s raw sent, relayData crates body = .ok data → data.s = some s →
      Plain (data.h.getD []) → Base64.decode (data.b.getD []) = some sent →
      parseRelayJson crates allowBrotliZstd body = .ok raw →
      Delivers crates allowBrotliZstd s.toNat (data.h.getD []) sent raw) ∧
    (∀ body v n h raw sent, exitValue crates body = .ok v → get v "s" = some (.int n) →
      ((get v "h").bind asObject).getD [] = h → Plain h →
      Base64.decode (((get v "b").bind Json.asString).getD []) = some sent →
      parseExitNodeResponse crates allowBrotliZstd body = .ok raw →
      ((∃ status : Nat, (status : Int) = n ∧
          Delivers crates allowBrotliZstd status h sent raw) ↔
        (0 ≤ n ∧ n < 2 ^ 16) ∧ NoArrays crates allowBrotliZstd h sent)) ∧
    (∀ body body' (data : RelayResponse) h₁ k t h₂,
      relayData crates body = .ok { data with h := some (stringForm h₁ k t h₂) } →
      relayData crates body' = .ok { data with h := some (arrayForm h₁ k t h₂) } →
      parseRelayJson crates allowBrotliZstd body' = parseRelayJson crates allowBrotliZstd body) ∧
    (∀ body body' v v' h₁ k t h₂ raw sent,
      exitValue crates body = .ok v → exitValue crates body' = .ok v' →
      get v' "e" = get v "e" → get v' "s" = get v "s" → get v' "b" = get v "b" →
      get v "h" = some (.obj (stringForm h₁ k t h₂)) →
      get v' "h" = some (.obj (arrayForm h₁ k t h₂)) →
      Base64.decode (((get v "b").bind Json.asString).getD []) = some sent →
      parseExitNodeResponse crates allowBrotliZstd body = .ok raw →
      (parseExitNodeResponse crates allowBrotliZstd body' = .ok raw ↔ isHop k = true ∨
        isCoding k = true ∧
          ¬ KeepsCoding crates allowBrotliZstd (stringForm h₁ k t h₂) sent)) := by
  have hrelay : ∀ {body data}, relayData crates body = .ok data →
      parseRelayJson crates allowBrotliZstd body = relayRaw crates allowBrotliZstd data := by
    intro body data hdata
    unfold parseRelayJson
    rw [hdata]
  have hexit : ∀ {body v}, exitValue crates body = .ok v →
      parseExitNodeResponse crates allowBrotliZstd body = exitRaw crates allowBrotliZstd v := by
    intro body v hv
    unfold parseExitNodeResponse
    rw [hv]
  refine ⟨?_, ?_, ?_, ?_⟩
  · intro body data s raw sent hdata hs hplain hsent hraw
    exact relayRaw_delivers hs hplain hsent (hrelay hdata ▸ hraw)
  · intro body v n h raw sent hv hs hh hplain hsent hraw
    exact exitRaw_delivers_iff hs hh hplain hsent (hexit hv ▸ hraw)
  · intro body body' data h₁ k t h₂ hstring harray
    rw [hrelay hstring, hrelay harray, relayRaw_arrayForm]
  · intro body body' v v' h₁ k t h₂ raw sent hv hv' he hs hb hstring harray hsent hraw
    rw [hexit hv']
    exact exitRaw_arrayForm_iff he hs hb hstring harray hsent (hexit hv ▸ hraw)

end

def cookieText : List Char :=
  "\x7b\"s\":200,\"h\":\x7b\"Set-Cookie\":[\"a=1\"]\x7d,\"b\":\"aGk=\"\x7d".toList

def largeText : List Char :=
  "\x7b\"s\":65736,\"h\":\x7b\x7d,\"b\":\"aGk=\"\x7d".toList

/-- The other crates, on two answers of the exit node and on their bodies. -/
def twoCrates : Crates :=
  { noJsonCrates with
    valueFromSlice := fun bytes =>
      if bytes = utf8 cookieText
      then .ok (.obj [("s", .int 200), ("h", .obj [("Set-Cookie", .arr [.str "a=1".toList])]),
        ("b", .str "aGk=".toList)])
      else if bytes = utf8 largeText
      then .ok (.obj [("s", .int 65736), ("h", .obj []), ("b", .str "aGk=".toList)])
      else .error "expected value at line 1 column 1" }

/-- A cookie in array form is lost, and the status 65736 becomes 200. -/
theorem exit_loses_cookie_and_status :
    (∃ raw, parseExitNodeResponse twoCrates true (utf8 cookieText) = .ok raw ∧
      splitResponse raw = some (200, [("Content-Length".toList, ['2'])], utf8 "hi".toList) ∧
      ¬ Delivers twoCrates true 200 [("Set-Cookie", .arr [.str "a=1".toList])]
        (utf8 "hi".toList) raw) ∧
    ∃ raw, parseExitNodeResponse twoCrates true (utf8 largeText) = .ok raw ∧
      splitResponse raw = some (200, [("Content-Length".toList, ['2'])], utf8 "hi".toList) ∧
      ¬ Delivers twoCrates true 65736 [] (utf8 "hi".toList) raw := by
  have hsplit : splitResponse (rawResponse 200 "OK" [] (utf8 "hi".toList)) =
      some (200, [("Content-Length".toList, ['2'])], utf8 "hi".toList) := by decide +kernel
  refine ⟨⟨rawResponse 200 "OK" [] (utf8 "hi".toList), by decide +kernel, hsplit, ?_⟩,
    ⟨rawResponse 200 "OK" [] (utf8 "hi".toList), by decide +kernel, hsplit, ?_⟩⟩
  · rintro ⟨headers, body, hsome, -, hothers, -⟩
    rw [hsplit] at hsome
    cases hsome
    exact absurd hothers (by decide +kernel)
  · rintro ⟨headers, body, hsome, -, -, -⟩
    rw [hsplit] at hsome
    cases hsome

end Rahgozar.Fronter.Envelope
