import Rahgozar.Config.RefreshToken
import Rahgozar.Settings.Accepted

set_option autoImplicit false

/-! # White space in two languages

Kotlin and Rust do not trim the same characters. A text that Android has trimmed and Rust trims
again is what Rust alone makes of it wherever the part that counts has no white space of either
language in it; a pattern of the relay may have some in its path, behind the host.
-/

namespace Rahgozar.Settings

open Drive (trim stripPrefix utf8)
open Proxy (trimEndDots toAsciiLowercase)
open Rahgozar.Config (trimKotlin isWhitespaceKotlin)
open Refusal

variable {c : Char} {text v : Text}

/-- White space in one of the two languages. -/
def isSpace (c : Char) : Bool := isWhitespaceKotlin c || Drive.isWhitespace c

theorem isSpace_of_rust (h : Drive.isWhitespace c = true) : isSpace c = true := by
  rw [isSpace, h, Bool.or_true]

/-! ## Texts -/

/-- Something is left of the text when Android trims it and Rust then does. -/
def Outlasts (text : Text) : Prop := trim (trimKotlin text) ≠ []

theorem Outlasts.trimKotlin_ne_nil (h : Outlasts text) : trimKotlin text ≠ [] := by
  intro hnil
  apply h
  rw [hnil]
  rfl

theorem trimKotlin_of_noSpace (h : ∀ c ∈ text, isSpace c = false) : trimKotlin text = text := by
  have hkotlin : ∀ c ∈ text, isWhitespaceKotlin c = false :=
    fun c hc => (Bool.or_eq_false_iff.mp (h c hc)).1
  exact Trim.trim_eq_self hkotlin

/-- Where Rust's trim leaves no white space, Android's trim before it does not matter. -/
theorem trim_trimKotlin_of_noSpace (h : ∀ c ∈ trim text, isSpace c = false) :
    trim (trimKotlin text) = trim text :=
  Trim.trim_trim_of_mem fun c hc => (Bool.or_eq_false_iff.mp (h c hc)).1

theorem mem_trimEndDots (hc : c ≠ '.') (h : c ∈ text) : c ∈ trimEndDots text := by
  have hsplit : trimEndDots text ++ text.rtakeWhile (· = '.') = text :=
    List.rdropWhile_append_rtakeWhile
  rw [← hsplit, List.mem_append] at h
  rcases h with h | h
  · exact h
  · exact absurd (by simpa using List.mem_rtakeWhile_imp h) hc

/-! ## Characters -/

theorem toNat_of_isSpace (h : isSpace c = true) :
    (9 ≤ c.toNat ∧ c.toNat ≤ 13) ∨ (0x1c ≤ c.toNat ∧ c.toNat ≤ 0x20) ∨ 0x85 ≤ c.toNat := by
  simp only [isSpace, isWhitespaceKotlin, Drive.isWhitespace, Bool.or_eq_true, Bool.and_eq_true,
    decide_eq_true_eq] at h
  omega

theorem toNat_of_isAlphanum (h : c.isAlphanum = true) :
    (48 ≤ c.toNat ∧ c.toNat ≤ 57) ∨ (65 ≤ c.toNat ∧ c.toNat ≤ 90) ∨
      (97 ≤ c.toNat ∧ c.toNat ≤ 122) := by
  have hcases : ((decide (65 ≤ c.val ∧ c.val ≤ 90) || (decide (97 ≤ c.val) && decide (c.val ≤ 122)))
      || (decide (48 ≤ c.val) && decide (c.val ≤ 57))) = true := h
  simp only [Bool.or_eq_true, Bool.and_eq_true, decide_eq_true_eq, UInt32.le_iff_toNat_le]
    at hcases
  show (48 ≤ c.val.toNat ∧ c.val.toNat ≤ 57) ∨ (65 ≤ c.val.toNat ∧ c.val.toNat ≤ 90) ∨
    (97 ≤ c.val.toNat ∧ c.val.toNat ≤ 122)
  rcases hcases with (hupper | hlower) | hdigit
  · exact .inr (.inl hupper)
  · exact .inr (.inr hlower)
  · exact .inl hdigit

theorem not_isLdh_of_isSpace (h : isSpace c = true) : isLdh c = false := by
  rw [← Bool.not_eq_true]
  intro hldh
  have hspace := toNat_of_isSpace h
  simp only [isLdh, Bool.or_eq_true, decide_eq_true_eq] at hldh
  rcases hldh with halnum | rfl
  · have := toNat_of_isAlphanum halnum
    omega
  · exact absurd h (by decide)

theorem toLower_of_isSpace (h : isSpace c = true) : c.toLower = c := by
  unfold Char.toLower
  rw [dif_neg]
  rintro ⟨hge, hle⟩
  have hspace := toNat_of_isSpace h
  have hge' : 65 ≤ c.toNat := UInt32.le_iff_toNat_le.mp hge
  have hle' : c.toNat ≤ 90 := UInt32.le_iff_toNat_le.mp hle
  omega

theorem toAsciiLowercase_of_isSpace (h : ∀ c ∈ v, isSpace c = true) : toAsciiLowercase v = v := by
  unfold toAsciiLowercase
  conv_rhs => rw [← List.map_id v]
  apply List.map_congr_left
  intro c hc
  exact toLower_of_isSpace (h c hc)

theorem ne_of_isSpace {a : Char} (h : isSpace c = true) (ha : isSpace a = false) : c ≠ a := by
  rintro rfl
  rw [h] at ha
  cases ha

/-! ## The host of a relay pattern -/

/-- What comes behind the scheme. -/
def noScheme (lower : Text) : Text :=
  ((stripPrefix "https://".toList lower).orElse
    fun _ => stripPrefix "http://".toList lower).getD lower

/-- The host of a pattern that has been trimmed. -/
def patternHost (trimmed : Text) : Text :=
  trimEndDots ((noScheme (toAsciiLowercase trimmed)).takeWhile (· ≠ '/'))

def HostRefused (host : Text) : Prop :=
  host = [] ∨ 253 < (utf8 host).length ∨
    ∃ label ∈ host.splitOn '.', Refuses (validateRelayUrlLabel host label)

theorem refuses_validateRelayUrlPattern {p : Text} :
    Refuses (validateRelayUrlPattern p) ↔ HostRefused (patternHost (trim p)) := by
  have hscheme : noScheme (toAsciiLowercase (trim p)) = [] → patternHost (trim p) = [] := by
    intro h
    rw [patternHost, h]
    rfl
  have hempty : trim p = [] → patternHost (trim p) = [] := by
    intro h
    rw [h]
    rfl
  simp only [validateRelayUrlPattern, refuses_seq, refuses_rejectIf, refuses_checkEach,
    List.isEmpty_iff, decide_eq_true_eq]
  constructor
  · rintro (h | h | h)
    · exact .inl (hempty h)
    · exact .inl (hscheme h)
    · exact h
  · intro h
    exact .inr (.inr h)

theorem mem_splitOn {text : Text} {sep : Char} (hc : c ≠ sep) (h : c ∈ text) :
    ∃ label ∈ text.splitOn sep, c ∈ label := by
  induction text with
  | nil => cases h
  | cons x xs ih =>
      unfold List.splitOn at ih ⊢
      rw [List.splitOnP_cons_eq_if_modifyHead]
      by_cases hx : x = sep
      · have hc' : c ∈ xs := (List.mem_cons.mp h).resolve_left fun hcx => hc (hcx.trans hx)
        obtain ⟨label, hlabel, hmem⟩ := ih hc'
        rw [if_pos (beq_iff_eq.mpr hx)]
        exact ⟨label, List.mem_cons_of_mem _ hlabel, hmem⟩
      · rw [if_neg (by simpa using hx)]
        cases hrest : xs.splitOnP (· == sep) with
        | nil => exact absurd hrest (List.splitOnP_ne_nil _ _)
        | cons label labels =>
            rw [hrest] at ih
            rw [List.modifyHead_cons]
            rcases List.mem_cons.mp h with rfl | hxs
            · exact ⟨c :: label, List.mem_cons_self, List.mem_cons_self⟩
            · obtain ⟨l, hl, hmem⟩ := ih hxs
              rcases List.mem_cons.mp hl with rfl | hl
              · exact ⟨x :: l, List.mem_cons_self, List.mem_cons_of_mem _ hmem⟩
              · exact ⟨l, List.mem_cons_of_mem _ hl, hmem⟩

/-- A host that is taken has letters, digits, hyphens and dots only. -/
theorem isLdh_of_not_refused {host : Text} (h : ¬HostRefused host) (hc : c ∈ host)
    (hdot : c ≠ '.') : isLdh c = true := by
  obtain ⟨label, hlabel, hmem⟩ := mem_splitOn hdot hc
  by_contra hldh
  rw [Bool.not_eq_true] at hldh
  apply h
  refine .inr (.inr ⟨label, hlabel, ?_⟩)
  simp only [validateRelayUrlLabel, refuses_seq, refuses_rejectIf, refuses_checkEach,
    Bool.not_eq_true']
  exact .inr (.inr (.inr ⟨c, hmem, hldh⟩))

theorem stripPrefix_append {start : Text} (hv : ∀ c ∈ v, c ∉ start) (l : Text) :
    stripPrefix start (l ++ v) = (stripPrefix start l).map (· ++ v) := by
  unfold stripPrefix
  by_cases hl : start.isPrefixOf l = true
  · have hbegin := List.isPrefixOf_iff_prefix.mp hl
    have hlv : start.isPrefixOf (l ++ v) = true :=
      List.isPrefixOf_iff_prefix.mpr (hbegin.trans (List.prefix_append l v))
    rw [if_pos hlv, if_pos hl, Option.map_some, List.drop_append_of_le_length hbegin.length_le]
  · have hlv : ¬start.isPrefixOf (l ++ v) = true := by
      intro h
      have hstart := List.isPrefixOf_iff_prefix.mp h
      rcases List.prefix_or_prefix_of_prefix hstart (List.prefix_append l v) with hsl | ⟨t, rfl⟩
      · exact hl (List.isPrefixOf_iff_prefix.mpr hsl)
      · cases t with
        | nil => exact hl (List.isPrefixOf_iff_prefix.mpr (by rw [List.append_nil]))
        | cons c t =>
            have ht := (List.prefix_append_right_inj l).mp hstart
            exact hv c (ht.mem List.mem_cons_self) (by simp)
    rw [if_neg hlv, if_neg hl]
    rfl

theorem not_isSpace_scheme {a : Char} (h : a ∈ "https://".toList ∨ a ∈ "http://".toList) :
    isSpace a = false := by
  have hall : ("https://".toList ++ "http://".toList).all (fun a => !isSpace a) = true := rfl
  simpa using List.all_eq_true.mp hall a (List.mem_append.mpr h)

theorem noScheme_append (hv : ∀ c ∈ v, isSpace c = true) (l : Text) :
    noScheme (l ++ v) = noScheme l ++ v := by
  have hhttps : ∀ c ∈ v, c ∉ "https://".toList :=
    fun c hc hmem => ne_of_isSpace (hv c hc) (not_isSpace_scheme (.inl hmem)) rfl
  have hhttp : ∀ c ∈ v, c ∉ "http://".toList :=
    fun c hc hmem => ne_of_isSpace (hv c hc) (not_isSpace_scheme (.inr hmem)) rfl
  unfold noScheme
  rw [stripPrefix_append hhttps, stripPrefix_append hhttp]
  cases stripPrefix "https://".toList l with
  | some rest => rfl
  | none => cases stripPrefix "http://".toList l <;> rfl

/-- White space behind a path is not part of the host. -/
theorem patternHost_append_of_path (hv : ∀ c ∈ v, isSpace c = true) {l : Text}
    (hpath : '/' ∈ noScheme (toAsciiLowercase l)) : patternHost (l ++ v) = patternHost l := by
  have hlower : toAsciiLowercase (l ++ v) = toAsciiLowercase l ++ v := by
    rw [toAsciiLowercase, List.map_append, ← toAsciiLowercase, ← toAsciiLowercase,
      toAsciiLowercase_of_isSpace hv]
  have hcut : ((noScheme (toAsciiLowercase l)).takeWhile (· ≠ '/')).length ≠
      (noScheme (toAsciiLowercase l)).length := by
    intro hlen
    have hall := (List.takeWhile_prefix _).eq_of_length hlen
    rw [← hall] at hpath
    have := List.mem_takeWhile_imp hpath
    simp at this
  rw [patternHost, hlower, noScheme_append hv, List.takeWhile_append, if_neg hcut, ← patternHost]

/-- White space behind a host is part of it, and refused. -/
theorem refused_append_of_noPath (hv : ∀ c ∈ v, isSpace c = true) (hne : v ≠ []) {l : Text}
    (hpath : '/' ∉ noScheme (toAsciiLowercase l)) : HostRefused (patternHost (l ++ v)) := by
  have hlower : toAsciiLowercase (l ++ v) = toAsciiLowercase l ++ v := by
    rw [toAsciiLowercase, List.map_append, ← toAsciiLowercase, ← toAsciiLowercase,
      toAsciiLowercase_of_isSpace hv]
  have hall : (noScheme (toAsciiLowercase l) ++ v).takeWhile (· ≠ '/') =
      noScheme (toAsciiLowercase l) ++ v := by
    rw [List.takeWhile_eq_self_iff]
    intro c hc
    rw [decide_eq_true_eq]
    rcases List.mem_append.mp hc with hc | hc
    · rintro rfl
      exact hpath hc
    · exact ne_of_isSpace (hv c hc) (by decide)
  obtain ⟨c, hc⟩ := List.exists_mem_of_ne_nil v hne
  by_contra hnot
  have hdot : c ≠ '.' := ne_of_isSpace (hv c hc) (by decide)
  have hmem : c ∈ patternHost (l ++ v) := by
    rw [patternHost, hlower, noScheme_append hv, hall]
    exact mem_trimEndDots hdot (List.mem_append_right _ hc)
  have hldh := isLdh_of_not_refused hnot hmem hdot
  rw [not_isLdh_of_isSpace (hv c hc)] at hldh
  cases hldh

/-- White space before a host is part of it, and refused. -/
theorem refused_cons (hc : isSpace c = true) (l : Text) : HostRefused (patternHost (c :: l)) := by
  have hstrip : ∀ start : Text, start.head? = some 'h' →
      stripPrefix start (c :: toAsciiLowercase l) = none := by
    intro start hstart
    unfold stripPrefix
    rw [if_neg]
    rw [List.isPrefixOf_iff_prefix]
    rintro hbegin
    cases start with
    | nil => cases hstart
    | cons a start =>
        cases hstart
        exact ne_of_isSpace hc (by decide) (List.cons_prefix_cons.mp hbegin).1.symm
  have hscheme : noScheme (toAsciiLowercase (c :: l)) = c :: toAsciiLowercase l := by
    rw [toAsciiLowercase, List.map_cons, toLower_of_isSpace hc, ← toAsciiLowercase, noScheme,
      hstrip _ (by decide), hstrip _ (by decide)]
    rfl
  have hslash : c ≠ '/' := ne_of_isSpace hc (by decide)
  have hdot : c ≠ '.' := ne_of_isSpace hc (by decide)
  by_contra hnot
  have hmem : c ∈ patternHost (c :: l) := by
    rw [patternHost, hscheme, List.takeWhile_cons_of_pos (by simpa using hslash)]
    exact mem_trimEndDots hdot List.mem_cons_self
  have hldh := isLdh_of_not_refused hnot hmem hdot
  rw [not_isLdh_of_isSpace hc] at hldh
  cases hldh

/-- What Rust makes of a pattern that Android has trimmed: around the part between the white space
of both languages, what is before it is gone, and what is behind it is white space. -/
theorem trim_trimKotlin_append {w₁ k z : Text} (hw₁ : ∀ c ∈ w₁, Drive.isWhitespace c = true)
    (hk : k ≠ []) (hhead : ∀ c ∈ k.head?, isSpace c = false)
    (hlast : ∀ c ∈ k.getLast?, isSpace c = false) :
    trim (trimKotlin (w₁ ++ k ++ z)) =
      k ++ (z.rdropWhile isWhitespaceKotlin).rdropWhile Drive.isWhitespace := by
  have hkotlin : trimKotlin (w₁ ++ k ++ z) =
      w₁.dropWhile isWhitespaceKotlin ++ k ++ z.rdropWhile isWhitespaceKotlin :=
    Trim.trim_append_append hk (fun c hc => (Bool.or_eq_false_iff.mp (hhead c hc)).1)
      (fun c hc => (Bool.or_eq_false_iff.mp (hlast c hc)).1)
  have hrust : trim (w₁.dropWhile isWhitespaceKotlin ++ k ++ z.rdropWhile isWhitespaceKotlin) =
      (w₁.dropWhile isWhitespaceKotlin).dropWhile Drive.isWhitespace ++ k ++
        (z.rdropWhile isWhitespaceKotlin).rdropWhile Drive.isWhitespace :=
    Trim.trim_append_append hk (fun c hc => (Bool.or_eq_false_iff.mp (hhead c hc)).2)
      (fun c hc => (Bool.or_eq_false_iff.mp (hlast c hc)).2)
  have hgone : (w₁.dropWhile isWhitespaceKotlin).dropWhile Drive.isWhitespace = [] := by
    rw [List.dropWhile_eq_nil_iff]
    intro c hc
    exact hw₁ c ((List.dropWhile_suffix _).mem hc)
  rw [hkotlin, hrust, hgone, List.nil_append]

/-- A pattern that Rust takes is taken as well after Android has trimmed it. -/
theorem not_refuses_pattern_trimKotlin {p : Text} (h : ¬Refuses (validateRelayUrlPattern p)) :
    ¬Refuses (validateRelayUrlPattern (trimKotlin p)) := by
  rw [refuses_validateRelayUrlPattern] at h ⊢
  obtain ⟨w₁, w₂, hw₁, hw₂, hp⟩ := Trim.exists_append_trim_append Drive.isWhitespace p
  obtain ⟨v, w, hv, hw, hs⟩ := Trim.exists_append_trim_append isSpace (trim p)
  have hhead := Trim.head?_trim (p := isSpace) (trim p)
  have hlast := Trim.getLast?_trim (p := isSpace) (trim p)
  -- what Rust leaves does not begin with white space
  have hstart : ∀ c rest, trim p = c :: rest → isSpace c = false := by
    intro c rest hcons
    rw [← Bool.not_eq_true]
    intro hc
    exact h (hcons ▸ refused_cons hc rest)
  have hv' : v = [] := by
    cases v with
    | nil => rfl
    | cons c v =>
        have hc := hstart c _ (by rw [← hs, List.cons_append, List.cons_append])
        rw [hv c List.mem_cons_self] at hc
        cases hc
  have hk : Trim.trim isSpace (trim p) ≠ [] := by
    intro hnil
    rw [hv', hnil, List.nil_append, List.nil_append] at hs
    cases hw' : w with
    | nil =>
        rw [← hs, hw'] at h
        exact h (.inl rfl)
    | cons c rest =>
        have hc := hstart c rest (by rw [← hs, hw'])
        rw [hw c (by rw [hw']; exact List.mem_cons_self)] at hc
        cases hc
  rw [hv', List.nil_append] at hs
  generalize Trim.trim isSpace (trim p) = k at *
  have hpk : p = w₁ ++ k ++ (w ++ w₂) := by
    have hp' : w₁ ++ trim p ++ w₂ = p := hp
    rw [← hp', ← hs]
    simp only [List.append_assoc]
  have hm := trim_trimKotlin_append (z := w ++ w₂) hw₁ hk hhead hlast
  rw [← hpk] at hm
  rw [hm]
  rw [← hs] at h
  by_cases hpath : '/' ∈ noScheme (toAsciiLowercase k)
  · have hz : ∀ c ∈ ((w ++ w₂).rdropWhile isWhitespaceKotlin).rdropWhile Drive.isWhitespace,
        isSpace c = true := by
      intro c hc
      have hc' := (List.rdropWhile_prefix _ _).mem ((List.rdropWhile_prefix _ _).mem hc)
      rcases List.mem_append.mp hc' with hc' | hc'
      · exact hw c hc'
      · exact isSpace_of_rust (hw₂ c hc')
    rw [patternHost_append_of_path hw hpath] at h
    rwa [patternHost_append_of_path hz hpath]
  · have hwnil : w = [] := by
      by_contra hne
      exact h (refused_append_of_noPath hw hne hpath)
    have hz : ((w ++ w₂).rdropWhile isWhitespaceKotlin).rdropWhile Drive.isWhitespace = [] := by
      rw [List.rdropWhile_eq_nil_iff]
      intro c hc
      rw [hwnil, List.nil_append] at hc
      exact hw₂ c ((List.rdropWhile_prefix _ _).mem hc)
    rw [hz]
    rwa [hwnil] at h

end Rahgozar.Settings
