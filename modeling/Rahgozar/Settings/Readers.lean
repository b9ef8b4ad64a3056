import Rahgozar.Settings.Android

set_option autoImplicit false

/-! # The two readers

Where serde takes a value, `org.json` reads the same: for every kind of field, what Android makes of
a key is said in terms of what Rust has read from it. A key that is missing has each reader's own
default. A `null` where Rust allows one, and an array where Rust also takes it for a struct, are the
values on which the two disagree; they are hypotheses here.
-/

namespace Rahgozar.Settings

open Json
open Drive (splitOnce)
open Distinct
open Rahgozar.Config (trimKotlin isBlank isWhitespaceKotlin)

variable {org : OrgJson} {o : Object} {key : String}

/-! ## Texts, numbers and flags -/

theorem optString_of_field {s missing fallback : Text} (h : field o key asString missing = some s) :
    optString org o key fallback = if (o.lookup key).isSome then s else fallback := by
  unfold field at h
  unfold optString
  cases hv : o.lookup key with
  | none => simp
  | some v =>
      rw [hv] at h
      rw [asString_eq_some.mp h]
      rfl

/-- Both readers have the same default. -/
theorem optString_eq {s missing : Text} (h : field o key asString missing = some s) :
    optString org o key missing = s := by
  rw [optString_of_field h]
  by_cases hv : (o.lookup key).isSome
  · rw [if_pos hv]
  · have hnone : o.lookup key = none := Option.not_isSome_iff_eq_none.mp hv
    rw [if_neg hv]
    rw [field, hnone] at h
    exact Option.some.inj h

theorem optString_of_required {s : Text} (h : required o key asString = some s)
    (fallback : Text) : optString org o key fallback = s := by
  obtain ⟨v, hv, hs⟩ := Option.bind_eq_some_iff.mp h
  rw [optString, hv, asString_eq_some.mp hs]
  rfl

theorem intValue_of_lt {n : Nat} (h : n < 2 ^ 31) : intValue n = n := by
  unfold intValue
  omega

/-- A number that fits `Int` is read as it is. -/
theorem optInt_of_field {bits n missing : Nat} {fallback : Int}
    (h : field o key (asUnsigned bits) missing = some n) (hn : n < 2 ^ 31) :
    optInt org o key fallback = if (o.lookup key).isSome then (n : Int) else fallback := by
  unfold field at h
  unfold optInt
  cases hv : o.lookup key with
  | none => simp
  | some v =>
      rw [hv] at h
      rw [(asUnsigned_eq_some.mp h).1]
      have hrange : -2 ^ 63 ≤ (n : Int) ∧ (n : Int) < 2 ^ 63 := by omega
      show (if -2 ^ 63 ≤ (n : Int) ∧ (n : Int) < 2 ^ 63 then intValue n else _) = (n : Int)
      rw [if_pos hrange, intValue_of_lt hn]

theorem optInt_eq {bits n missing : Nat} (h : field o key (asUnsigned bits) missing = some n)
    (hn : n < 2 ^ 31) : optInt org o key missing = n := by
  rw [optInt_of_field h hn]
  by_cases hv : (o.lookup key).isSome
  · rw [if_pos hv]
  · have hnone : o.lookup key = none := Option.not_isSome_iff_eq_none.mp hv
    rw [field, hnone] at h
    rw [if_neg hv, Option.some.inj h]

theorem lt_of_field {bits n missing : Nat} (h : field o key (asUnsigned bits) missing = some n)
    (hmissing : missing < 2 ^ bits) : n < 2 ^ bits := by
  unfold field at h
  cases hv : o.lookup key with
  | none =>
      rw [hv] at h
      exact Option.some.inj h ▸ hmissing
  | some v =>
      rw [hv] at h
      exact (asUnsigned_eq_some.mp h).2

theorem optBoolean_eq {b missing : Bool} (h : field o key asBool missing = some b) :
    optBoolean org o key missing = b := by
  unfold field at h
  unfold optBoolean
  cases hv : o.lookup key with
  | none =>
      rw [hv] at h
      exact Option.some.inj h
  | some v =>
      rw [hv] at h
      rw [asBool_eq_some.mp h]

/-! ## Lists of texts -/

theorem map_asText_str (l : List Text) : (l.map .str).map (asText org) = l := by
  rw [List.map_map]
  exact List.map_id' l

theorem optTexts_of_lookup {l : List Text} (h : o.lookup key = some (.arr (l.map .str))) :
    optTexts org o key = l := by
  rw [optTexts, optJSONArray, h]
  exact map_asText_str l

theorem optTexts_of_none (h : o.lookup key = none) : optTexts org o key = [] := by
  rw [optTexts, optJSONArray, h]
  rfl

theorem optTexts_of_field {l : List Text} (h : field o key (asVec asString) [] = some l) :
    optTexts org o key = l := by
  unfold field at h
  cases hv : o.lookup key with
  | none =>
      rw [hv] at h
      rw [optTexts_of_none hv, Option.some.inj h]
  | some v =>
      rw [hv] at h
      exact optTexts_of_lookup (hv.trans (congrArg some (asTexts_eq_some.mp h)))

theorem optTexts_of_required {l : List Text} (h : required o key (asVec asString) = some l) :
    optTexts org o key = l := by
  obtain ⟨v, hv, hl⟩ := Option.bind_eq_some_iff.mp h
  exact optTexts_of_lookup (hv.trans (congrArg some (asTexts_eq_some.mp hl)))

theorem optTexts_of_option {l : Option (List Text)}
    (h : field o key (asOption (asVec asString)) none = some l) :
    optTexts org o key = l.getD [] := by
  unfold field at h
  cases hv : o.lookup key with
  | none =>
      rw [hv] at h
      rw [optTexts_of_none hv, ← Option.some.inj h]
      rfl
  | some v =>
      rw [hv] at h
      by_cases hnull : v = .null
      · subst hnull
        rw [optTexts, optJSONArray, hv, ← Option.some.inj h]
        rfl
      · obtain ⟨texts, htexts, rfl⟩ :=
          Option.map_eq_some_iff.mp ((asOption_of_ne_null hnull).symm.trans h)
        exact optTexts_of_lookup (hv.trans (congrArg some (asTexts_eq_some.mp htexts)))

/-! ## Deployment IDs -/

def deployment (e : ScriptIdEntry) : DeploymentEntry := ⟨e.id, e.enabled⟩

theorem readScriptIdElement_eq {v : Json} {e : ScriptIdEntry} (h : scriptIdEntry v = some e) :
    readScriptIdElement org v = if isBlank e.id then none else some (deployment e) := by
  cases v with
  | str id =>
      cases h
      rfl
  | obj elem =>
      obtain ⟨hid, henabled⟩ := scriptIdEntry_iff.mp h
      show (if isBlank (optString org elem "id" []) then none
        else some (DeploymentEntry.mk (optString org elem "id" [])
          (optBoolean org elem "enabled" true))) = _
      rw [optString_of_required hid, optBoolean_eq henabled]
      rfl
  | _ => cases h

theorem filterMap_readScriptIdElement {items : List Json} {entries : List ScriptIdEntry}
    (h : List.Forall₂ (fun v e => scriptIdEntry v = some e) items entries) :
    items.filterMap (readScriptIdElement org) =
      (entries.filter fun e => !isBlank e.id).map deployment := by
  induction h with
  | nil => rfl
  | @cons v e items entries hv hrest ih =>
      have hread : readScriptIdElement org v = _ :=
        readScriptIdElement_eq hv
      by_cases hblank : isBlank e.id = true
      · rw [if_pos hblank] at hread
        rw [List.filterMap_cons_none hread, ih, List.filter_cons_of_neg (by simp [hblank])]
      · rw [if_neg hblank] at hread
        rw [List.filterMap_cons_some hread, ih, List.filter_cons_of_pos (by simp [hblank]),
          List.map_cons]

theorem readScriptIdList_eq {entries : Option (List ScriptIdEntry)}
    (h : field o key (asOption scriptId) none = some entries)
    (hnull : o.lookup key ≠ some .null) :
    readScriptIdList org o key =
      ((entries.getD []).filter fun e => !isBlank e.id).map deployment := by
  unfold field at h
  unfold readScriptIdList optJSONArray
  cases hv : o.lookup key with
  | none =>
      rw [hv] at h
      rw [← Option.some.inj h]
      rfl
  | some v =>
      rw [hv] at h hnull
      cases v with
      | null => exact absurd rfl hnull
      | str id =>
          rw [← Option.some.inj h]
          simp only [optString, hv, asText]
          by_cases hblank : isBlank id = true <;> simp [hblank, deployment]
      | arr items =>
          obtain ⟨l, hl, rfl⟩ := Option.map_eq_some_iff.mp h
          exact filterMap_readScriptIdElement (Traverse.mapM_eq_some.mp hl)
      | _ => cases h

/-- `split_once` finds what the text contains. -/
theorem splitOnce_isSome_iff {sep text : Text} :
    (splitOnce sep text).isSome = true ↔ sep <:+: text := by
  induction text with
  | nil =>
      unfold splitOnce
      cases sep <;> simp
  | cons x rest ih =>
      unfold splitOnce
      rw [List.infix_cons_iff, ← ih]
      by_cases hstarts : sep.isPrefixOf (x :: rest) = true
      · simp [hstarts, List.isPrefixOf_iff_prefix.mp hstarts]
      · have hnot : ¬sep <+: x :: rest := fun h => hstarts (List.isPrefixOf_iff_prefix.mpr h)
        simp [hstarts, hnot]

/-- The path before the ID in the URL of a deployment. -/
def idMarker : Text := "/macros/s/".toList

theorem splitOnce_trimKotlin {text : Text} (h : ¬idMarker <:+: text) :
    splitOnce idMarker (trimKotlin text) = none := by
  rw [← Option.not_isSome_iff_eq_none, splitOnce_isSome_iff]
  intro hwithin
  obtain ⟨v, w, -, -, htext⟩ := Trim.exists_append_trim_append isWhitespaceKotlin text
  exact h (hwithin.trans ⟨v, w, htext⟩)

/-- What comes before a slash and before a question mark, trimmed. -/
def bareId (text : Text) : Text :=
  trimKotlin (text.takeWhile fun c => c ≠ '/' && c ≠ '?')

theorem bareId_trimKotlin (text : Text) : bareId (trimKotlin text) = bareId text := by
  apply Trim.trim_takeWhile_trim
  intro c hc
  have hslash : c ≠ '/' := by
    rintro rfl
    exact absurd hc (by decide)
  have hquery : c ≠ '?' := by
    rintro rfl
    exact absurd hc (by decide)
  simp [hslash, hquery]

theorem takeWhile_slash_query (text : Text) :
    (text.takeWhile (· ≠ '/')).takeWhile (· ≠ '?') =
      text.takeWhile fun c => c ≠ '/' && c ≠ '?' := by
  rw [List.takeWhile_takeWhile]
  congr 1
  funext c
  simp [and_comm]

/-- Of a text that is no URL of a deployment, the ID is what comes before a slash. -/
theorem extractId_eq_bareId {text : Text} (h : ¬idMarker <:+: text) :
    extractId text = bareId text := by
  have hsplit := splitOnce_trimKotlin h
  unfold idMarker at hsplit
  simp only [extractId, hsplit]
  rw [takeWhile_slash_query, ← bareId, bareId_trimKotlin]

theorem splitOnce_deploymentUrl (id : Text) :
    splitOnce idMarker (deploymentUrl id) =
      some ("https://script.google.com".toList, id ++ "/exec".toList) := by
  unfold idMarker deploymentUrl
  simp [splitOnce, List.isPrefixOf]

theorem trimKotlin_deploymentUrl (id : Text) :
    trimKotlin (deploymentUrl id) = deploymentUrl id := by
  have hlast : deploymentUrl id = 'h' :: ("ttps://script.google.com/macros/s/".toList ++ id ++
      "/exe".toList) ++ ['c'] := by
    unfold deploymentUrl
    simp
  rw [trimKotlin, Trim.trim, hlast, List.cons_append, List.dropWhile_cons_of_neg (by decide),
    ← List.cons_append, List.rdropWhile_concat_neg _ _ _ (by decide)]

theorem extractId_deploymentUrl (id : Text) : extractId (deploymentUrl id) = bareId id := by
  have hsplit := splitOnce_deploymentUrl id
  unfold idMarker at hsplit
  have hcut : (id ++ "/exec".toList).takeWhile (· ≠ '/') = id.takeWhile (· ≠ '/') := by
    rw [List.takeWhile_append]
    split_ifs with hall
    · rw [(List.takeWhile_prefix _).eq_of_length hall]
      simp
    · rfl
  simp only [extractId, trimKotlin_deploymentUrl, hsplit]
  rw [hcut, takeWhile_slash_query, ← bareId]

theorem extractId_of_isBlank {id : Text} (h : isBlank id = true) : extractId id = [] := by
  have hnil : trimKotlin id = [] := Trim.trim_eq_nil_iff.mpr (List.all_eq_true.mp h)
  unfold extractId
  rw [hnil]
  rfl

/-- An entry with its ID reduced to what `extractId` makes of it. -/
def ScriptIdEntry.reduced (e : ScriptIdEntry) : ScriptIdEntry := { e with id := extractId e.id }

/-- The entries with their IDs reduced; those of which nothing is left are dropped. -/
def Config.reducedEntries (c : Config) : List ScriptIdEntry :=
  (c.scriptIdEntries.map (·.reduced)).filter fun e => !e.id.isEmpty

/-- What Android reads from the two keys. -/
structure Config.ReadsDeployments (o : Object) (c : Config) : Prop where
  scriptId : o.lookup "script_id" ≠ some .null
  scriptIds : o.lookup "script_ids" ≠ some .null
  /-- no full URL of a deployment in place of an ID -/
  ids : ∀ e ∈ c.scriptIdEntries, ¬idMarker <:+: e.id

section

variable {c : Config}

theorem readDeployments_eq (h : c.ReadFrom o) (hread : c.ReadsDeployments o) :
    readDeployments org o = (c.scriptIdEntries.filter fun e => !isBlank e.id).map
      fun e => ⟨deploymentUrl e.id, e.enabled⟩ := by
  unfold readDeployments
  rw [readScriptIdList_eq h.scriptId hread.scriptId,
    readScriptIdList_eq h.scriptIds hread.scriptIds]
  simp only [← List.map_append, ← List.filter_append]
  rw [List.filter_map, List.filter_filter, firstOfEach_map, List.map_map]
  show ((firstOfEach (fun e : ScriptIdEntry => e.id) _).map _) = _
  simp only [Function.comp_def, deployment, Bool.and_self]
  rw [← filter_firstOfEach (fun x y hxy => by rw [hxy])]
  rfl

/-- The entries `toJson` writes are the reduced ones. -/
theorem entries_readDeployments (h : c.ReadFrom o) (hread : c.ReadsDeployments o) :
    ((readDeployments org o).map fun e => DeploymentEntry.mk (extractId e.url) e.enabled) =
      (c.scriptIdEntries.filter fun e => !isBlank e.id).map fun e => deployment e.reduced := by
  rw [readDeployments_eq h hread, List.map_map]
  apply List.map_congr_left
  intro e he
  have hid : extractId (deploymentUrl e.id) = extractId e.id := by
    rw [extractId_deploymentUrl, extractId_eq_bareId (hread.ids e (List.mem_of_mem_filter he))]
  rw [Function.comp_apply, hid]
  rfl

theorem filter_entries_readDeployments (h : c.ReadFrom o) (hread : c.ReadsDeployments o) :
    ((readDeployments org o).map fun e => DeploymentEntry.mk (extractId e.url) e.enabled).filter
      (fun e => !e.url.isEmpty) = c.reducedEntries.map deployment := by
  rw [entries_readDeployments h hread, Config.reducedEntries, List.filter_map, List.filter_filter,
    List.filter_map, List.map_map]
  have hkept : ∀ e ∈ c.scriptIdEntries,
      (!(deployment e.reduced).url.isEmpty && !isBlank e.id) = !e.reduced.id.isEmpty := by
    intro e _
    show (!(extractId e.id).isEmpty && !isBlank e.id) = !(extractId e.id).isEmpty
    by_cases hblank : isBlank e.id = true
    · rw [extractId_of_isBlank hblank]
      rfl
    · rw [Bool.not_eq_true] at hblank
      rw [hblank, Bool.not_false, Bool.and_true]
  have hfilter := List.filter_congr hkept
  simp only [Function.comp_def]
  rw [hfilter]

end

/-! ## Fronting groups and the Drive part -/

/-- Trimmed, without the empty ones. -/
def trimmedTexts (texts : List Text) : List Text :=
  (texts.map trimKotlin).filter fun t => !t.isEmpty

def FrontingGroup.trimmed (g : FrontingGroup) : FrontingGroup :=
  { g with
    name := trimKotlin g.name
    ip := trimKotlin g.ip
    sni := trimKotlin g.sni
    domains := trimmedTexts g.domains
    verifyNames := trimmedTexts g.verifyNames }

/-- Android keeps the group. -/
structure FrontingGroup.IsFull (g : FrontingGroup) : Prop where
  name : g.name ≠ []
  ip : g.forceIp = false → g.ip ≠ []
  sni : g.sni ≠ []
  domains : g.domains ≠ []

theorem readFrontingGroup_eq {v : Json} {g : FrontingGroup} (h : frontingGroup v = some g)
    (hv : ∀ xs, v ≠ .arr xs) (hfull : g.trimmed.IsFull) :
    readFrontingGroup org v = some g.trimmed := by
  cases v with
  | obj o =>
      have hread := frontingGroup_iff.mp h
      have hdomains : groupTexts org o "domains" = g.trimmed.domains := by
        rw [groupTexts, optTexts_of_required hread.domains]
        rfl
      have hverify : groupTexts org o "verify_names" = g.trimmed.verifyNames := by
        rw [groupTexts, optTexts_of_field hread.verifyNames]
        rfl
      have hkept : ¬((trimKotlin g.name).isEmpty || (!g.forceIp && (trimKotlin g.ip).isEmpty) ||
          (trimKotlin g.sni).isEmpty || g.trimmed.domains.isEmpty) = true := by
        simp only [Bool.or_eq_true, Bool.and_eq_true, Bool.not_eq_true', List.isEmpty_iff]
        rintro (((hname | ⟨hpinned, hip⟩) | hsni) | hdomains)
        · exact hfull.name hname
        · exact hfull.ip hpinned hip
        · exact hfull.sni hsni
        · exact hfull.domains hdomains
      simp only [readFrontingGroup, optString_of_required hread.name, optString_eq hread.ip,
        optString_of_required hread.sni, optBoolean_eq hread.forceIp, hdomains, hverify]
      rw [if_neg hkept]
      rfl
  | arr xs => exact absurd rfl (hv xs)
  | _ => cases h

theorem filterMap_readFrontingGroup {items : List Json} {groups : List FrontingGroup}
    (h : List.Forall₂ (fun v g => frontingGroup v = some g) items groups)
    (hitems : ∀ v ∈ items, ∀ xs, v ≠ .arr xs) (hfull : ∀ g ∈ groups, g.trimmed.IsFull) :
    items.filterMap (readFrontingGroup org) = groups.map (·.trimmed) := by
  induction h with
  | nil => rfl
  | @cons v g items groups hv hrest ih =>
      have hread : readFrontingGroup org v = _ :=
        readFrontingGroup_eq hv (hitems v List.mem_cons_self) (hfull g List.mem_cons_self)
      rw [List.filterMap_cons_some hread, ih (fun v hv => hitems v (List.mem_cons_of_mem _ hv))
        (fun g hg => hfull g (List.mem_cons_of_mem _ hg)), List.map_cons]

/-- No struct of the list is written as an array. -/
def NoArrays (o : Object) (key : String) : Prop :=
  ∀ items, o.lookup key = some (.arr items) → ∀ v ∈ items, ∀ xs, v ≠ .arr xs

theorem readFrontingGroups_eq {groups : List FrontingGroup}
    (h : field o "fronting_groups" (asVec frontingGroup) [] = some groups)
    (harrays : NoArrays o "fronting_groups") (hfull : ∀ g ∈ groups, g.trimmed.IsFull) :
    ((optJSONArray o "fronting_groups").getD []).filterMap (readFrontingGroup org) =
      groups.map (·.trimmed) := by
  unfold field at h
  unfold optJSONArray
  cases hv : o.lookup "fronting_groups" with
  | none =>
      rw [hv] at h
      rw [← Option.some.inj h]
      rfl
  | some v =>
      rw [hv] at h
      obtain ⟨items, rfl, hitems⟩ := asVec_eq_some.mp h
      exact filterMap_readFrontingGroup (Traverse.mapM_eq_some.mp hitems) (harrays items hv) hfull

/-- What Android reads from `drive`. -/
theorem driveText_eq {d : DriveConfig} (get : DriveConfig → Text)
    (h : field o "drive" driveConfig .default = some d)
    (harray : ∀ xs, o.lookup "drive" ≠ some (.arr xs)) (hdefault : get .default = [])
    (hget : ∀ fields, d.ReadFrom fields → field fields key asString [] = some (get d)) :
    driveText org (optJSONObject o "drive") key = trimKotlin (get d) := by
  unfold field at h
  unfold driveText optJSONObject
  cases hv : o.lookup "drive" with
  | none =>
      rw [hv] at h
      rw [← Option.some.inj h, hdefault]
      rfl
  | some v =>
      rw [hv] at h
      cases v with
      | obj fields =>
          have hread : optString org fields key [] = get d :=
            optString_eq (hget fields (driveConfig_iff.mp h))
          show trimKotlin (optString org fields key []) = trimKotlin (get d)
          rw [hread]
      | arr xs => exact absurd hv (harray xs)
      | _ => cases h

theorem driveInt_eq {d : DriveConfig} (get : DriveConfig → Nat) {bits missing : Nat}
    (h : field o "drive" driveConfig .default = some d)
    (harray : ∀ xs, o.lookup "drive" ≠ some (.arr xs)) (hdefault : get .default = missing)
    (hget : ∀ fields, d.ReadFrom fields →
      field fields key (asUnsigned bits) missing = some (get d)) (hlt : get d < 2 ^ 31) :
    driveInt org (optJSONObject o "drive") key missing = get d := by
  unfold field at h
  unfold driveInt optJSONObject
  cases hv : o.lookup "drive" with
  | none =>
      rw [hv] at h
      rw [← Option.some.inj h, hdefault]
      rfl
  | some v =>
      rw [hv] at h
      cases v with
      | obj fields => exact optInt_eq (hget fields (driveConfig_iff.mp h)) hlt
      | arr xs => exact absurd hv (harray xs)
      | _ => cases h

end Rahgozar.Settings
