import Mathlib.Data.Bool.AllAny
import Rahgozar.Lib.Base64
import Rahgozar.Settings.Shared

set_option autoImplicit false

/-! # The deployments of a share

What is shared of a row has the ID that `toJson` takes from it; but a row of which `toJson` takes no
ID is shared as well. With the settings this says exactly when a share gives back what is saved.
-/

namespace Rahgozar.Settings

open Drive (splitOnce utf8)
open Distinct
open Rahgozar.Config (trimKotlin isBlank isWhitespaceKotlin)

variable {org : OrgJson} {key : String}

/-! ## Deployment IDs -/

theorem splitOnce_append_left {sep v : Text} {x : Char} (hv : x ∉ v) (l : Text) :
    splitOnce (x :: sep) (v ++ l) =
      (splitOnce (x :: sep) l).map fun p => (v ++ p.1, p.2) := by
  induction v with
  | nil => simp
  | cons y v ih =>
      obtain ⟨hne, hv⟩ := not_or.mp (List.mem_cons.not.mp hv)
      have hbegin : (x :: sep).isPrefixOf (y :: (v ++ l)) = false := by
        simp [List.isPrefixOf, hne]
      rw [List.cons_append, splitOnce, hbegin, if_neg Bool.false_ne_true, ih hv, Option.map_map]
      rfl

/-- A prefix that has nothing of what stands behind ends before it. -/
theorem prefix_append_iff {sep l w : Text} (hw : ∀ c ∈ w, c ∉ sep) :
    sep <+: l ++ w ↔ sep <+: l := by
  refine ⟨fun h => ?_, fun h => h.trans (List.prefix_append l w)⟩
  rcases List.prefix_or_prefix_of_prefix h (List.prefix_append l w) with hl | ⟨t, ht⟩
  · exact hl
  · subst ht
    have htw : t <+: w := (List.prefix_append_right_inj l).mp h
    cases t with
    | nil => exact (List.append_nil l).symm ▸ List.prefix_refl l
    | cons c t => exact absurd (by simp) (hw c (htw.subset List.mem_cons_self))

/-- Nor does it matter to what comes before a separator. -/
theorem splitOnce_append_right {sep w : Text} (hsep : sep ≠ []) (hw : ∀ c ∈ w, c ∉ sep) (l : Text) :
    splitOnce sep (l ++ w) = (splitOnce sep l).map fun p => (p.1, p.2 ++ w) := by
  induction l with
  | nil =>
      have hnone : splitOnce sep w = none := by
        rw [← Option.not_isSome_iff_eq_none, splitOnce_isSome_iff]
        intro hwithin
        obtain ⟨c, hc⟩ := List.exists_mem_of_ne_nil sep hsep
        exact hw c (hwithin.subset hc) hc
      rw [List.nil_append, hnone, splitOnce, if_neg (by simpa using hsep)]
      rfl
  | cons y l ih =>
      rw [List.cons_append, splitOnce, splitOnce, ← List.cons_append]
      by_cases hbegin : sep <+: y :: l
      · rw [if_pos (List.isPrefixOf_iff_prefix.mpr ((prefix_append_iff hw).mpr hbegin)),
          if_pos (List.isPrefixOf_iff_prefix.mpr hbegin),
          List.drop_append_of_le_length hbegin.length_le]
        rfl
      · rw [if_neg fun h => hbegin ((prefix_append_iff hw).mp (List.isPrefixOf_iff_prefix.mp h)),
          if_neg fun h => hbegin (List.isPrefixOf_iff_prefix.mp h), ih, Option.map_map,
          Option.map_map]
        rfl

/-- What is behind the marker of a deployment URL, or the whole text. -/
def afterMarker (raw : Text) : Text := ((splitOnce idMarker raw).map (·.2)).getD raw

theorem extractId_eq (raw : Text) : extractId raw = bareId (afterMarker (trimKotlin raw)) := by
  rw [bareId, ← takeWhile_slash_query]
  unfold extractId afterMarker idMarker
  cases hsplit : splitOnce "/macros/s/".toList (trimKotlin raw) with
  | none => simp only [hsplit, Option.map_none, Option.getD_none]
  | some p => simp only [hsplit, Option.map_some, Option.getD_some]

/-- The white space around a text goes with the parts. -/
theorem bareId_afterMarker_trimKotlin (raw : Text) :
    bareId (afterMarker (trimKotlin raw)) = bareId (afterMarker raw) := by
  obtain ⟨v, w, hv, hw, hraw⟩ := Trim.exists_append_trim_append isWhitespaceKotlin raw
  have hmarker : ∀ c, isWhitespaceKotlin c = true → c ∉ idMarker := by
    intro c hc hmem
    have hall : ∀ a ∈ idMarker, isWhitespaceKotlin a = false :=
      List.all_iff_forall_prop.mp (by decide)
    exact absurd ((hall c hmem).symm.trans hc) Bool.false_ne_true
  have hsplit : splitOnce idMarker raw =
      (splitOnce idMarker (trimKotlin raw)).map fun p => (v ++ p.1, p.2 ++ w) := by
    have hslash : '/' ∉ v := fun h => hmarker '/' (hv '/' h) (by decide)
    calc splitOnce idMarker raw
      _ = splitOnce idMarker (v ++ trimKotlin raw ++ w) := congrArg _ hraw.symm
      _ = (splitOnce idMarker (v ++ trimKotlin raw)).map fun p => (p.1, p.2 ++ w) :=
        splitOnce_append_right (by decide) (fun c hc => hmarker c (hw c hc)) _
      _ = (splitOnce idMarker (trimKotlin raw)).map fun p => (v ++ p.1, p.2 ++ w) := by
        rw [show idMarker = '/' :: "macros/s/".toList from rfl, splitOnce_append_left hslash,
          Option.map_map]
        rfl
  unfold afterMarker
  rw [hsplit]
  cases splitOnce idMarker (trimKotlin raw) with
  | none => exact bareId_trimKotlin raw
  | some p =>
      show bareId p.2 = bareId (p.2 ++ w)
      rw [← bareId_trimKotlin p.2, ← bareId_trimKotlin (p.2 ++ w), trimKotlin, trimKotlin,
        Trim.trim_append_of_all hw]

/-- What is shared of a row has the ID that `toJson` takes from it. -/
theorem bareId_shareId (raw : Text) : bareId (shareId raw) = extractId raw := by
  rw [extractId_eq, bareId_afterMarker_trimKotlin]
  unfold shareId afterMarker idMarker
  cases splitOnce "/macros/s/".toList raw with
  | none => exact bareId_trimKotlin raw
  | some p =>
      show bareId (trimKotlin (p.2.takeWhile (· ≠ '/'))) = bareId p.2
      rw [bareId_trimKotlin, bareId, bareId, ← takeWhile_slash_query, ← takeWhile_slash_query,
        List.takeWhile_idem]

theorem bareId_idem (text : Text) : bareId (bareId text) = bareId text := by
  calc bareId (bareId text)
    _ = bareId (text.takeWhile fun c => c ≠ '/' && c ≠ '?') := bareId_trimKotlin _
    _ = bareId text := by rw [bareId, List.takeWhile_idem, ← bareId]

theorem bareId_extractId (raw : Text) : bareId (extractId raw) = extractId raw := by
  rw [extractId_eq, bareId_idem]

/-! ## Rows -/

/-- The entry with what `extractId` makes of its URL. -/
def DeploymentEntry.extracted (e : DeploymentEntry) : DeploymentEntry :=
  { e with url := extractId e.url }

/-- The entry with what `extractId` makes of a URL of its ID. -/
def DeploymentEntry.bare (e : DeploymentEntry) : DeploymentEntry := { e with url := bareId e.url }

/-- The deployments of an object by their IDs, before repeats are merged. -/
def readIds (org : OrgJson) (o : Object) : List DeploymentEntry :=
  ((readScriptIdList org o "script_id" ++ readScriptIdList org o "script_ids").filter
    fun e => !isBlank e.url).map (·.bare)

theorem rows_loadFromJson (org : OrgJson) (o : Object) :
    (loadFromJson org o).rows = firstOfEach (·.url) (readIds org o) := by
  unfold RahgozarConfig.rows readIds
  show firstOfEach (·.url) ((readDeployments org o).map (·.extracted)) = _
  have hbare : ∀ e : DeploymentEntry,
      (DeploymentEntry.mk (deploymentUrl e.url) e.enabled).extracted = e.bare := by
    intro e
    rw [DeploymentEntry.extracted, extractId_deploymentUrl]
    rfl
  simp only [readDeployments, List.map_map, Function.comp_def, hbare]
  rw [firstOfEach_map, firstOfEach_map, firstOfEach_firstOfEach]
  intro x y hxy
  exact congrArg bareId hxy

theorem isBlank_trimKotlin {text : Text} (h : trimKotlin text ≠ []) :
    isBlank (trimKotlin text) = false := by
  rw [Bool.eq_false_iff]
  intro hblank
  rw [← trimKotlin_eq_nil_iff, trimKotlin_idem] at hblank
  exact h hblank

/-- Entries that are not blank are read as they were put. -/
theorem readScriptIdList_putEntries {o : Object} {entries : List DeploymentEntry}
    (hentries : ∀ e ∈ entries, isBlank e.url = false) (h : o.lookup key = putEntries entries) :
    readScriptIdList org o key = entries := by
  have hread : ∀ json : DeploymentEntry → Json,
      (∀ e ∈ entries, readScriptIdElement org (json e) = some e) →
      (entries.map json).filterMap (readScriptIdElement org) = entries := by
    intro json hjson
    rw [List.filterMap_map]
    exact (List.filterMap_congr hjson).trans List.filterMap_some
  unfold readScriptIdList optJSONArray
  rw [h]
  unfold putEntries
  by_cases hempty : entries.isEmpty = true
  · rw [if_pos hempty, List.isEmpty_iff.mp hempty]
    rfl
  · rw [if_neg hempty]
    by_cases hall : (entries.all (·.enabled)) = true
    · rw [if_pos hall]
      apply hread
      intro e he
      have henabled : e.enabled = true := List.all_eq_true.mp hall e he
      show (if isBlank e.url then none else some (DeploymentEntry.mk e.url true)) = some e
      rw [if_neg (by simp [hentries e he]), ← henabled]
    · rw [if_neg hall]
      apply hread
      intro e he
      show (if isBlank e.url then none else some (DeploymentEntry.mk e.url e.enabled)) = some e
      rw [if_neg (by simp [hentries e he])]

namespace FormConfig

variable {c : FormConfig}

/-- The rows that are shared, by their IDs. -/
def sharedRows (c : FormConfig) : List DeploymentEntry :=
  (c.appsScriptUrls.filter fun e => !(shareId e.url).isEmpty).map (·.extracted)

/-- The rows that are saved. -/
def savedRows (c : FormConfig) : List DeploymentEntry :=
  (c.appsScriptUrls.map (·.extracted)).filter fun e => !e.url.isEmpty

theorem savedRows_eq (c : FormConfig) :
    c.savedRows = c.sharedRows.filter fun e => !e.url.isEmpty := by
  unfold savedRows sharedRows
  rw [List.filter_map, List.filter_map, List.filter_filter]
  congr 1
  apply List.filter_congr
  intro e _
  show (!(extractId e.url).isEmpty) = (!(extractId e.url).isEmpty && !(shareId e.url).isEmpty)
  by_cases hid : shareId e.url = []
  · have hnil : extractId e.url = [] := by
      rw [← bareId_shareId, hid]
      rfl
    simp [hid, hnil]
  · simp [hid]

theorem not_isBlank_shareId {raw : Text} (h : shareId raw ≠ []) :
    isBlank (shareId raw) = false := by
  unfold shareId at h ⊢
  cases hsplit : splitOnce "/macros/s/".toList raw with
  | none =>
      simp only [hsplit] at h ⊢
      exact isBlank_trimKotlin h
  | some p =>
      simp only [hsplit] at h ⊢
      exact isBlank_trimKotlin h

theorem not_isBlank_of_mem_shareEntries {urls : List DeploymentEntry} {e : DeploymentEntry}
    (h : e ∈ shareEntries urls) : isBlank e.url = false := by
  obtain ⟨row, -, hrow⟩ := List.mem_filterMap.mp h
  obtain ⟨hne, he⟩ := Option.ite_none_left_eq_some.mp hrow
  cases he
  exact not_isBlank_shareId (by simpa using hne)

theorem map_bare_shareEntries (urls : List DeploymentEntry) :
    (shareEntries urls).map (·.bare) =
      (urls.filter fun e => !(shareId e.url).isEmpty).map (·.extracted) := by
  induction urls with
  | nil => rfl
  | cons e urls ih =>
      unfold shareEntries at ih ⊢
      by_cases hid : (shareId e.url).isEmpty = true
      · rw [List.filterMap_cons_none (by simp [hid]), List.filter_cons_of_neg (by simp [hid]), ih]
      · rw [List.filterMap_cons_some (by simp only [hid]; rfl),
          List.filter_cons_of_pos (by simp [hid]), List.map_cons, List.map_cons, ih, DeploymentEntry.bare, bareId_shareId]
        rfl

theorem readIds_toShareJson (c : FormConfig) : readIds org c.toShareJson = c.sharedRows := by
  have hid : readScriptIdList org c.toShareJson "script_id" = shareEntries c.appsScriptUrls :=
    readScriptIdList_putEntries (fun e => not_isBlank_of_mem_shareEntries) (lookup_toShareJson rfl)
  have hids : readScriptIdList org c.toShareJson "script_ids" = [] :=
    readsOnly_readScriptIdList "script_ids" c.toShareJson []
      (Assoc.lookup_present (nodup_keys_sharePuts c))
  rw [readIds, hid, hids, List.append_nil, List.filter_eq_self.mpr, map_bare_shareEntries]
  · rfl
  · intro e he
    rw [not_isBlank_of_mem_shareEntries he]
    rfl

theorem lookup_toJson (org : OrgJson) (c : FormConfig) (key : String) :
    (c.toJson org).lookup key =
      ((Assoc.present c.puts).lookup key).or ((c.strays org).lookup key) := lookup_splice _ _

/-- What is saved comes back, and has nothing more to lose. -/
theorem of_mem_savedRows {e : DeploymentEntry} (h : e ∈ c.savedRows) :
    isBlank e.url = false ∧ e.bare = e := by
  obtain ⟨hmem, hne⟩ := List.mem_filter.mp h
  obtain ⟨row, -, rfl⟩ := List.mem_map.mp hmem
  have hne' : extractId row.url ≠ [] := fun hnil => by
    simp [DeploymentEntry.extracted, hnil] at hne
  constructor
  · show isBlank (extractId row.url) = false
    rw [extractId_eq, bareId] at hne' ⊢
    exact isBlank_trimKotlin hne'
  · rw [DeploymentEntry.bare, DeploymentEntry.extracted, bareId_extractId]

theorem readScriptIdList_toJson (c : FormConfig) :
    readScriptIdList org (c.toJson org) "script_id" =
      c.savedRows ++ readScriptIdList org (c.strays org) "script_id" := by
  have hread : ReadsOnly "script_id" fun o => readScriptIdList org o "script_id" :=
    readsOnly_readScriptIdList "script_id"
  have hputs : (Assoc.present c.puts).lookup "script_id" = putEntries c.savedRows :=
    lookup_present_eq (nodup_keys_puts c.toRahgozarConfig) rfl
  have hlookup := lookup_toJson org c "script_id"
  by_cases hempty : c.savedRows = []
  · -- the key is free
    have hnone : putEntries c.savedRows = none := by
      rw [hempty]
      rfl
    rw [hputs, hnone, Option.none_or] at hlookup
    rw [hempty, List.nil_append]
    exact hread _ _ hlookup
  · have hsome : (putEntries c.savedRows).isSome = true := by
      unfold putEntries
      rw [if_neg (by simpa using hempty)]
      split_ifs <;> rfl
    have hfree : (c.strays org).lookup "script_id" = none := by
      rw [strays, lookup_spliced, hputs, Option.isNone_eq_false_iff.mpr hsome]
      rfl
    rw [hputs, Option.or_of_isSome hsome] at hlookup
    have hnothing : readScriptIdList org (c.strays org) "script_id" = [] := hread _ [] hfree
    rw [hnothing, List.append_nil]
    exact readScriptIdList_putEntries (fun e he => (of_mem_savedRows he).1) hlookup

theorem readIds_toJson (c : FormConfig) :
    readIds org (c.toJson org) = c.savedRows ++ readIds org (c.strays org) := by
  have hids : readScriptIdList org (c.toJson org) "script_ids" =
      readScriptIdList org (c.strays org) "script_ids" := by
    have hlookup := lookup_toJson org c "script_ids"
    rw [Assoc.lookup_present (nodup_keys_puts c.toRahgozarConfig)] at hlookup
    exact readsOnly_readScriptIdList "script_ids" _ _ hlookup
  have hkept : c.savedRows.filter (fun e => !isBlank e.url) = c.savedRows :=
    List.filter_eq_self.mpr fun e he => by rw [(of_mem_savedRows he).1]; rfl
  have hbare : c.savedRows.map (·.bare) = c.savedRows :=
    (List.map_congr_left fun e he => (of_mem_savedRows he).2).trans (List.map_id _)
  rw [readIds, readScriptIdList_toJson, hids, List.append_assoc, List.filter_append, hkept,
    List.map_append, hbare]
  rfl

/-- What `extrasJson` brings of deployments that the form does not save. -/
def newRows (org : OrgJson) (c : FormConfig) : List DeploymentEntry :=
  (firstOfEach (·.url) (readIds org (c.strays org))).filter
    fun e => e.url ∉ c.savedRows.map (·.url)

/-- Every row that is shared has an ID, and `extrasJson` brings none that the form does not have; or
the one row that comes without an ID is the last to be merged, and `extrasJson` brings the same. -/
def RowsKept (org : OrgJson) (c : FormConfig) : Prop :=
  ((∀ e ∈ c.sharedRows, e.url ≠ []) ∧ c.newRows org = []) ∨
    ∃ enabled : Bool,
      firstOfEach (·.url) c.sharedRows = firstOfEach (·.url) c.savedRows ++ [⟨[], enabled⟩] ∧
        c.newRows org = [⟨[], enabled⟩]

theorem rows_toJson (c : FormConfig) :
    (loadFromJson org (c.toJson org)).rows =
      firstOfEach (·.url) c.savedRows ++ c.newRows org := by
  rw [rows_loadFromJson, readIds_toJson, firstOfEach_append, newRows]
  congr!

omit c in
/-- What stands behind the elements that are kept are the others. -/
theorem eq_filter_not_of_eq_append {α : Type} {p : α → Bool} {l m : List α}
    (h : l = l.filter p ++ m) : m = l.filter fun x => !p x := by
  have hcount : m.countP p = 0 := by
    have hl : l.countP p = l.countP p + m.countP p := by
      calc l.countP p
        _ = (l.filter p ++ m).countP p := congrArg (List.countP p) h
        _ = (l.filter p).countP p + m.countP p := List.countP_append
        _ = l.countP p + m.countP p := by rw [List.countP_filter]; simp only [Bool.and_self]
    omega
  have hm : m.filter (fun x => !p x) = m := by
    rw [List.filter_eq_self]
    intro x hx
    simpa using List.countP_eq_zero.mp hcount x hx
  rw [h, List.filter_append, List.filter_filter, hm]
  simp

/-- The rows without an ID are merged into the first. -/
theorem firstOfEach_nil_url {l : List DeploymentEntry} (hl : ∀ e ∈ l, e.url = []) (hne : l ≠ []) :
    ∃ enabled : Bool, firstOfEach (·.url) l = [⟨[], enabled⟩] := by
  obtain ⟨e, l, rfl⟩ := List.exists_cons_of_ne_nil hne
  have hurl : e.url = [] := hl e List.mem_cons_self
  have hrest : (l.filter fun y => y.url ≠ e.url) = [] := by
    rw [List.filter_eq_nil_iff]
    intro y hy
    simp [hl y (List.mem_cons_of_mem e hy), hurl]
  refine ⟨e.enabled, ?_⟩
  rw [firstOfEach_cons, hrest, firstOfEach_nil, ← hurl]

/-- **The rows.** -/
theorem rows_iff (org : OrgJson) (c : FormConfig) :
    (loadFromJson org c.toShareJson).rows = (loadFromJson org (c.toJson org)).rows ↔
      c.RowsKept org := by
  rw [rows_loadFromJson, readIds_toShareJson, rows_toJson]
  have hfilter : ∀ p : Bool → Bool, (firstOfEach (·.url) c.sharedRows).filter
        (fun e => p e.url.isEmpty) =
      firstOfEach (·.url) (c.sharedRows.filter fun e => p e.url.isEmpty) :=
    fun p => filter_firstOfEach (fun x y hxy => by simp only [hxy]) _
  have hsaved : (firstOfEach (·.url) c.sharedRows).filter (fun e => !e.url.isEmpty) =
      firstOfEach (·.url) c.savedRows := by
    rw [savedRows_eq]
    exact hfilter not
  have hlost := hfilter id
  constructor
  · intro heq
    by_cases hall : ∀ e ∈ c.sharedRows, e.url ≠ []
    · left
      refine ⟨hall, ?_⟩
      have hkept : c.savedRows = c.sharedRows := by
        rw [savedRows_eq]
        exact List.filter_eq_self.mpr fun e he => by simpa using hall e he
      rw [hkept] at heq
      exact List.append_right_eq_self.mp heq.symm
    · right
      -- what is not saved is what `extrasJson` brings
      have hnew : c.newRows org =
          firstOfEach (·.url) (c.sharedRows.filter fun e => e.url.isEmpty) := by
        rw [← hsaved] at heq
        refine Eq.trans ?_ hlost
        simpa using eq_filter_not_of_eq_append heq
      obtain ⟨enabled, hone⟩ := firstOfEach_nil_url
        (l := c.sharedRows.filter fun e => e.url.isEmpty)
        (fun e he => by simpa using (List.mem_filter.mp he).2)
        (by
          simpa [List.filter_eq_nil_iff] using hall)
      rw [hone] at hnew
      exact ⟨enabled, hnew ▸ heq, hnew⟩
  · rintro (⟨hall, hnone⟩ | ⟨enabled, hrows, hnew⟩)
    · have hkept : c.savedRows = c.sharedRows := by
        rw [savedRows_eq]
        exact List.filter_eq_self.mpr fun e he => by simpa using hall e he
      rw [hnone, hkept, List.append_nil]
    · rw [hrows, hnew]

/-! ## A share and its way back -/

/-- What `toJson` splices in of `extrasJson` brings no setting, and the rows are kept. -/
structure Kept (org : OrgJson) (c : FormConfig) : Prop where
  settings : BringsNothing org (c.strays org)
  rows : c.RowsKept org

theorem agrees_iff (org : OrgJson) (c : FormConfig) :
    (loadFromJson org c.toShareJson).Agrees (loadFromJson org (c.toJson org)) ↔ c.Kept org := by
  rw [RahgozarConfig.Agrees, shared_iff, rows_iff, bringsNothing_iff]
  exact ⟨fun h => ⟨h.1, h.2⟩, fun h => ⟨h.settings, h.rows⟩⟩

/-- The two differ in nothing but the OAuth secrets, the flag about them and `extrasJson`. -/
def SameButSecrets (c c' : FormConfig) : Prop :=
  c' = { c with
    driveOauthRefreshTokenSnapshot := c'.driveOauthRefreshTokenSnapshot
    driveHasRefreshToken := c'.driveHasRefreshToken
    driveOauthClientSecret := c'.driveOauthClientSecret
    extrasJson := c'.extrasJson }

theorem SameButSecrets.toShareJson_eq {c c' : FormConfig} (h : c.SameButSecrets c') :
    c'.toShareJson = c.toShareJson := by
  rw [h]
  rfl

theorem hasConfigShape_toShareJson (c : FormConfig) : hasConfigShape c.toShareJson = true := by
  have hmode : c.toShareJson.lookup "mode" = some (.str (modeText c.mode)) := lookup_toShareJson rfl
  simp [hasConfigShape, hmode]

end FormConfig

namespace Packer

variable {p : Packer}

/-- **Round trip.** The text of a share is read as the object it was made of. -/
theorem decode_encode (org : OrgJson) (hp : p.RoundTrips) {c : FormConfig}
    (hc : p.ReadsBack c.toShareJson) :
    p.decode org (p.encode c) = some (loadForm org c.toShareJson) := by
  have htrim : trimKotlin (p.encode c) = p.encode c := by
    apply Trim.trim_eq_self
    intro ch hch
    rcases List.mem_append.mp hch with hmem | hmem
    · have hall : ∀ a ∈ hashPrefix, isWhitespaceKotlin a = false :=
        List.all_iff_forall_prop.mp (by decide)
      exact hall ch hmem
    · exact hp.alphabet _ ch hmem
  have htext :
      p.inflateOrRaw (p.deflate (utf8 (p.print c.toShareJson))) = p.print c.toShareJson := by
    rw [inflateOrRaw, hp.inflate]
    exact Udpgw.fromUtf8Lossy_nameBytes _
  have hhead : ¬ (p.encode c).head? = some '{' := by
    show ¬ some 'r' = some '{'
    decide
  have hbegin : hashPrefix.isPrefixOf (p.encode c) = true :=
    List.isPrefixOf_iff_prefix.mpr (List.prefix_append _ _)
  have hpayload : (p.encode c).drop hashPrefix.length =
      p.encodeToString (p.deflate (utf8 (p.print c.toShareJson))) := List.drop_left
  simp only [decode, htrim, if_neg hhead, if_pos hbegin, hpayload, hp.decodeBase64,
    Option.bind_some, htext, load]
  rw [show p.parse (p.print c.toShareJson) = some c.toShareJson from hc, Option.bind_some,
    if_pos c.hasConfigShape_toShareJson]

/-- A share has none of the secrets; and it is decoded to a form that agrees with what is saved, in
everything a share can have, exactly if each row that is shared has an ID and nothing comes from
`extrasJson`. -/
theorem shares_the_settings (org : OrgJson) (p : Packer) :
    (∀ c c' : FormConfig, c.SameButSecrets c' → p.encode c' = p.encode c) ∧
      (p.RoundTrips → ∀ c : FormConfig, p.ReadsBack c.toShareJson →
        ∃ d, p.decode org (p.encode c) = some d ∧
          (d.Agrees (loadForm org (c.toJson org)).toRahgozarConfig ↔ c.Kept org)) := by
  constructor
  · intro c c' h
    rw [encode, encode, h.toShareJson_eq]
  · intro hp c hc
    exact ⟨_, decode_encode org hp hc, c.agrees_iff org⟩

/-! ### A row without an ID -/

/-- The form with a row that is only a query. -/
def queryRow : FormConfig := { defaults with appsScriptUrls := [⟨"?x".toList, true⟩] }

def queryRowText : Text := "\x7b\"mode\":\"apps_script\",\"script_id\":[\"?x\"]\x7d".toList

/-- What `DeflaterOutputStream` makes of the text. -/
def queryRowDeflated : List UInt8 :=
  [120, 156, 171, 86, 202, 205, 79, 73, 85, 178, 82, 74, 44, 40, 40, 142, 47, 78, 46, 202, 44, 40,
    81, 210, 81, 130, 48, 226, 51, 83, 148, 172, 162, 149, 236, 43, 148, 98, 107, 1, 45, 182, 14,
    38]

/-- A packer that does with this form what the libraries do. -/
def queryRowPacker : Packer where
  print _ := queryRowText
  parse _ := some queryRow.toShareJson
  deflate bytes := if bytes = utf8 queryRowText then queryRowDeflated else 0 :: bytes
  inflate raw :=
    if raw = queryRowDeflated then some (utf8 queryRowText)
    else match raw with
      | 0 :: bytes => some bytes
      | _ => none
  encodeToString := Base64.encodeUrl
  decodeBase64 := Base64.decodeUrl

theorem queryRowPacker_roundTrips : queryRowPacker.RoundTrips where
  inflate bytes := by
    by_cases h : bytes = utf8 queryRowText
    · simp [queryRowPacker, h]
    · have hne : 0 :: bytes ≠ queryRowDeflated := by simp [queryRowDeflated]
      simp [queryRowPacker, h, hne]
  decodeBase64 := Base64.decodeUrl_encodeUrl
  alphabet bytes c hc := by
    obtain ⟨hmin, hmax⟩ := Base64.toNat_of_mem_encodeUrl hc
    simp only [isWhitespaceKotlin, Bool.or_eq_false_iff, Bool.and_eq_false_imp, decide_eq_true_eq,
      decide_eq_false_iff_not]
    omega

/-- `org.json` where it has nothing to convert. -/
def plainOrgJson : OrgJson := ⟨fun _ => [], fun _ => none, fun _ => none, id⟩

theorem shares_the_settings_queryRow :
    ∃ d, queryRowPacker.decode plainOrgJson (queryRowPacker.encode queryRow) = some d ∧
      (d.Agrees (loadForm plainOrgJson (queryRow.toJson plainOrgJson)).toRahgozarConfig ↔
        queryRow.Kept plainOrgJson) :=
  (shares_the_settings plainOrgJson queryRowPacker).2 queryRowPacker_roundTrips queryRow rfl

/-- The row is shared with an empty ID, and is not saved. -/
theorem queryRow_not_agreed :
    ¬ ∀ (org : OrgJson) (p : Packer), p.RoundTrips → ∀ c : FormConfig,
      p.ReadsBack c.toShareJson → ∃ d, p.decode org (p.encode c) = some d ∧
        d.Agrees (loadForm org (c.toJson org)).toRahgozarConfig := by
  intro h
  obtain ⟨d, hd, hagrees⟩ := h plainOrgJson queryRowPacker queryRowPacker_roundTrips queryRow rfl
  rw [decode_encode plainOrgJson queryRowPacker_roundTrips rfl] at hd
  cases hd
  have hrows := hagrees.2
  revert hrows
  decide

end Packer

end Rahgozar.Settings
