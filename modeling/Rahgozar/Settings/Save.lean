import Rahgozar.Settings.Readers

set_option autoImplicit false

/-! # What Android writes, read by Rust

`toJson` of the form that `loadFromJson` has made, key by key: what a rule of `toJson` puts is read
back by serde as the value it was made from, a key that the form does not have comes through as it
was, and so does everything in it whose numbers are integers of 64 bits.
-/

namespace Rahgozar.Settings

open Json
open Rahgozar.Config (trimKotlin isBlank isWhitespaceKotlin)

variable {org : OrgJson} {o : Object} {key : String}

/-! ## Values that pass through -/

section

variable (org)

mutual

/-- Every number in the value is an integer of 64 bits, or is written again as it is. -/
def Json.IsPlain : Json → Prop
  | .int n => (-2 ^ 63 ≤ n ∧ n < 2 ^ 63) ∨ org.reprintNumber (.int n) = .int n
  | .real literal => org.reprintNumber (.real literal) = .real literal
  | .arr items => ItemsArePlain items
  | .obj fields => FieldsArePlain fields
  | _ => True

def Json.ItemsArePlain : List Json → Prop
  | [] => True
  | v :: items => v.IsPlain ∧ ItemsArePlain items

def Json.FieldsArePlain : List (String × Json) → Prop
  | [] => True
  | (_, v) :: fields => v.IsPlain ∧ FieldsArePlain fields

end

end

mutual

theorem reprint_of_isPlain : (v : Json) → v.IsPlain org → reprint org v = v
  | .int n, h => by
      unfold IsPlain at h
      unfold reprint
      by_cases hn : -2 ^ 63 ≤ n ∧ n < 2 ^ 63
      · rw [if_pos hn]
      · rw [if_neg hn]
        exact h.resolve_left hn
  | .real _, h => by
      unfold IsPlain at h
      unfold reprint
      exact h
  | .arr items, h => by
      unfold IsPlain at h
      unfold reprint
      rw [reprintItems_of_arePlain items h]
  | .obj fields, h => by
      unfold IsPlain at h
      unfold reprint
      rw [reprintFields_of_arePlain fields h]
  | .null, _ => by simp [reprint]
  | .bool _, _ => by simp [reprint]
  | .str _, _ => by simp [reprint]

theorem reprintItems_of_arePlain :
    (items : List Json) → ItemsArePlain org items → reprintItems org items = items
  | [], _ => by simp [reprintItems]
  | v :: items, h => by
      unfold ItemsArePlain at h
      unfold reprintItems
      rw [reprint_of_isPlain v h.1, reprintItems_of_arePlain items h.2]

theorem reprintFields_of_arePlain :
    (fields : List (String × Json)) → FieldsArePlain org fields → reprintFields org fields = fields
  | [], _ => by simp [reprintFields]
  | (key, v) :: fields, h => by
      unfold FieldsArePlain at h
      unfold reprintFields
      rw [reprint_of_isPlain v h.1, reprintFields_of_arePlain fields h.2]

end

/-! ## Which key comes from where -/

def save (org : OrgJson) (o : Object) : Object := (loadFromJson org o).toJson org

/-- The entries the form does not have are written as they were read. -/
def PassesThrough (org : OrgJson) (o : Object) : Prop :=
  FieldsArePlain org (o.filter fun e => e.1 ∉ modelledKeys)

theorem keys_puts (r : RahgozarConfig) :
    r.puts.map Prod.fst = ["mode", "listen_host", "listen_port", "socks5_port", "script_id",
      "auth_key", "front_domain", "sni_hosts", "google_ip", "verify_ssl", "log_level",
      "parallel_relay", "force_http1", "coalesce_step_ms", "coalesce_max_ms", "block_quic",
      "block_stun", "upstream_socks5", "passthrough_hosts", "tunnel_doh", "block_doh",
      "youtube_via_relay", "sabr_strip", "relay_url_patterns", "bypass_doh_hosts",
      "fetch_ips_from_api", "max_ips_to_scan", "fronting_groups", "connection_mode", "split_mode",
      "split_apps", "drive", "ui_lang"] := rfl

theorem nodup_keys_puts (r : RahgozarConfig) : (r.puts.map Prod.fst).Nodup := by
  rw [keys_puts]
  decide

theorem mem_modelledKeys_of_mem_puts {r : RahgozarConfig} (h : key ∈ r.puts.map Prod.fst) :
    key ∈ modelledKeys := by
  have hall : ∀ k ∈ r.puts.map Prod.fst, k ∈ modelledKeys := by
    rw [keys_puts]
    decide
  exact hall key h

theorem lookup_puts_of_notMem {r : RahgozarConfig} (h : key ∉ modelledKeys) :
    r.puts.lookup key = none := by
  rw [List.lookup_eq_none_iff]
  intro e he
  rw [bne_iff_ne]
  rintro rfl
  exact h (mem_modelledKeys_of_mem_puts (List.mem_map.mpr ⟨e, he, rfl⟩))

theorem lookup_extras (o : Object) : (o.filter fun e => e.1 ∉ modelledKeys).lookup key =
    if key ∉ modelledKeys then o.lookup key else none := by
  have h := Assoc.lookup_filter_key (k := key) (fun k => decide (k ∉ modelledKeys)) o
  simpa using h

theorem save_eq (hpass : PassesThrough org o) : save org o =
    Assoc.splice (Assoc.present (loadFromJson org o).puts)
      (o.filter fun e => e.1 ∉ modelledKeys) := by
  have hextras : (loadFromJson org o).extrasJson = o.filter fun e => e.1 ∉ modelledKeys := rfl
  rw [save, RahgozarConfig.toJson, hextras, reprintFields_of_arePlain _ hpass]

/-- A key the form has: what its rule puts. -/
theorem lookup_save_of_mem (hpass : PassesThrough org o) (hkey : key ∈ modelledKeys) :
    (save org o).lookup key = ((loadFromJson org o).puts.lookup key).join := by
  rw [save_eq hpass, Assoc.lookup_splice, Assoc.lookup_present (nodup_keys_puts _), lookup_extras,
    if_neg (not_not.mpr hkey), Option.or_none]

/-- A key the form does not have comes through. -/
theorem lookup_save_of_notMem (hpass : PassesThrough org o) (hkey : key ∉ modelledKeys) :
    (save org o).lookup key = o.lookup key := by
  rw [save_eq hpass, Assoc.lookup_splice, Assoc.lookup_present (nodup_keys_puts _),
    lookup_puts_of_notMem hkey, lookup_extras, if_pos hkey]
  rfl

/-! ## What a rule puts, read back -/

/-- A field with a default, from what the lookup has found. -/
def fieldOf {α : Type} (v : Option Json) (decode : Json → Option α) (missing : α) : Option α :=
  v.elim (some missing) decode

section

variable {α : Type} {decode : Json → Option α} {missing : α}

theorem fieldOf_some (v : Json) : fieldOf (some v) decode missing = decode v := rfl

theorem field_eq_fieldOf : field o key decode missing = fieldOf (o.lookup key) decode missing := by
  unfold field fieldOf
  cases o.lookup key <;> rfl

theorem field_save_of_mem {v : Option Json} (hpass : PassesThrough org o)
    (hkey : key ∈ modelledKeys)
    (hputs : (loadFromJson org o).puts.lookup key = some v) :
    field (save org o) key decode missing = fieldOf v decode missing := by
  rw [field_eq_fieldOf, lookup_save_of_mem hpass hkey, hputs]
  rfl

theorem field_save_of_absent (hpass : PassesThrough org o) (hkey : key ∈ modelledKeys)
    (hputs : (loadFromJson org o).puts.lookup key = none) :
    field (save org o) key decode missing = some missing := by
  rw [field_eq_fieldOf, lookup_save_of_mem hpass hkey, hputs]
  rfl

theorem field_save_of_notMem (hpass : PassesThrough org o) (hkey : key ∉ modelledKeys) :
    field (save org o) key decode missing = field o key decode missing := by
  rw [field_eq_fieldOf, field_eq_fieldOf, lookup_save_of_notMem hpass hkey]

end

theorem asUnsigned_int {bits n : Nat} (h : n < 2 ^ bits) : asUnsigned bits (.int n) = some n :=
  asUnsigned_eq_some.mpr ⟨rfl, h⟩

theorem fieldOf_putIfTrue (b : Bool) : fieldOf (putIfTrue b) asBool false = some b := by
  cases b <;> rfl

theorem asTexts_str (l : List Text) : asVec asString (.arr (l.map .str)) = some l :=
  asTexts_eq_some.mpr rfl

theorem fieldOf_putTexts (l : List Text) :
    fieldOf (putTexts l) (asVec asString) [] = some l := by
  unfold putTexts
  by_cases hl : l.isEmpty = true
  · rw [if_pos hl, List.isEmpty_iff.mp hl]
    rfl
  · rw [if_neg hl]
    exact asTexts_str l

theorem fieldOf_putTexts_option (l : List Text) :
    fieldOf (putTexts l) (asOption (asVec asString)) none =
      some (if l.isEmpty then none else some l) := by
  unfold putTexts
  by_cases hl : l.isEmpty = true
  · rw [if_pos hl, if_pos hl]
    rfl
  · rw [if_neg hl, if_neg hl]
    show (asVec asString (.arr (l.map .str))).map some = some (some l)
    rw [asTexts_str]
    rfl

theorem trimKotlin_eq_nil_iff {text : Text} : trimKotlin text = [] ↔ isBlank text = true := by
  rw [trimKotlin, Trim.trim_eq_nil_iff, isBlank, List.all_eq_true]

theorem fieldOf_putTrimmed (text : Text) :
    fieldOf (putTrimmed text) asString [] = some (trimKotlin text) := by
  unfold putTrimmed
  by_cases hblank : isBlank text = true
  · rw [if_pos hblank, trimKotlin_eq_nil_iff.mpr hblank]
    rfl
  · rw [if_neg hblank]
    rfl

theorem fieldOf_putTrimmed_option (text : Text) :
    fieldOf (putTrimmed text) (asOption asString) none =
      some (if (trimKotlin text).isEmpty then none else some (trimKotlin text)) := by
  unfold putTrimmed
  by_cases hblank : isBlank text = true
  · rw [if_pos hblank, trimKotlin_eq_nil_iff.mpr hblank]
    rfl
  · have hne : ¬(trimKotlin text).isEmpty = true := by
      rwa [List.isEmpty_iff, trimKotlin_eq_nil_iff]
    rw [if_neg hblank, if_neg hne]
    rfl

/-! ### Deployments -/

theorem asVec_map {α : Type} {decode : Json → Option α} {encode : α → Json} {l : List α}
    (h : ∀ x ∈ l, decode (encode x) = some x) : asVec decode (.arr (l.map encode)) = some l := by
  rw [asVec_eq_some]
  refine ⟨_, rfl, Traverse.mapM_eq_some.mpr ?_⟩
  rw [List.forall₂_map_left_iff, List.forall₂_same]
  exact h

/-- Both forms of the list are read back as the entries. -/
theorem fieldOf_putScriptIds {urls : List DeploymentEntry} {entries : List ScriptIdEntry}
    (h : (urls.map fun e => DeploymentEntry.mk (extractId e.url) e.enabled).filter
      (fun e => !e.url.isEmpty) = entries.map deployment) :
    fieldOf (putScriptIds urls) (asOption scriptId) none =
      some (if entries.isEmpty then none else some entries) := by
  unfold putScriptIds
  simp only [h, List.isEmpty_map]
  by_cases hempty : entries.isEmpty = true
  · rw [if_pos hempty, if_pos hempty]
    rfl
  rw [if_neg hempty, if_neg hempty]
  by_cases hall : (entries.map deployment).all (·.enabled) = true
  · have hread : asVec scriptIdEntry (.arr (entries.map fun e => .str e.id)) = some entries := by
      apply asVec_map
      intro e he
      have henabled : (deployment e).enabled = true :=
        List.all_eq_true.mp hall _ (List.mem_map_of_mem he)
      show some (ScriptIdEntry.mk e.id true) = some e
      rw [← henabled]
      rfl
    rw [if_pos hall, List.map_map]
    exact congrArg (Option.map some) hread
  · have hread : asVec scriptIdEntry (.arr (entries.map fun e =>
        .obj [("id", .str e.id), ("enabled", .bool e.enabled)])) = some entries := by
      apply asVec_map
      intro e _
      exact scriptIdEntry_iff.mpr ⟨rfl, rfl⟩
    rw [if_neg hall, List.map_map]
    exact congrArg (Option.map some) hread

/-! ### Fronting groups and the Drive part -/

theorem lookup_present_eq {l : List (String × Option Json)} {v : Option Json}
    (hl : (l.map Prod.fst).Nodup) (h : l.lookup key = some v) :
    (Assoc.present l).lookup key = v := by
  rw [Assoc.lookup_present hl, h]
  rfl

theorem field_present {α : Type} {decode : Json → Option α} {missing : α}
    {l : List (String × Option Json)} {v : Option Json} (hl : (l.map Prod.fst).Nodup)
    (h : l.lookup key = some v) :
    field (Assoc.present l) key decode missing = fieldOf v decode missing := by
  rw [field_eq_fieldOf, lookup_present_eq hl h]

theorem required_present {α : Type} {decode : Json → Option α} {l : List (String × Option Json)}
    {v : Json} (hl : (l.map Prod.fst).Nodup) (h : l.lookup key = some (some v)) :
    required (Assoc.present l) key decode = decode v := by
  rw [required, lookup_present_eq hl h]
  rfl

theorem frontingGroup_json (g : FrontingGroup) : frontingGroup (frontingGroupJson g) = some g := by
  have hl : ((frontingGroupPuts g).map Prod.fst).Nodup := by
    show (["name", "ip", "sni", "domains", "force_ip", "verify_names"] : List String).Nodup
    decide
  apply frontingGroup_iff.mpr
  exact {
    name := required_present hl (v := .str g.name) rfl
    ip := field_present hl (v := some (.str g.ip)) rfl
    sni := required_present hl (v := .str g.sni) rfl
    domains := (required_present hl rfl).trans (asTexts_str g.domains)
    forceIp := (field_present hl rfl).trans (fieldOf_putIfTrue g.forceIp)
    verifyNames := (field_present hl rfl).trans (fieldOf_putTexts g.verifyNames) }

/-- A group as it is after it has been saved. -/
def FrontingGroup.saved (g : FrontingGroup) : FrontingGroup :=
  { g.trimmed with domains := g.trimmed.domains.eraseDups }

theorem trimKotlin_idem (text : Text) : trimKotlin (trimKotlin text) = trimKotlin text :=
  Trim.trim_idem text

theorem trimmedTexts_idem (texts : List Text) :
    trimmedTexts (trimmedTexts texts) = trimmedTexts texts := by
  have hmap : (trimmedTexts texts).map trimKotlin = trimmedTexts texts := by
    conv_rhs => rw [← List.map_id (trimmedTexts texts)]
    apply List.map_congr_left
    intro t ht
    obtain ⟨text, -, rfl⟩ := List.mem_map.mp (List.mem_of_mem_filter ht)
    exact trimKotlin_idem text
  rw [trimmedTexts, hmap, trimmedTexts, List.filter_filter]
  simp only [Bool.and_self]

theorem eraseDups_ne_nil {l : List Text} (h : l ≠ []) : l.eraseDups ≠ [] := by
  obtain ⟨t, ht⟩ := List.exists_mem_of_ne_nil l h
  exact List.ne_nil_of_mem (List.mem_eraseDups.mpr ht)

/-- The groups that Android keeps are read back, trimmed and with each domain once. -/
theorem fieldOf_putFrontingGroups {groups : List FrontingGroup}
    (hfull : ∀ g ∈ groups, g.trimmed.IsFull) :
    fieldOf (putFrontingGroups (groups.map (·.trimmed))) (asVec frontingGroup) [] =
      some (groups.map (·.saved)) := by
  have hsavable : (groups.map (·.trimmed)).filterMap (fun g =>
      let cleaned := cleanTexts g.domains
      if cleaned.isEmpty then none else some { g with domains := cleaned }) =
        groups.map (·.saved) := by
    rw [List.filterMap_map, ← List.filterMap_eq_map]
    apply List.filterMap_congr
    intro g hg
    have hclean : cleanTexts g.trimmed.domains = g.trimmed.domains.eraseDups :=
      congrArg List.eraseDups (trimmedTexts_idem g.domains)
    have hne : ¬g.trimmed.domains.eraseDups.isEmpty = true := by
      rw [List.isEmpty_iff]
      exact eraseDups_ne_nil (hfull g hg).domains
    simp only [Function.comp_apply, hclean]
    rw [if_neg hne]
    rfl
  unfold putFrontingGroups
  simp only [hsavable]
  by_cases hempty : (groups.map (·.saved)).isEmpty = true
  · rw [if_pos hempty, List.isEmpty_iff.mp hempty]
    rfl
  · rw [if_neg hempty]
    exact asVec_map fun g _ => frontingGroup_json g

/-- The Drive part as it is after it has been saved. -/
def DriveConfig.saved (d : DriveConfig) : DriveConfig :=
  { d with
    oauthClientId := trimKotlin d.oauthClientId
    oauthClientSecret := trimKotlin d.oauthClientSecret
    oauthRefreshToken := trimKotlin d.oauthRefreshToken
    folderId := trimKotlin d.folderId
    relayPubkey := trimKotlin d.relayPubkey }

/-- What Android reads from the Drive part. -/
structure RahgozarConfig.HoldsDrive (r : RahgozarConfig) (d : DriveConfig) : Prop where
  folderId : r.driveFolderId = trimKotlin d.folderId
  relayPubkey : r.driveRelayPubkey = trimKotlin d.relayPubkey
  pollIntervalMs : r.drivePollIntervalMs = d.pollIntervalMs
  maxConcurrentUploads : r.driveMaxConcurrentUploads = d.maxConcurrentUploads
  oauthClientId : r.driveOauthClientId = trimKotlin d.oauthClientId
  oauthClientSecret : r.driveOauthClientSecret = trimKotlin d.oauthClientSecret
  oauthRefreshToken : r.driveOauthRefreshTokenSnapshot = trimKotlin d.oauthRefreshToken

theorem driveConfig_driveObj {r : RahgozarConfig} {d : DriveConfig} (h : r.HoldsDrive d)
    (hpoll : d.pollIntervalMs < 2 ^ 32) (hmax : d.maxConcurrentUploads < 2 ^ 8) :
    driveConfig (.obj r.driveObj) = some d.saved := by
  have hl : (r.drivePuts.map Prod.fst).Nodup := by
    show (["oauth_refresh_token", "folder_id", "relay_pubkey", "oauth_client_id",
      "oauth_client_secret", "poll_interval_ms", "max_concurrent_uploads"] : List String).Nodup
    decide
  have htrimmed : ∀ {key : String} {text held : Text}, held = trimKotlin text →
      r.drivePuts.lookup key = some (putTrimmed held) →
        field r.driveObj key asString [] = some (trimKotlin text) := by
    intro key text held hheld hlookup
    exact (field_present hl hlookup).trans
      ((fieldOf_putTrimmed held).trans (congrArg some (by rw [hheld, trimKotlin_idem])))
  have hnumber : ∀ {key : String} {bits n missing : Nat} {held : Int}, held = n → n < 2 ^ bits →
      r.drivePuts.lookup key = some (some (.int held)) →
        field r.driveObj key (asUnsigned bits) missing = some n := by
    intro key bits n missing held hheld hn hlookup
    exact (field_present hl hlookup).trans (hheld ▸ asUnsigned_int hn)
  apply driveConfig_iff.mpr
  exact {
    oauthClientId := htrimmed h.oauthClientId rfl
    oauthClientSecret := htrimmed h.oauthClientSecret rfl
    oauthRefreshToken := by
      rw [RahgozarConfig.driveObj, field_present hl rfl, h.oauthRefreshToken]
      by_cases hempty : (trimKotlin d.oauthRefreshToken).isEmpty = true
      · rw [if_pos hempty]
        exact congrArg some (List.isEmpty_iff.mp hempty).symm
      · rw [if_neg hempty]
        rfl
    folderId := htrimmed h.folderId rfl
    relayPubkey := htrimmed h.relayPubkey rfl
    pollIntervalMs := hnumber h.pollIntervalMs hpoll rfl
    maxConcurrentUploads := hnumber h.maxConcurrentUploads hmax rfl }

end Rahgozar.Settings
