import Rahgozar.Settings.Share

set_option autoImplicit false

/-! # What a share gives back

The object that is shared and the object that is saved go through one reader. Each setting is read
from one key, so that it is enough to compare, key by key, what the two put there; a key that
`toJson` leaves out is free for what it splices in of `extrasJson`.
-/

namespace Rahgozar.Settings

open Drive (splitOnce utf8)
open Proxy (Mode)
open Distinct
open Rahgozar.Config (trimKotlin isBlank isWhitespaceKotlin)

/-! ## What is compared -/

/-- The settings a share can have, texts without the blanks around them. -/
structure Shared where
  mode : Mode
  authKey : Text
  googleIp : Text
  frontDomain : Text
  sniHosts : List Text
  verifySsl : Bool
  logLevel : Text
  parallelRelay : Int
  forceHttp1 : Bool
  coalesceStepMs : Int
  coalesceMaxMs : Int
  blockQuic : Bool
  blockStun : Bool
  upstreamSocks5 : Text
  passthroughHosts : List Text
  tunnelDoh : Bool
  blockDoh : Bool
  youtubeViaRelay : Bool
  sabrStrip : Bool
  bypassDohHosts : List Text
  relayUrlPatterns : List Text
  frontingGroups : List FrontingGroup
  driveFolderId : Text
  driveRelayPubkey : Text
  driveOauthClientId : Text
  drivePollIntervalMs : Int
  driveMaxConcurrentUploads : Int
deriving DecidableEq

namespace RahgozarConfig

def shared (r : RahgozarConfig) : Shared where
  mode := r.mode
  authKey := trimKotlin r.authKey
  googleIp := trimKotlin r.googleIp
  frontDomain := trimKotlin r.frontDomain
  sniHosts := r.sniHosts.map trimKotlin
  verifySsl := r.verifySsl
  logLevel := trimKotlin r.logLevel
  parallelRelay := r.parallelRelay
  forceHttp1 := r.forceHttp1
  coalesceStepMs := r.coalesceStepMs
  coalesceMaxMs := r.coalesceMaxMs
  blockQuic := r.blockQuic
  blockStun := r.blockStun
  upstreamSocks5 := trimKotlin r.upstreamSocks5
  passthroughHosts := r.passthroughHosts.map trimKotlin
  tunnelDoh := r.tunnelDoh
  blockDoh := r.blockDoh
  youtubeViaRelay := r.youtubeViaRelay
  sabrStrip := r.sabrStrip
  bypassDohHosts := r.bypassDohHosts.map trimKotlin
  relayUrlPatterns := r.relayUrlPatterns.map trimKotlin
  frontingGroups := r.frontingGroups
  driveFolderId := trimKotlin r.driveFolderId
  driveRelayPubkey := trimKotlin r.driveRelayPubkey
  driveOauthClientId := trimKotlin r.driveOauthClientId
  drivePollIntervalMs := r.drivePollIntervalMs
  driveMaxConcurrentUploads := r.driveMaxConcurrentUploads

/-- The deployments by their IDs, each ID once. -/
def rows (r : RahgozarConfig) : List DeploymentEntry :=
  firstOfEach (·.url) (r.appsScriptUrls.map fun e => ⟨extractId e.url, e.enabled⟩)

/-- Two configurations that agree in what is shared. -/
def Agrees (a b : RahgozarConfig) : Prop := a.shared = b.shared ∧ a.rows = b.rows

instance (a b : RahgozarConfig) : Decidable (a.Agrees b) := inferInstanceAs (Decidable (_ ∧ _))

end RahgozarConfig

/-- The object has no setting under the keys that `toJson` may leave out. -/
structure BringsNothing (org : OrgJson) (o : Object) : Prop where
  sniHosts : readTexts org o "sni_hosts" = []
  forceHttp1 : optBoolean org o "force_http1" false = false
  coalesceStepMs : optInt org o "coalesce_step_ms" 10 = 10
  coalesceMaxMs : optInt org o "coalesce_max_ms" 1000 = 1000
  upstreamSocks5 : isBlank (optString org o "upstream_socks5" []) = true
  passthroughHosts : readTexts org o "passthrough_hosts" = []
  youtubeViaRelay : optBoolean org o "youtube_via_relay" false = false
  sabrStrip : optBoolean org o "sabr_strip" false = false
  bypassDohHosts : readTexts org o "bypass_doh_hosts" = []
  relayUrlPatterns : readTexts org o "relay_url_patterns" = []
  frontingGroups :
    ((optJSONArray o "fronting_groups").getD []).filterMap (readFrontingGroup org) = []

variable {org : OrgJson} {key : String}

/-! ## Readers of one key -/

/-- What is read of an object depends on one of its keys. -/
def ReadsOnly {α : Type} (key : String) (read : Object → α) : Prop :=
  ∀ o o' : Object, o.lookup key = o'.lookup key → read o = read o'

theorem ReadsOnly.comp {α β : Type} {read : Object → α} (h : ReadsOnly key read) (f : α → β) :
    ReadsOnly key fun o => f (read o) := fun o o' heq => congrArg f (h o o' heq)

theorem readsOnly_optString (key : String) (fallback : Text) :
    ReadsOnly key fun o => optString org o key fallback := fun o o' h => by
  simp only [optString, h]

theorem readsOnly_optInt (key : String) (fallback : Int) :
    ReadsOnly key fun o => optInt org o key fallback := fun o o' h => by
  simp only [optInt, h]

theorem readsOnly_optBoolean (key : String) (fallback : Bool) :
    ReadsOnly key fun o => optBoolean org o key fallback := fun o o' h => by
  simp only [optBoolean, h]

theorem readsOnly_optJSONArray (key : String) : ReadsOnly key fun o => optJSONArray o key :=
  fun o o' h => by simp only [optJSONArray, h]

theorem readsOnly_optJSONObject (key : String) : ReadsOnly key fun o => optJSONObject o key :=
  fun o o' h => by simp only [optJSONObject, h]

theorem readsOnly_readTexts (key : String) : ReadsOnly key fun o => readTexts org o key :=
  (readsOnly_optJSONArray key).comp fun items =>
    (((items.getD []).map (asText org)).filter fun t => !isBlank t)

theorem readsOnly_readScriptIdList (key : String) :
    ReadsOnly key fun o => readScriptIdList org o key := fun o o' h => by
  show readScriptIdList org o key = readScriptIdList org o' key
  unfold readScriptIdList optJSONArray optString
  rw [h]

/-- An object with one key. -/
def alone (key : String) (v : Option Json) : Object := Assoc.present [(key, v)]

theorem lookup_alone (key : String) (v : Option Json) : (alone key v).lookup key = v := by
  unfold alone
  rw [Assoc.lookup_present (l := [(key, v)]) (List.nodup_singleton key), List.lookup_cons_self]
  rfl

theorem ReadsOnly.of_lookup {α : Type} {read : Object → α} (h : ReadsOnly key read) {o : Object}
    {v : Option Json} (hv : o.lookup key = v) : read o = read (alone key v) :=
  h o _ (hv.trans (lookup_alone key v).symm)

/-- What is spliced in of an object. -/
def spliced (l extra : Object) : Object := extra.filter fun e => (l.lookup e.1).isNone

theorem lookup_spliced (l extra : Object) :
    (spliced l extra).lookup key = if (l.lookup key).isNone then extra.lookup key else none :=
  Assoc.lookup_filter_key (fun k => (l.lookup k).isNone) extra

theorem lookup_splice (l extra : Object) :
    (Assoc.splice l extra).lookup key = (l.lookup key).or ((spliced l extra).lookup key) :=
  List.lookup_append

/-- What is spliced in does not change a reading exactly if it reads like nothing by itself. -/
theorem ReadsOnly.splice_iff {α : Type} {read : Object → α} (h : ReadsOnly key read)
    (l extra : Object) :
    read l = read (Assoc.splice l extra) ↔ read (spliced l extra) = read [] := by
  cases hl : l.lookup key with
  | none =>
      have hsplice : read (Assoc.splice l extra) = read (spliced l extra) :=
        h _ _ (by rw [lookup_splice, hl, Option.none_or])
      have hnone : read l = read [] := h _ _ hl
      rw [hsplice, hnone]
      exact eq_comm
  | some v =>
      have hsplice : read (Assoc.splice l extra) = read l :=
        h _ _ (by rw [lookup_splice, hl, Option.some_or])
      have hnone : read (spliced l extra) = read [] :=
        h _ _ (by rw [lookup_spliced, hl]; rfl)
      exact iff_of_true hsplice.symm hnone

/-! ## Each setting -/

/-- A text that is left out when it is the default. -/
theorem optString_putUnless (text fallback : Text) :
    optString org (alone key (putUnless text fallback .str)) key fallback =
      optString org (alone key (some (.str text))) key fallback := by
  unfold putUnless optString
  rw [lookup_alone, lookup_alone]
  by_cases h : text = fallback
  · rw [if_pos h, h]
    rfl
  · rw [if_neg h]

theorem optBoolean_putUnless (b fallback : Bool) :
    optBoolean org (alone key (putUnless b fallback .bool)) key fallback =
      optBoolean org (alone key (some (.bool b))) key fallback := by
  unfold putUnless optBoolean
  rw [lookup_alone, lookup_alone]
  by_cases h : b = fallback
  · rw [if_pos h, h]
  · rw [if_neg h]

/-- A flag that `toJson` only writes when it is set. -/
theorem optBoolean_putUnless_ifTrue (b : Bool) :
    optBoolean org (alone key (putUnless b false .bool)) key false =
      optBoolean org (alone key (putIfTrue b)) key false := by
  cases b <;> rfl

/-- A default that fits `Int`. -/
theorem optInt_putUnless {n fallback : Int} (hmin : -2 ^ 31 ≤ fallback) (hmax : fallback < 2 ^ 31) :
    optInt org (alone key (putUnless n fallback .int)) key fallback =
      optInt org (alone key (some (.int n))) key fallback := by
  unfold putUnless
  by_cases h : n = fallback
  · have hrange : -2 ^ 63 ≤ fallback ∧ fallback < 2 ^ 63 := by omega
    have hvalue : intValue fallback = fallback := by
      unfold intValue
      omega
    unfold optInt
    rw [if_pos h, h, lookup_alone, lookup_alone]
    simp only [if_pos hrange, hvalue]
  · rw [if_neg h]

/-- A text that is left out when it is blank. -/
theorem trimKotlin_putText (text : Text) :
    trimKotlin (optString org (alone key (putText text)) key []) = trimKotlin text := by
  unfold putText optString
  rw [lookup_alone]
  by_cases h : isBlank text = true
  · rw [if_pos h, trimKotlin_eq_nil_iff.mpr h]
    rfl
  · rw [if_neg h]
    rfl

theorem trimKotlin_putTrimmed (text : Text) :
    trimKotlin (optString org (alone key (putTrimmed text)) key []) = trimKotlin text := by
  unfold putTrimmed optString
  rw [lookup_alone]
  by_cases h : isBlank text = true
  · rw [if_pos h, trimKotlin_eq_nil_iff.mpr h]
    rfl
  · rw [if_neg h]
    exact trimKotlin_idem text

namespace FormConfig

variable {c : FormConfig}

theorem keys_sharePuts (c : FormConfig) :
    c.sharePuts.map Prod.fst = ["mode", "script_id", "auth_key", "google_ip", "front_domain",
      "sni_hosts", "verify_ssl", "log_level", "parallel_relay", "force_http1", "coalesce_step_ms",
      "coalesce_max_ms", "block_quic", "block_stun", "upstream_socks5", "passthrough_hosts",
      "tunnel_doh", "block_doh", "youtube_via_relay", "sabr_strip", "bypass_doh_hosts",
      "relay_url_patterns", "fronting_groups", "drive"] := rfl

theorem nodup_keys_sharePuts (c : FormConfig) : (c.sharePuts.map Prod.fst).Nodup := by
  rw [keys_sharePuts]
  decide

theorem lookup_toShareJson {v : Option Json} (h : c.sharePuts.lookup key = some v) :
    c.toShareJson.lookup key = v := lookup_present_eq (nodup_keys_sharePuts c) h

/-- What `toJson` splices in of `extrasJson`: the keys that it has left out. -/
def strays (org : OrgJson) (c : FormConfig) : Object :=
  spliced (Assoc.present c.puts) (reprintFields org c.extrasJson)

/-- A reader of one key that does not tell the two values apart: what is spliced in decides. -/
theorem setting_iff {α : Type} {read : Object → α} (h : ReadsOnly key read) {v w : Option Json}
    (hshare : c.sharePuts.lookup key = some v) (hputs : c.puts.lookup key = some w)
    (hsame : read (alone key v) = read (alone key w)) :
    read c.toShareJson = read (c.toJson org) ↔ read (c.strays org) = read [] := by
  have hput : read c.toShareJson = read (Assoc.present c.puts) := by
    rw [h.of_lookup (lookup_toShareJson hshare),
      h.of_lookup (lookup_present_eq (nodup_keys_puts c.toRahgozarConfig) hputs), hsame]
  rw [hput]
  exact h.splice_iff _ _

theorem nodup_keys_shareDrivePuts (c : FormConfig) : (c.shareDrivePuts.map Prod.fst).Nodup := by
  show ["folder_id", "relay_pubkey", "oauth_client_id", "poll_interval_ms",
    "max_concurrent_uploads"].Nodup
  decide

/-- A Drive part without a key reads like none. -/
theorem driveText_shareDrive (c : FormConfig) (key : String) :
    driveText org (optJSONObject (alone "drive" c.shareDrive) "drive") key =
      trimKotlin (optString org (Assoc.present c.shareDrivePuts) key []) := by
  unfold optJSONObject shareDrive
  rw [lookup_alone]
  by_cases h : (Assoc.present c.shareDrivePuts).isEmpty = true
  · rw [List.isEmpty_iff.mp h]
    rfl
  · simp only [h]
    rfl

theorem driveInt_shareDrive (c : FormConfig) (key : String) (fallback : Int) :
    driveInt org (optJSONObject (alone "drive" c.shareDrive) "drive") key fallback =
      optInt org (Assoc.present c.shareDrivePuts) key fallback := by
  unfold optJSONObject shareDrive
  rw [lookup_alone]
  by_cases h : (Assoc.present c.shareDrivePuts).isEmpty = true
  · rw [List.isEmpty_iff.mp h]
    rfl
  · simp only [h]
    rfl

theorem nodup_keys_drivePuts (c : FormConfig) : (c.drivePuts.map Prod.fst).Nodup := by
  show ["oauth_refresh_token", "folder_id", "relay_pubkey", "oauth_client_id",
    "oauth_client_secret", "poll_interval_ms", "max_concurrent_uploads"].Nodup
  decide

/-- A text of the Drive part that both write in the same way. -/
theorem driveText_same {v : Option Json} (hshare : c.shareDrivePuts.lookup key = some v)
    (hputs : c.drivePuts.lookup key = some v) :
    driveText org (optJSONObject (alone "drive" c.shareDrive) "drive") key =
      driveText org (optJSONObject (alone "drive" (some (.obj c.driveObj))) "drive") key := by
  have hread : ReadsOnly key fun o => optString org o key [] := readsOnly_optString key []
  have hl := lookup_present_eq (nodup_keys_shareDrivePuts c) hshare
  have hl' := lookup_present_eq (nodup_keys_drivePuts c) hputs
  rw [driveText_shareDrive]
  exact congrArg trimKotlin (hread _ _ (hl.trans hl'.symm))

theorem driveInt_same {n fallback : Int} (hmin : -2 ^ 31 ≤ fallback) (hmax : fallback < 2 ^ 31)
    (hshare : c.shareDrivePuts.lookup key = some (putUnless n fallback .int))
    (hputs : c.drivePuts.lookup key = some (some (.int n))) :
    driveInt org (optJSONObject (alone "drive" c.shareDrive) "drive") key fallback =
      driveInt org (optJSONObject (alone "drive" (some (.obj c.driveObj))) "drive") key
        fallback := by
  have hread : ReadsOnly key fun o => optInt org o key fallback := readsOnly_optInt key fallback
  have hl := lookup_present_eq (nodup_keys_shareDrivePuts c) hshare
  have hl' := lookup_present_eq (nodup_keys_drivePuts c) hputs
  calc driveInt org (optJSONObject (alone "drive" c.shareDrive) "drive") key fallback
    _ = optInt org (Assoc.present c.shareDrivePuts) key fallback := driveInt_shareDrive c key _
    _ = optInt org (alone key (putUnless n fallback .int)) key fallback := hread.of_lookup hl
    _ = optInt org (alone key (some (.int n))) key fallback := optInt_putUnless hmin hmax
    _ = optInt org c.driveObj key fallback := (hread.of_lookup hl').symm

section

variable {v w : Option Json}

theorem text_iff {fallback : Text} (hshare : c.sharePuts.lookup key = some v)
    (hputs : c.puts.lookup key = some w)
    (hsame : trimKotlin (optString org (alone key v) key fallback) =
      trimKotlin (optString org (alone key w) key fallback)) :
    trimKotlin (optString org c.toShareJson key fallback) =
        trimKotlin (optString org (c.toJson org) key fallback) ↔
      trimKotlin (optString org (c.strays org) key fallback) =
        trimKotlin (optString org [] key fallback) :=
  setting_iff ((readsOnly_optString key fallback).comp trimKotlin) hshare hputs hsame

theorem texts_iff (hshare : c.sharePuts.lookup key = some v) (hputs : c.puts.lookup key = some v) :
    (readTexts org c.toShareJson key).map trimKotlin =
        (readTexts org (c.toJson org) key).map trimKotlin ↔
      (readTexts org (c.strays org) key).map trimKotlin =
        (readTexts org [] key).map trimKotlin :=
  setting_iff ((readsOnly_readTexts key).comp (List.map trimKotlin)) hshare hputs rfl

theorem flag_iff {fallback : Bool} (hshare : c.sharePuts.lookup key = some v)
    (hputs : c.puts.lookup key = some w)
    (hsame : optBoolean org (alone key v) key fallback =
      optBoolean org (alone key w) key fallback) :
    optBoolean org c.toShareJson key fallback = optBoolean org (c.toJson org) key fallback ↔
      optBoolean org (c.strays org) key fallback = optBoolean org [] key fallback :=
  setting_iff (readsOnly_optBoolean key fallback) hshare hputs hsame

theorem number_iff {fallback : Int} (hshare : c.sharePuts.lookup key = some v)
    (hputs : c.puts.lookup key = some w)
    (hsame : optInt org (alone key v) key fallback = optInt org (alone key w) key fallback) :
    optInt org c.toShareJson key fallback = optInt org (c.toJson org) key fallback ↔
      optInt org (c.strays org) key fallback = optInt org [] key fallback :=
  setting_iff (readsOnly_optInt key fallback) hshare hputs hsame

theorem drive_iff {α : Type} (f : Option Object → α)
    (hsame : f (optJSONObject (alone "drive" c.shareDrive) "drive") =
      f (optJSONObject (alone "drive" (some (.obj c.driveObj))) "drive")) :
    f (optJSONObject c.toShareJson "drive") = f (optJSONObject (c.toJson org) "drive") ↔
      f (optJSONObject (c.strays org) "drive") = f (optJSONObject [] "drive") :=
  setting_iff ((readsOnly_optJSONObject "drive").comp f) rfl rfl hsame

theorem driveText_iff (hshare : c.shareDrivePuts.lookup key = some v)
    (hputs : c.drivePuts.lookup key = some v) :
    trimKotlin (driveText org (optJSONObject c.toShareJson "drive") key) =
        trimKotlin (driveText org (optJSONObject (c.toJson org) "drive") key) ↔
      trimKotlin (driveText org (optJSONObject (c.strays org) "drive") key) =
        trimKotlin (driveText org (optJSONObject [] "drive") key) :=
  drive_iff (fun d => trimKotlin (driveText org d key))
    (congrArg trimKotlin (driveText_same hshare hputs))

theorem driveInt_iff {n fallback : Int} (hmin : -2 ^ 31 ≤ fallback) (hmax : fallback < 2 ^ 31)
    (hshare : c.shareDrivePuts.lookup key = some (putUnless n fallback .int))
    (hputs : c.drivePuts.lookup key = some (some (.int n))) :
    driveInt org (optJSONObject c.toShareJson "drive") key fallback =
        driveInt org (optJSONObject (c.toJson org) "drive") key fallback ↔
      driveInt org (optJSONObject (c.strays org) "drive") key fallback =
        driveInt org (optJSONObject [] "drive") key fallback :=
  drive_iff (fun d => driveInt org d key fallback) (driveInt_same hmin hmax hshare hputs)

/-- A text that `toJson` always writes. -/
theorem given_iff {text fallback : Text}
    (hshare : c.sharePuts.lookup key = some (putUnless text fallback .str))
    (hputs : c.puts.lookup key = some (some (.str text))) :
    trimKotlin (optString org c.toShareJson key fallback) =
        trimKotlin (optString org (c.toJson org) key fallback) ↔
      trimKotlin (optString org (c.strays org) key fallback) =
        trimKotlin (optString org [] key fallback) :=
  text_iff hshare hputs (congrArg trimKotlin (optString_putUnless text fallback))

end

theorem mode_iff (org : OrgJson) (c : FormConfig) :
    (loadFromJson org c.toShareJson).mode = (loadFromJson org (c.toJson org)).mode ↔
      (loadFromJson org (c.strays org)).mode = (loadFromJson org []).mode :=
  setting_iff ((readsOnly_optString "mode" _).comp readMode) rfl rfl rfl

theorem authKey_iff (org : OrgJson) (c : FormConfig) :
    trimKotlin (loadFromJson org c.toShareJson).authKey =
        trimKotlin (loadFromJson org (c.toJson org)).authKey ↔
      trimKotlin (loadFromJson org (c.strays org)).authKey =
        trimKotlin (loadFromJson org []).authKey := by
  apply text_iff rfl rfl
  rw [trimKotlin_putText, optString, lookup_alone]
  rfl

theorem upstreamSocks5_iff (org : OrgJson) (c : FormConfig) :
    trimKotlin (loadFromJson org c.toShareJson).upstreamSocks5 =
        trimKotlin (loadFromJson org (c.toJson org)).upstreamSocks5 ↔
      trimKotlin (loadFromJson org (c.strays org)).upstreamSocks5 =
        trimKotlin (loadFromJson org []).upstreamSocks5 :=
  text_iff rfl rfl ((trimKotlin_putText _).trans (trimKotlin_putTrimmed _).symm)

theorem frontingGroups_iff (org : OrgJson) (c : FormConfig) :
    (loadFromJson org c.toShareJson).frontingGroups =
        (loadFromJson org (c.toJson org)).frontingGroups ↔
      (loadFromJson org (c.strays org)).frontingGroups = (loadFromJson org []).frontingGroups :=
  setting_iff ((readsOnly_optJSONArray "fronting_groups").comp fun items =>
    (items.getD []).filterMap (readFrontingGroup org)) rfl rfl rfl

/-- **The settings.** What is shared reads like what is saved exactly if what `toJson` splices in
reads like nothing. -/
theorem shared_iff (org : OrgJson) (c : FormConfig) :
    (loadFromJson org c.toShareJson).shared = (loadFromJson org (c.toJson org)).shared ↔
      (loadFromJson org (c.strays org)).shared = (loadFromJson org []).shared := by
  unfold RahgozarConfig.shared
  rw [Shared.mk.injEq, Shared.mk.injEq]
  refine and_congr (mode_iff org c) <| and_congr (authKey_iff org c) <|
    and_congr (given_iff rfl rfl) <| and_congr (given_iff rfl rfl) <|
    and_congr (texts_iff rfl rfl) <|
    and_congr (flag_iff rfl rfl (optBoolean_putUnless _ _)) <|
    and_congr (given_iff rfl rfl) <|
    and_congr (number_iff rfl rfl (optInt_putUnless (by decide) (by decide))) <|
    and_congr (flag_iff rfl rfl (optBoolean_putUnless_ifTrue _)) <|
    and_congr (number_iff rfl rfl rfl) <| and_congr (number_iff rfl rfl rfl) <|
    and_congr (flag_iff rfl rfl (optBoolean_putUnless _ _)) <|
    and_congr (flag_iff rfl rfl (optBoolean_putUnless _ _)) <|
    and_congr (upstreamSocks5_iff org c) <| and_congr (texts_iff rfl rfl) <|
    and_congr (flag_iff rfl rfl (optBoolean_putUnless _ _)) <|
    and_congr (flag_iff rfl rfl (optBoolean_putUnless _ _)) <|
    and_congr (flag_iff rfl rfl (optBoolean_putUnless_ifTrue _)) <|
    and_congr (flag_iff rfl rfl (optBoolean_putUnless_ifTrue _)) <|
    and_congr (texts_iff rfl rfl) <| and_congr (texts_iff rfl rfl) <|
    and_congr (frontingGroups_iff org c) <|
    and_congr (driveText_iff rfl rfl) <| and_congr (driveText_iff rfl rfl) <|
    and_congr (driveText_iff rfl rfl) <|
    and_congr (driveInt_iff (by decide) (by decide) rfl rfl) <|
    driveInt_iff (by decide) (by decide) rfl rfl

/-- A key that `toJson` always writes is not free. -/
theorem read_strays {α : Type} {read : Object → α} (h : ReadsOnly key read) {v : Json}
    (hputs : c.puts.lookup key = some (some v)) : read (c.strays org) = read [] := by
  apply h
  rw [strays, lookup_spliced, lookup_present_eq (nodup_keys_puts c.toRahgozarConfig) hputs]
  rfl

/-- What is spliced in has settings only under the keys that `toJson` may leave out. -/
theorem bringsNothing_iff (org : OrgJson) (c : FormConfig) :
    (loadFromJson org (c.strays org)).shared = (loadFromJson org []).shared ↔
      BringsNothing org (c.strays org) := by
  constructor
  · intro h
    exact {
      sniHosts := List.map_eq_nil_iff.mp (congrArg Shared.sniHosts h)
      forceHttp1 := congrArg Shared.forceHttp1 h
      coalesceStepMs := congrArg Shared.coalesceStepMs h
      coalesceMaxMs := congrArg Shared.coalesceMaxMs h
      upstreamSocks5 := trimKotlin_eq_nil_iff.mp (congrArg Shared.upstreamSocks5 h)
      passthroughHosts := List.map_eq_nil_iff.mp (congrArg Shared.passthroughHosts h)
      youtubeViaRelay := congrArg Shared.youtubeViaRelay h
      sabrStrip := congrArg Shared.sabrStrip h
      bypassDohHosts := List.map_eq_nil_iff.mp (congrArg Shared.bypassDohHosts h)
      relayUrlPatterns := List.map_eq_nil_iff.mp (congrArg Shared.relayUrlPatterns h)
      frontingGroups := congrArg Shared.frontingGroups h }
  · intro h
    have text : ∀ {key : String} {fallback : Text} {v : Json},
        c.puts.lookup key = some (some v) →
          trimKotlin (optString org (c.strays org) key fallback) = trimKotlin fallback :=
      fun hputs => read_strays ((readsOnly_optString _ _).comp trimKotlin) hputs
    have flag : ∀ {key : String} {fallback : Bool} {v : Json},
        c.puts.lookup key = some (some v) →
          optBoolean org (c.strays org) key fallback = fallback :=
      fun hputs => read_strays (readsOnly_optBoolean _ _) hputs
    have drive : ∀ {α : Type} (f : Option Object → α),
        f (optJSONObject (c.strays org) "drive") = f none :=
      fun f => read_strays ((readsOnly_optJSONObject "drive").comp f) rfl
    unfold RahgozarConfig.shared
    rw [Shared.mk.injEq]
    exact ⟨read_strays ((readsOnly_optString "mode" _).comp readMode) rfl, text rfl, text rfl,
      text rfl, List.map_eq_nil_iff.mpr h.sniHosts, flag rfl, text rfl,
      read_strays (readsOnly_optInt "parallel_relay" 1) rfl, h.forceHttp1, h.coalesceStepMs,
      h.coalesceMaxMs, flag rfl, flag rfl, trimKotlin_eq_nil_iff.mpr h.upstreamSocks5,
      List.map_eq_nil_iff.mpr h.passthroughHosts, flag rfl, flag rfl, h.youtubeViaRelay,
      h.sabrStrip, List.map_eq_nil_iff.mpr h.bypassDohHosts,
      List.map_eq_nil_iff.mpr h.relayUrlPatterns, h.frontingGroups,
      drive fun d => trimKotlin (driveText org d "folder_id"),
      drive fun d => trimKotlin (driveText org d "relay_pubkey"),
      drive fun d => trimKotlin (driveText org d "oauth_client_id"),
      drive fun d => driveInt org d "poll_interval_ms" 300,
      drive fun d => driveInt org d "max_concurrent_uploads" 8⟩

end FormConfig

end Rahgozar.Settings
