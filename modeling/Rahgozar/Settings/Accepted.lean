import Rahgozar.Settings.Validate

set_option autoImplicit false

/-! # What `validate` refuses

Each part of `Config::validate` as a condition on the configuration, without the messages.
-/

namespace Rahgozar.Settings

open Rahgozar.Settings.Config (validateFrontingGroup)
open Drive (trim)
open Proxy (Mode trimEndDots)
open Refusal

variable {crates : Crates} {c : Config} {mode : Mode}

theorem refuses_validateAppsScript : Refuses c.validateAppsScript ↔
    (trim c.authKey = [] ∨ c.authKey = "CHANGE_ME_TO_A_STRONG_SECRET".toList) ∨
      c.scriptIdsResolved = [] ∨ ∃ id ∈ c.scriptIdsResolved,
        id = [] ∨ id = "YOUR_APPS_SCRIPT_DEPLOYMENT_ID".toList := by
  simp only [Config.validateAppsScript, refuses_seq, refuses_rejectIf, refuses_checkEach,
    Bool.or_eq_true, List.isEmpty_iff, decide_eq_true_eq]

theorem refuses_validateDrive : Refuses (c.validateDrive crates) ↔
    trim c.drive.oauthClientId = [] ∨ trim c.drive.oauthClientSecret = [] ∨
      trim c.drive.oauthRefreshToken = [] ∨ trim c.drive.folderId = [] ∨
      trim c.drive.relayPubkey = [] ∨ Refuses (crates.fromBech32m c.drive.relayPubkey) ∨
      c.drive.pollIntervalMs = 0 ∨ c.drive.maxConcurrentUploads = 0 ∨ trim c.googleIp = [] ∨
      crates.isIpAddr (trim c.googleIp) = false := by
  simp only [Config.validateDrive, Config.requireDrive, refuses_seq, refuses_rejectIf,
    refuses_mapError, List.isEmpty_iff, decide_eq_true_eq, Bool.not_eq_true']

/-- A fronting group that is refused, wherever it stands. -/
def FrontingGroup.Refused (crates : Crates) (g : FrontingGroup) : Prop :=
  trim g.name = [] ∨ (g.forceIp = false ∧ trim g.ip = []) ∨ trim g.sni = [] ∨
    Refuses (crates.serverName g.sni) ∨ g.domains = [] ∨ (∃ d ∈ g.domains, trim d = []) ∨
    ∃ v ∈ g.verifyNames, trimEndDots (trim v) = [] ∨
      Refuses (crates.serverName (trimEndDots (trim v)))

theorem refuses_validateFrontingGroup (i : Nat) (g : FrontingGroup) :
    Refuses (validateFrontingGroup crates i g) ↔ g.Refused crates := by
  simp only [validateFrontingGroup, FrontingGroup.Refused, refuses_seq, refuses_rejectIf,
    refuses_mapError, refuses_checkEach, List.isEmpty_iff, Bool.and_eq_true, Bool.not_eq_true']

/-- The names of `direct_mode`. -/
def Config.validateDirectMode (c : Config) : Except String Unit := do
  checkEach (validateDirectModeHostname "direct_mode.fronts") 0 c.directMode.fronts
  checkEach (validateDirectModeHostname "direct_mode.google_domains") 0 c.directMode.googleDomains
  checkEach (validateDirectModeHostname "direct_mode.sanctioned_domains") 0
    c.directMode.sanctionedDomains

theorem refuses_validate (hmode : Mode.fromStr (display c.mode) = some mode) :
    Refuses (c.validate crates) ↔
      (mode.usesAppsScriptRelay = true ∧ Refuses c.validateAppsScript) ∨
        (mode = .drive ∧ Refuses (c.validateDrive crates)) ∨ c.scanBatchSize = 0 ∨
        c.socks5Port = some c.listenPort ∨ (∃ g ∈ c.frontingGroups, g.Refused crates) ∨
        (∃ p ∈ c.relayUrlPatterns, Refuses (validateRelayUrlPattern p)) ∨
        Refuses c.validateDirectMode := by
  have hkind : c.modeKind = .ok mode := by
    unfold Config.modeKind
    rw [hmode]
  have hpatterns : ∀ (i : Nat) (p : Text), Refuses ((validateRelayUrlPattern p).mapError
      (place "relay_url_patterns" i p ++ ": " ++ ·)) ↔ Refuses (validateRelayUrlPattern p) :=
    fun _ _ => refuses_mapError
  unfold Config.validate Config.validateDirectMode
  rw [refuses_bind, hkind]
  simp only [not_refuses_ok, false_or, Except.ok.injEq, exists_eq_left']
  -- the two parts that depend on the mode are not asked for in the same one
  by_cases hrelay : mode.usesAppsScriptRelay = true
  · have hdrive : mode ≠ .drive := by
      rintro rfl
      cases hrelay
    simp only [hrelay, hdrive, if_true, if_false, refuses_seq, refuses_rejectIf, decide_eq_true_eq,
      refuses_checkEach_iff refuses_validateFrontingGroup, refuses_checkEach_iff hpatterns,
      true_and, false_and, false_or]
  · simp only [hrelay, Bool.false_eq_true, if_false, false_and, false_or]
    by_cases hdrive : mode = .drive
    · simp only [hdrive, if_true, refuses_seq, refuses_rejectIf, decide_eq_true_eq,
        refuses_checkEach_iff refuses_validateFrontingGroup, refuses_checkEach_iff hpatterns,
        true_and]
    · simp only [hdrive, if_false, refuses_seq, refuses_rejectIf, decide_eq_true_eq,
        refuses_checkEach_iff refuses_validateFrontingGroup, refuses_checkEach_iff hpatterns,
        false_and, false_or]

theorem exists_mode_of_not_refuses (h : ¬Refuses (c.validate crates)) :
    ∃ mode, Mode.fromStr (display c.mode) = some mode := by
  cases hmode : Mode.fromStr (display c.mode) with
  | some mode => exact ⟨mode, rfl⟩
  | none =>
      have hkind : Refuses c.modeKind := by
        unfold Config.modeKind
        rw [hmode]
        exact ⟨_, rfl⟩
      exact absurd (refuses_bind.mpr (.inl hkind)) h

/-- What `Config::load` takes. -/
theorem load_eq_ok_iff {o : Object} : Config.load crates o = .ok c ↔
    Config.deserialize o = some c ∧ ¬Refuses (c.validate crates) := by
  unfold Config.load
  cases hd : Config.deserialize o with
  | none => simp
  | some c' =>
      rw [map_eq_ok]
      constructor
      · rintro ⟨u, hu, rfl⟩
        exact ⟨rfl, not_refuses_of_eq_ok hu⟩
      · rintro ⟨hc, hvalid⟩
        cases hc
        obtain ⟨u, hu⟩ := exists_ok_of_not_refuses hvalid
        exact ⟨u, hu, rfl⟩

end Rahgozar.Settings
