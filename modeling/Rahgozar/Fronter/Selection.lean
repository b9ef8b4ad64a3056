import Rahgozar.Fronter.Cooldown

set_option autoImplicit false

/-! # Which deployment is selected

`next_script_id` and `next_script_ids` go round the list of deployments from where the shared
counter stands, once for a deployment that is neither blacklisted nor slow and once more for one
that is not blacklisted. A pass is as long as the list, so it meets every deployment unless it has
what it wants before. The counter is a number without bound here; the source's is a `usize`, and
wraps after 2⁶⁴ selections.
-/

namespace Rahgozar.Fronter.Scripts

variable {ids picked : List String} {ok : String → Bool} {want fuel idx : Nat} {d : String}

/-! ## One pass -/

theorem scriptAt_mem (hids : ids ≠ []) (idx : Nat) : scriptAt ids idx ∈ ids := by
  have hlt : idx % ids.length < ids.length := Nat.mod_lt _ (List.length_pos_iff.mpr hids)
  simp [scriptAt, List.getElem?_eq_getElem hlt]

theorem pick_mem (hids : ids ≠ []) (h : (pick ids ok fuel idx).1 = some d) : d ∈ ids := by
  induction fuel generalizing idx with
  | zero => cases h
  | succ fuel ih =>
      simp only [pick] at h
      split_ifs at h with hok
      · cases h
        exact scriptAt_mem hids idx
      · exact ih h

theorem pickMany_keeps (hd : d ∈ picked) : d ∈ (pickMany ids ok want fuel idx picked).1 := by
  induction fuel generalizing idx picked with
  | zero => exact hd
  | succ fuel ih =>
      simp only [pickMany]
      split_ifs
      · exact hd
      · exact ih (List.mem_append_left _ hd)
      · exact ih hd

/-- What a pass of `next_script_ids` makes of the deployments picked before it. -/
structure PickedMany (ids : List String) (ok : String → Bool) (want : Nat)
    (picked result : List String) : Prop where
  mem : ∀ d ∈ result, d ∈ picked ∨ (d ∈ ids ∧ ok d = true)
  nodup : picked.Nodup → result.Nodup
  length_le : result.length ≤ max want picked.length

theorem pickMany_spec (hids : ids ≠ []) (ok : String → Bool) (want fuel idx : Nat)
    (picked : List String) :
    PickedMany ids ok want picked (pickMany ids ok want fuel idx picked).1 := by
  induction fuel generalizing idx picked with
  | zero => exact ⟨fun d hd => .inl hd, id, le_max_right _ _⟩
  | succ fuel ih =>
      simp only [pickMany]
      split_ifs with hwant hnew
      · exact ⟨fun d hd => .inl hd, id, le_max_right _ _⟩
      · obtain ⟨hmem, hnodup, hle⟩ := ih (idx + 1) (picked ++ [scriptAt ids idx])
        obtain ⟨hok, hfresh⟩ : ok (scriptAt ids idx) = true ∧ scriptAt ids idx ∉ picked := by
          simpa using hnew
        refine ⟨fun d hd => ?_, fun hpicked => hnodup ?_, ?_⟩
        · rcases hmem d hd with hd | hd
          · rcases List.mem_append.mp hd with hd | hd
            · exact .inl hd
            · rw [List.mem_singleton.mp hd]
              exact .inr ⟨scriptAt_mem hids idx, hok⟩
          · exact .inr hd
        · rw [List.nodup_append]
          refine ⟨hpicked, List.nodup_singleton _, fun a ha b hb => ?_⟩
          rw [List.mem_singleton.mp hb]
          rintro rfl
          exact hfresh ha
        · rw [List.length_append, List.length_singleton] at hle
          omega
      · exact ih (idx + 1) picked

theorem pickMany_full (h : want ≤ picked.length) :
    (pickMany ids ok want fuel idx picked).1 = picked := by
  cases fuel with
  | zero => rfl
  | succ fuel =>
      simp only [pickMany]
      rw [if_pos h]

/-- A pass that does not get as many as it wants has taken all it may take on its way. -/
theorem pickMany_complete (h : (pickMany ids ok want fuel idx picked).1.length < want) :
    ∀ k < fuel, ok (scriptAt ids (idx + k)) = true →
      scriptAt ids (idx + k) ∈ (pickMany ids ok want fuel idx picked).1 := by
  induction fuel generalizing idx picked with
  | zero =>
      intro k hk
      omega
  | succ fuel ih =>
      intro k hk hok
      -- what comes after the first position is left to the rest of the pass
      have hlater : ∀ picked', (pickMany ids ok want fuel (idx + 1) picked').1.length < want →
          ∀ k' < fuel, k = k' + 1 →
            scriptAt ids (idx + k) ∈ (pickMany ids ok want fuel (idx + 1) picked').1 := by
        rintro picked' hlt k' hk' rfl
        have hrest := ih hlt k' hk'
        rw [Nat.add_assoc, Nat.add_comm 1 k'] at hrest
        exact hrest hok
      simp only [pickMany] at h ⊢
      split_ifs at h ⊢ with hwant hnew
      · exact absurd h (by dsimp only; omega)
      · cases k with
        | zero => exact pickMany_keeps (by simp)
        | succ k => exact hlater _ h k (by omega) rfl
      · cases k with
        | zero =>
            refine pickMany_keeps ?_
            rw [Nat.add_zero] at hok ⊢
            simpa [hok] using hnew
        | succ k => exact hlater _ h k (by omega) rfl

/-- A whole turn that does not get as many as it wants has all there are. -/
theorem mem_pickMany_of_length_lt
    (h : (pickMany ids ok want ids.length idx picked).1.length < want) (hd : d ∈ ids)
    (hok : ok d = true) : d ∈ (pickMany ids ok want ids.length idx picked).1 := by
  obtain ⟨k, hk, rfl⟩ := exists_scriptAt hd idx
  exact pickMany_complete h k hk hok

/-! ## `next_script_id` -/

/-- The deployment is selected by the first pass, by the second, or it is the one whose cooldown
ends first, and its entry is removed. -/
def Selected (s : Scripts) (slow : List String) (now : Nat) (d : String) (t : Scripts) : Prop :=
  if ∃ d' ∈ s.config.scriptIds, s.blacklisted d' now = false ∧ d' ∉ slow then
    (d ∈ s.config.scriptIds ∧ s.blacklisted d now = false ∧ d ∉ slow) ∧
      t.blacklist = prune s.blacklist now
  else if ∃ d' ∈ s.config.scriptIds, s.blacklisted d' now = false then
    (d ∈ s.config.scriptIds ∧ s.blacklisted d now = false) ∧
      t.blacklist = prune s.blacklist now
  else
    (∃ e, (prune s.blacklist now).lookup d = some e ∧
      ∀ d' e', (prune s.blacklist now).lookup d' = some e' → e.untilAt ≤ e'.untilAt) ∧
      t.blacklist = (prune s.blacklist now).erase d

section

variable {s t : Scripts} {slow : List String} {now : Nat} {tie : String}

theorem free_iff : free (prune s.blacklist now) d = true ↔ s.blacklisted d now = false := by
  rw [free, decide_eq_true_iff, mem_prune, Bool.not_eq_true]

theorem healthy_iff :
    healthy (prune s.blacklist now) slow d = true ↔ s.blacklisted d now = false ∧ d ∉ slow := by
  rw [← free_iff]
  simp [healthy, free]

theorem not_exists_fast (h : (pick s.config.scriptIds (healthy (prune s.blacklist now) slow)
    s.config.scriptIds.length idx).1 = none) :
    ¬ ∃ d ∈ s.config.scriptIds, s.blacklisted d now = false ∧ d ∉ slow := by
  rintro ⟨d, hd, hok⟩
  exact absurd (healthy_iff.mpr hok) (by rw [not_ok_of_pick_none h hd]; exact Bool.false_ne_true)

theorem not_exists_free (h : (pick s.config.scriptIds (free (prune s.blacklist now))
    s.config.scriptIds.length idx).1 = none) :
    ¬ ∃ d ∈ s.config.scriptIds, s.blacklisted d now = false := by
  rintro ⟨d, hd, hok⟩
  exact absurd (free_iff.mpr hok) (by rw [not_ok_of_pick_none h hd]; exact Bool.false_ne_true)

theorem selected_of_nextScriptId (h : s.nextScriptId slow tie now = some (d, t)) :
    s.Selected slow now d t := by
  unfold nextScriptId at h
  simp only at h
  unfold Selected
  split at h
  · -- the first pass
    rename_i d₁ hpick
    cases h
    have hmem := pick_mem s.config.scriptIds_ne_nil hpick
    have hok := healthy_iff.mp (pick_some hpick)
    rw [if_pos ⟨d, hmem, hok⟩]
    exact ⟨⟨hmem, hok⟩, rfl⟩
  · -- the second pass, after a first one that has seen all
    rename_i d₂ hnone hpick
    cases h
    have hmem := pick_mem s.config.scriptIds_ne_nil hpick
    have hok := free_iff.mp (pick_some hpick)
    rw [if_neg (not_exists_fast hnone), if_pos ⟨d, hmem, hok⟩]
    exact ⟨⟨hmem, hok⟩, rfl⟩
  · -- all are blacklisted
    rename_i e hnone₁ hnone₂ hentry
    rw [if_neg (not_exists_fast hnone₁), if_neg (not_exists_free hnone₂)]
    split_ifs at h with hmin
    cases h
    exact ⟨⟨e, hentry, fun d' e' he' => hmin ⟨d', e'⟩ (AList.mem_lookup_iff.mp he')⟩, rfl⟩
  · -- all are blacklisted, so there are entries
    rename_i hnone₁ hnone₂ hentry
    split_ifs at h with hempty
    obtain ⟨d', hd'⟩ := List.exists_mem_of_ne_nil _ s.config.scriptIds_ne_nil
    have hmem : d' ∈ prune s.blacklist now := by
      by_contra hnot
      exact not_exists_free hnone₂ ⟨d', hd', free_iff.mp (by simpa [free] using hnot)⟩
    rw [List.isEmpty_iff] at hempty
    rw [AList.mem_keys, AList.keys, hempty] at hmem
    cases hmem

/-- One of the entries ends first. -/
theorem exists_first_end (bl : Blacklist) (hne : bl.entries ≠ []) :
    ∃ d e, bl.lookup d = some e ∧ ∀ e' ∈ bl.entries, e.untilAt ≤ e'.2.untilAt := by
  obtain ⟨⟨d, e⟩, hmem, hmin⟩ := bl.entries.toFinset.exists_min_image (fun e => e.2.untilAt)
    (by rwa [List.toFinset_nonempty_iff])
  refine ⟨d, e, AList.mem_lookup_iff.mpr (List.mem_toFinset.mp hmem), fun e' he' => ?_⟩
  exact hmin e' (List.mem_toFinset.mpr he')

/-- The call returns, whichever of the entries that end first the iteration meets. -/
theorem exists_nextScriptId (s : Scripts) (slow : List String) (now : Nat) :
    ∃ tie d t, s.nextScriptId slow tie now = some (d, t) := by
  by_cases hempty : (prune s.blacklist now).entries = []
  · refine ⟨"", ?_⟩
    have hnone : (prune s.blacklist now).lookup "" = none := by
      rw [AList.lookup_eq_none, AList.mem_keys, AList.keys, hempty]
      simp
    unfold nextScriptId
    simp only [hnone, hempty, List.isEmpty_nil, if_true]
    split <;> exact ⟨_, _, rfl⟩
  · obtain ⟨d, e, hentry, hmin⟩ := exists_first_end _ hempty
    refine ⟨d, ?_⟩
    unfold nextScriptId
    simp only [hentry]
    split
    · exact ⟨_, _, rfl⟩
    · exact ⟨_, _, rfl⟩
    · rename_i hlookup
      cases hlookup
      rw [if_pos hmin]
      exact ⟨_, _, rfl⟩
    · rename_i hlookup
      cases hlookup

/-- With entries for configured deployments only, a configured one is selected. -/
theorem Selected.mem (h : s.Selected slow now d t)
    (hknown : ∀ d' ∈ s.blacklist, d' ∈ s.config.scriptIds) : d ∈ s.config.scriptIds := by
  unfold Selected at h
  split_ifs at h
  · exact h.1.1
  · exact h.1.1
  · obtain ⟨⟨e, hentry, -⟩, -⟩ := h
    exact hknown d (AList.lookup_isSome.mp (Option.isSome_iff_exists.mpr
      ⟨e, (lookup_prune.mp hentry).1⟩))

/-! ## `next_script_ids` -/

/-- The configured deployments that are not blacklisted. -/
def freeScripts (s : Scripts) (now : Nat) : List String :=
  s.config.scriptIds.filter fun d => !s.blacklisted d now

/-- Those that are not slow either. -/
def fastScripts (s : Scripts) (slow : List String) (now : Nat) : List String :=
  (s.freeScripts now).filter fun d => !slow.contains d

theorem mem_freeScripts :
    d ∈ s.freeScripts now ↔ d ∈ s.config.scriptIds ∧ s.blacklisted d now = false := by
  simp [freeScripts]

theorem mem_fastScripts :
    d ∈ s.fastScripts slow now ↔
      d ∈ s.config.scriptIds ∧ s.blacklisted d now = false ∧ d ∉ slow := by
  simp [fastScripts, mem_freeScripts, and_assoc]

/-- The picks of the first pass, and of both. -/
def fastPicks (s : Scripts) (want : Nat) (slow : List String) (now : Nat) : List String × Nat :=
  pickMany s.config.scriptIds (healthy (prune s.blacklist now) slow) want
    s.config.scriptIds.length s.scriptIdx []

def allPicks (s : Scripts) (want : Nat) (slow : List String) (now : Nat) : List String :=
  (pickMany s.config.scriptIds (free (prune s.blacklist now)) want s.config.scriptIds.length
    (s.fastPicks want slow now).2 (s.fastPicks want slow now).1).1

theorem nextScriptIds_eq :
    (s.nextScriptIds want slow now).1 = if (s.allPicks want slow now).isEmpty
      then [scriptAt s.config.scriptIds 0] else s.allPicks want slow now := rfl

theorem fastPicks_spec (s : Scripts) (want : Nat) (slow : List String) (now : Nat) :
    (∀ d ∈ (s.fastPicks want slow now).1, d ∈ s.fastScripts slow now) ∧
      (s.fastPicks want slow now).1.Nodup ∧ (s.fastPicks want slow now).1.length ≤ want := by
  obtain ⟨hmem, hnodup, hle⟩ := pickMany_spec s.config.scriptIds_ne_nil
    (healthy (prune s.blacklist now) slow) want s.config.scriptIds.length s.scriptIdx []
  refine ⟨fun d hd => ?_, hnodup List.nodup_nil, by simpa [fastPicks] using hle⟩
  rcases hmem d hd with hd | ⟨hd, hok⟩
  · cases hd
  · exact mem_fastScripts.mpr ⟨hd, healthy_iff.mp hok⟩

theorem allPicks_spec (s : Scripts) (want : Nat) (slow : List String) (now : Nat) :
    (∀ d ∈ s.allPicks want slow now, d ∈ s.freeScripts now) ∧
      (s.allPicks want slow now).Nodup ∧ (s.allPicks want slow now).length ≤ want := by
  obtain ⟨hfast, hnodup₁, hle₁⟩ := s.fastPicks_spec want slow now
  obtain ⟨hmem, hnodup, hle⟩ := pickMany_spec s.config.scriptIds_ne_nil
    (free (prune s.blacklist now)) want s.config.scriptIds.length (s.fastPicks want slow now).2
    (s.fastPicks want slow now).1
  refine ⟨fun d hd => ?_, hnodup hnodup₁, ?_⟩
  · rcases hmem d hd with hd | ⟨hd, hok⟩
    · obtain ⟨hd, hok, -⟩ := mem_fastScripts.mp (hfast d hd)
      exact mem_freeScripts.mpr ⟨hd, hok⟩
    · exact mem_freeScripts.mpr ⟨hd, free_iff.mp hok⟩
  · unfold allPicks
    omega

/-- Fewer picks than are wanted are all there are. -/
theorem allPicks_length (hdistinct : s.config.scriptIds.Nodup) :
    (s.allPicks want slow now).length = min want (s.freeScripts now).length := by
  obtain ⟨hmem, hnodup, hle⟩ := s.allPicks_spec want slow now
  have hsub : (s.allPicks want slow now).length ≤ (s.freeScripts now).length :=
    (hnodup.subperm hmem).length_le
  by_cases hlt : (s.allPicks want slow now).length < want
  · have hall : ∀ d ∈ s.freeScripts now, d ∈ s.allPicks want slow now := by
      intro d hd
      obtain ⟨hd, hok⟩ := mem_freeScripts.mp hd
      exact mem_pickMany_of_length_lt hlt hd (free_iff.mpr hok)
    have hsup : (s.freeScripts now).length ≤ (s.allPicks want slow now).length :=
      ((hdistinct.filter _).subperm hall).length_le
    omega
  · omega

/-- A slow deployment is picked only when all fast ones are. -/
theorem fast_of_slow_mem_allPicks (hd : d ∈ s.allPicks want slow now) (hslow : d ∈ slow) :
    ∀ d' ∈ s.fastScripts slow now, d' ∈ s.allPicks want slow now := by
  obtain ⟨hfast, -, hle⟩ := s.fastPicks_spec want slow now
  have hlt : (s.fastPicks want slow now).1.length < want := by
    refine lt_of_le_of_ne hle fun hfull => ?_
    -- with enough fast ones the second pass picks nothing
    have hsame : s.allPicks want slow now = (s.fastPicks want slow now).1 := by
      unfold allPicks
      exact pickMany_full hfull.ge
    rw [hsame] at hd
    exact (mem_fastScripts.mp (hfast d hd)).2.2 hslow
  intro d' hd'
  obtain ⟨hmem, hok⟩ := mem_fastScripts.mp hd'
  exact pickMany_keeps (mem_pickMany_of_length_lt hlt hmem (healthy_iff.mpr hok))

/-- **Selection.** `next_script_id` returns a deployment that is neither blacklisted nor slow,
else one that is not blacklisted, else the one whose cooldown ends first, and takes out the entry
of that one only. `next_script_ids` returns different ones, as many as are wanted or not
blacklisted, and no slow one before all fast ones. -/
theorem deployments_selected (s : Scripts) (slow : List String) (now : Nat)
    (hdistinct : s.config.scriptIds.Nodup) :
    ((∃ tie d t, s.nextScriptId slow tie now = some (d, t)) ∧
      ∀ tie d t, s.nextScriptId slow tie now = some (d, t) → s.Selected slow now d t ∧
        ((∀ d' ∈ s.blacklist, d' ∈ s.config.scriptIds) → d ∈ s.config.scriptIds)) ∧
    ∀ want picked, (s.nextScriptIds want slow now).1 = picked → picked.Nodup ∧
      (0 < min want (s.freeScripts now).length →
        picked.length = min want (s.freeScripts now).length ∧
        (∀ d ∈ picked, d ∈ s.freeScripts now) ∧
        ∀ d ∈ picked, d ∈ slow → (∀ d' ∈ s.fastScripts slow now, d' ∈ picked) ∨
          (s.fastScripts slow now).length < want) := by
  refine ⟨⟨exists_nextScriptId s slow now, fun tie d t h => ?_⟩, ?_⟩
  · have hselected := selected_of_nextScriptId h
    exact ⟨hselected, hselected.mem⟩
  · rintro want picked rfl
    obtain ⟨hmem, hnodup, -⟩ := s.allPicks_spec want slow now
    rw [nextScriptIds_eq]
    split_ifs with hempty
    · refine ⟨List.nodup_singleton _, fun hpos => absurd hpos ?_⟩
      have hlength : (s.allPicks want slow now).length = min want (s.freeScripts now).length :=
        allPicks_length hdistinct
      rw [← hlength, List.isEmpty_iff.mp hempty]
      exact lt_irrefl 0
    · exact ⟨hnodup, fun _ => ⟨allPicks_length hdistinct, hmem, fun d hd hslow =>
        .inl (fast_of_slow_mem_allPicks hd hslow)⟩⟩

end

/-- Three deployments, the first in cooldown, the counter at the second. -/
def oneInCooldown : Scripts :=
  { (init threeScripts).blacklistScript "a" 0 with scriptIdx := 1 }

/-- The second is slow: the third is selected, and of two the slow one comes last. -/
theorem deployments_selected_three :
    (oneInCooldown.nextScriptId ["b"] "" 1).map Prod.fst = some "c" ∧
      (oneInCooldown.nextScriptIds 2 ["b"] 1).1 = ["c", "b"] ∧
      ((oneInCooldown.nextScriptIds 2 ["b"] 1).1.length
        = min 2 (oneInCooldown.freeScripts 1).length) := by
  have h := deployments_selected oneInCooldown ["b"] 1 (by decide)
  exact ⟨by decide +kernel, by decide +kernel, ((h.2 2 _ rfl).2 (by decide +kernel)).1⟩

end Rahgozar.Fronter.Scripts
