import Rahgozar.Fronter.Scripts

set_option autoImplicit false

/-! # Cooldowns are served

A write to the blacklist puts a new entry in the place of the old one, whatever its end, and a
probe that recovers takes out the entry it finds, on the strength of its end alone. The file says
when this cuts no cooldown short: a deployment in cooldown is then handed out only if all others
are blacklisted as well.
-/

namespace Rahgozar.Fronter.Scripts

/-! ## The rule and the condition -/

/-- The deployment has an entry that has not run out. -/
def blacklisted (s : Scripts) (d : String) (now : Nat) : Bool :=
  (s.blacklist.lookup d).any fun e => decide (now < e.untilAt)

/-- A deployment with a running cooldown in force is handed out only if the others are all
blacklisted. -/
def KeepsCooldown (s : Scripts) (e : ScriptEvent) : Prop :=
  ∀ d ∈ s.handedOut e, ∀ x ∈ s.inForce, x.script = d → e.now < x.untilAt →
    ∀ d' ∈ s.config.scriptIds, d' ≠ d → s.blacklisted d' e.now = true

/-- The write to the blacklist that an operation makes: the deployment and the cooldown. -/
def written (s : Scripts) : ScriptEvent → Option (String × Nat)
  | .blacklist d _ => some (d, blacklistCooldown)
  | .timeout d now =>
      if s.config.autoBlacklistStrikes ≤ (s.strike d now).2 then
        some (d, s.config.autoBlacklistCooldown)
      else none
  | .latency d latency _ =>
      if latencyMinDeployments ≤ s.config.scriptIds.length ∧ latencyHardSlowBatch ≤ latency then
        some (d, latencyHardSlowCooldown)
      else none
  | _ => none

/-- A write does not put an earlier end in the place of a later one, and a probe that recovers was
for every cooldown of its deployment that is still running. -/
def NotShortened (s : Scripts) (e : ScriptEvent) : Prop :=
  (∀ w ∈ s.written e, ∀ old ∈ s.blacklist.lookup w.1, old.untilAt ≤ e.now + w.2) ∧
  match e with
  | .probeDone p true now =>
      ∀ x ∈ s.inForce, x.script = p.sid → now < x.untilAt → x.serial = p.serial
  | _ => True

instance (s : Scripts) (e : ScriptEvent) : Decidable (KeepsCooldown s e) :=
  inferInstanceAs (Decidable (∀ d ∈ s.handedOut e, ∀ x ∈ s.inForce, x.script = d →
    e.now < x.untilAt → ∀ d' ∈ s.config.scriptIds, d' ≠ d → s.blacklisted d' e.now = true))

instance (s : Scripts) (e : ScriptEvent) : Decidable (NotShortened s e) :=
  match e with
  | .probeDone _ true _ => inferInstanceAs (Decidable (_ ∧ _))
  | .probeDone _ false _ => inferInstanceAs (Decidable (_ ∧ True))
  | .blacklist _ _ => inferInstanceAs (Decidable (_ ∧ True))
  | .timeout _ _ => inferInstanceAs (Decidable (_ ∧ True))
  | .success _ _ => inferInstanceAs (Decidable (_ ∧ True))
  | .latency _ _ _ => inferInstanceAs (Decidable (_ ∧ True))
  | .probe _ => inferInstanceAs (Decidable (_ ∧ True))
  | .next _ _ _ => inferInstanceAs (Decidable (_ ∧ True))
  | .nextMany _ _ _ => inferInstanceAs (Decidable (_ ∧ True))

/-! ## Cooldowns in force are in the map -/

/-- Every cooldown in force that is running at `now` has an entry that lasts as long. -/
def Served (s : Scripts) (now : Nat) : Prop :=
  ∀ x ∈ s.inForce, now < x.untilAt →
    ∃ e, s.blacklist.lookup x.script = some e ∧ x.untilAt ≤ e.untilAt

theorem Served.later {s : Scripts} {now now' : Nat} (h : s.Served now) (hle : now ≤ now') :
    s.Served now' := fun x hx hlt => h x hx (by omega)

theorem lookup_prune {bl : Blacklist} {now : Nat} {d : String} {e : BlacklistEntry} :
    (prune bl now).lookup d = some e ↔ bl.lookup d = some e ∧ now < e.untilAt := by
  rw [prune, AList.lookup_retain_eq_some, decide_eq_true_iff]

theorem mem_prune {s : Scripts} {now : Nat} {d : String} :
    d ∈ prune s.blacklist now ↔ s.blacklisted d now = true := by
  rw [← AList.lookup_isSome, Option.isSome_iff_exists]
  simp only [lookup_prune, blacklisted, Option.any_eq_true, decide_eq_true_eq]

/-- Pruning takes no entry that a running cooldown needs. -/
theorem Served.prune {s : Scripts} {now : Nat} (h : s.Served now) :
    Served { s with blacklist := Scripts.prune s.blacklist now } now := by
  intro x hx hlt
  obtain ⟨e, he, hle⟩ := h x hx hlt
  exact ⟨e, lookup_prune.mpr ⟨he, by omega⟩, hle⟩

/-- A write that does not shorten keeps the cooldowns, and serves its own. -/
theorem Served.write {s : Scripts} {d : String} {cooldown now : Nat} {probe : Bool}
    (h : s.Served now)
    (hlong : ∀ old ∈ s.blacklist.lookup d, old.untilAt ≤ now + cooldown) :
    (s.blacklistScriptInner d cooldown probe now).Served now := by
  intro x hx hlt
  by_cases hd : x.script = d
  · refine ⟨_, by rw [hd]; exact AList.lookup_insert _, ?_⟩
    rcases List.mem_append.mp hx with hx | hx
    · obtain ⟨e, he, hle⟩ := h x hx hlt
      rw [hd] at he
      exact le_trans hle (hlong e he)
    · rw [List.mem_singleton.mp hx]
  · rcases List.mem_append.mp hx with hx | hx
    · obtain ⟨e, he, hle⟩ := h x hx hlt
      exact ⟨e, (AList.lookup_insert_ne hd).trans he, hle⟩
    · exact absurd (by rw [List.mem_singleton.mp hx]) hd

/-- A probe that recovers lifts the cooldowns whose entry it may take out. -/
theorem Served.probeDone {s : Scripts} {p : Probe} {recovery : Bool} {now : Nat}
    (h : s.Served now) (hown : recovery = true → ∀ x ∈ s.inForce, x.script = p.sid →
      now < x.untilAt → x.serial = p.serial) : (s.probeDone p recovery).Served now := by
  cases recovery with
  | false => exact h
  | true =>
      intro x hx hlt
      obtain ⟨hx, hserial⟩ := List.mem_filter.mp hx
      have hne : x.script ≠ p.sid := by
        intro hsid
        simp [hown rfl x hx hsid hlt] at hserial
      obtain ⟨e, he, hle⟩ := h x hx hlt
      refine ⟨e, ?_, hle⟩
      change (s.applyProbeRecovery p).blacklist.lookup x.script = some e
      unfold applyProbeRecovery
      split
      · split_ifs
        · exact (AList.lookup_erase_ne hne).trans he
        · exact he
      · exact he

/-- What passes the guard of either pass is not blacklisted. -/
theorem not_blacklisted_of_free {s : Scripts} {now : Nat} {d : String}
    (h : free (Scripts.prune s.blacklist now) d = true) : s.blacklisted d now = false := by
  rw [free, decide_eq_true_iff, mem_prune] at h
  simpa using h

theorem free_of_healthy {bl : Blacklist} {slow : List String} {d : String}
    (h : healthy bl slow d = true) : free bl d = true := by
  rw [healthy, Bool.and_eq_true] at h
  exact h.1

theorem blacklisted_of_not_free {s : Scripts} {now : Nat} {d : String}
    (h : free (Scripts.prune s.blacklist now) d = false) : s.blacklisted d now = true := by
  rw [free, decide_eq_false_iff_not, not_not] at h
  exact mem_prune.mp h

/-- `next_script_id`: what it hands out is not blacklisted, or everything is; and it keeps the
cooldowns, lifting those of a deployment it releases. -/
theorem nextScriptId_spec {s t : Scripts} {slow : List String} {tie d : String} {now : Nat}
    (h : s.nextScriptId slow tie now = some (d, t)) (hs : s.Served now) :
    (s.blacklisted d now = false ∨ ∀ d' ∈ s.config.scriptIds, s.blacklisted d' now = true) ∧
      t.Served now := by
  unfold nextScriptId at h
  simp only at h
  split at h
  · -- the first pass
    rename_i d₁ hpick
    cases h
    exact ⟨.inl (not_blacklisted_of_free (free_of_healthy (pick_some hpick))), hs.prune⟩
  · -- the second pass
    rename_i d₂ _ hpick
    cases h
    exact ⟨.inl (not_blacklisted_of_free (pick_some hpick)), hs.prune⟩
  all_goals
    -- no pass has found anything: every deployment is blacklisted
    rename_i hpick htie
    have hall : ∀ d' ∈ s.config.scriptIds, s.blacklisted d' now = true := fun d' hd' =>
      blacklisted_of_not_free (not_ok_of_pick_none hpick hd')
    split_ifs at h
    cases h
    refine ⟨.inr hall, ?_⟩
  · intro x hx hlt
    obtain ⟨hx, hne⟩ := List.mem_filter.mp hx
    obtain ⟨e, he, hle⟩ := hs.prune x hx hlt
    exact ⟨e, (AList.lookup_erase_ne (by simpa using hne)).trans he, hle⟩
  · exact hs.prune

theorem nextScriptIds_spec {s : Scripts} {want : Nat} (slow : List String) (now : Nat)
    (hwant : 0 < want) (hs : s.Served now) :
    (∀ d ∈ (s.nextScriptIds want slow now).1, s.blacklisted d now = false ∨
      ∀ d' ∈ s.config.scriptIds, s.blacklisted d' now = true) ∧
      (s.nextScriptIds want slow now).2.Served now := by
  refine ⟨fun d hd => ?_, hs.prune⟩
  unfold nextScriptIds at hd
  simp only at hd
  split_ifs at hd with hempty
  · refine .inr fun d' hd' => ?_
    rw [List.isEmpty_iff] at hempty
    rw [eq_nil_of_pickMany_nil hempty] at hempty
    exact blacklisted_of_not_free (not_ok_of_pickMany_nil hwant hempty hd')
  · refine .inl (not_blacklisted_of_free ?_)
    rcases pickMany_mem hd with hd | hd
    · rcases pickMany_mem hd with hd | hd
      · cases hd
      · exact free_of_healthy hd
    · exact hd

/-! ## One step -/

theorem keepsCooldown_of_free {s : Scripts} {e : ScriptEvent} (hs : s.Served e.now)
    (h : ∀ d ∈ s.handedOut e, s.blacklisted d e.now = false ∨
      ∀ d' ∈ s.config.scriptIds, s.blacklisted d' e.now = true) : s.KeepsCooldown e := by
  intro d hd x hx hscript hlt d' hd' _
  rcases h d hd with hfree | hall
  · -- A running cooldown in force has an entry that has not run out.
    obtain ⟨entry, hentry, hle⟩ := hs x hx hlt
    rw [hscript] at hentry
    have : e.now < entry.untilAt := by omega
    simp [blacklisted, hentry, this] at hfree
  · exact hall d' hd'

theorem apply_spec {s t : Scripts} {e : ScriptEvent} {ds : List String} (hs : s.Served e.now)
    (hC : s.NotShortened e) (h : s.apply e = some (ds, t)) :
    (∀ d ∈ ds, s.blacklisted d e.now = false ∨
      ∀ d' ∈ s.config.scriptIds, s.blacklisted d' e.now = true) ∧ t.Served e.now := by
  -- most of the operations hand out no script
  have hnil : ∀ d ∈ ([] : List String), s.blacklisted d e.now = false ∨
      ∀ d' ∈ s.config.scriptIds, s.blacklisted d' e.now = true := fun d hd => by cases hd
  obtain ⟨hwrite, hprobe⟩ := hC
  cases e with
  | blacklist d now =>
      cases h
      exact ⟨hnil, hs.write (hwrite _ rfl)⟩
  | timeout d now =>
      cases h
      refine ⟨hnil, ?_⟩
      unfold recordTimeoutStrike
      simp only
      split_ifs with hstrikes
      · -- the entry is written with the last strike only
        refine Served.write hs (hwrite (d, s.config.autoBlacklistCooldown) ?_)
        simp [written, hstrikes]
      · exact hs
  | success d now =>
      cases h
      exact ⟨hnil, hs⟩
  | latency d latency now =>
      cases h
      refine ⟨hnil, ?_⟩
      unfold recordBatchLatency
      split_ifs with hslow
      · refine hs.write (hwrite (d, latencyHardSlowCooldown) ?_)
        simp [written, hslow]
      · exact hs
  | probe now =>
      cases h
      exact ⟨hnil, hs.prune⟩
  | probeDone p recovery now =>
      simp only [apply] at h
      split_ifs at h
      cases h
      refine ⟨hnil, hs.probeDone fun hrec => ?_⟩
      subst hrec
      exact hprobe
  | next slow tie now =>
      obtain ⟨⟨d, u⟩, hnext, heq⟩ := Option.map_eq_some_iff.mp h
      cases heq
      obtain ⟨hd, hu⟩ := nextScriptId_spec hnext hs
      refine ⟨fun d' hd' => ?_, hu⟩
      rw [List.mem_singleton.mp hd']
      exact hd
  | nextMany want slow now =>
      simp only [apply] at h
      split_ifs at h with hwant
      have hspec := nextScriptIds_spec slow now (by omega : 0 < want) hs
      rw [Option.some.injEq] at h
      rw [h] at hspec
      exact hspec

theorem step_served {s t : Scripts} {e : ScriptEvent} (hs : s.Served s.now)
    (hC : s.NotShortened e) (h : s.step e = some t) : t.Served t.now := by
  unfold step at h
  split_ifs at h with hnow
  obtain ⟨⟨ds, u⟩, happly, rfl⟩ := Option.map_eq_some_iff.mp h
  exact (apply_spec (hs.later hnow) hC happly).2

theorem keepsCooldown_of_served {s : Scripts} {e : ScriptEvent} (hs : s.Served s.now)
    (hnow : s.now ≤ e.now) (hC : s.NotShortened e) : s.KeepsCooldown e := by
  refine keepsCooldown_of_free (hs.later hnow) fun d hd => ?_
  unfold handedOut at hd
  cases happly : s.apply e with
  | none => simp [happly] at hd
  | some r =>
      rw [happly] at hd
      exact (apply_spec (hs.later hnow) hC happly).1 d hd

/-- **Cooldowns.** In a run in which no write moves the end of an entry forward and every probe
that recovers was for all running cooldowns of its deployment, no cooldown is cut short. -/
theorem cooldown_kept (config : ScriptConfig) (es : List ScriptEvent)
    (h : StepRun.AllSteps step NotShortened (init config) es) :
    StepRun.AllSteps step KeepsCooldown (init config) es := by
  have h0 : (init config).Served (init config).now := fun x hx => by cases hx
  refine StepRun.allSteps_of_inv (fun s e t hs hC ht => step_served hs hC ht)
    (fun s e t hs hC ht => ?_) h0 h
  have hnow : s.now ≤ e.now := by
    unfold step at ht
    split_ifs at ht with hnow
    exact hnow
  exact keepsCooldown_of_served hs hnow hC

/-- Three deployments, with the default settings for timeouts. -/
def threeScripts : ScriptConfig where
  scriptIds := ["a", "b", "c"]
  autoBlacklistStrikes := 3
  autoBlacklistWindow := secs 30
  autoBlacklistCooldown := secs 120
  scriptIds_ne_nil := by decide
  strikes_pos := by decide

/-- A quota error, a slow batch of another deployment, and a choice. -/
theorem cooldown_kept_quota :
    StepRun.AllSteps step NotShortened (init threeScripts)
        [.blacklist "a" 0, .latency "b" (secs 7) (secs 10), .next [] "" (secs 50)] ∧
      StepRun.AllSteps step KeepsCooldown (init threeScripts)
        [.blacklist "a" 0, .latency "b" (secs 7) (secs 10), .next [] "" (secs 50)] := by
  have h : StepRun.AllSteps step NotShortened (init threeScripts)
      [.blacklist "a" 0, .latency "b" (secs 7) (secs 10), .next [] "" (secs 50)] := by
    decide +kernel
  exact ⟨h, cooldown_kept threeScripts _ h⟩

/-- The slow batch is one of the deployment with the quota error: its 30 s replace the 600 s. -/
theorem cooldown_cut_short :
    ¬ StepRun.AllSteps step KeepsCooldown (init threeScripts)
      [.blacklist "a" 0, .latency "a" (secs 7) (secs 10), .next [] "" (secs 50)] := by
  decide +kernel

end Rahgozar.Fronter.Scripts
