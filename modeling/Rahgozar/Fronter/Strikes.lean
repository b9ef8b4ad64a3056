import Rahgozar.Lib.Window
import Rahgozar.Fronter.Cooldown

set_option autoImplicit false

/-! # Strikes

Timeouts of a deployment in a row take it out of the rotation: as many as `auto_blacklist_strikes`
within `auto_blacklist_window`. `record_timeout_strike` counts them in a fixed window that opens
with the first strike, so a burst that begins in one window and ends in the next is not counted as
one. Beside the state of the selector a run keeps the strikes of each deployment since the last
success or strike-out.
-/

namespace Rahgozar.Fronter

open Scripts (step written)

/-- The strikes of each deployment, newest first. -/
structure StrikeLog where
  scripts : Scripts
  strikes : String → List Nat

namespace StrikeLog

def init (config : ScriptConfig) : StrikeLog := ⟨Scripts.init config, fun _ => []⟩

/-- The log after an operation; it starts anew after a success and when the strikes are out. -/
def record (l : StrikeLog) : ScriptEvent → String → List Nat
  | .timeout d now => Function.update l.strikes d
      (if (l.scripts.written (.timeout d now)).isSome then [] else now :: l.strikes d)
  | .success d _ => Function.update l.strikes d []
  | _ => l.strikes

def step (l : StrikeLog) (e : ScriptEvent) : Option StrikeLog :=
  (l.scripts.step e).map fun t => ⟨t, l.record e⟩

/-- With this strike, `auto_blacklist_strikes` in a row are within the window. -/
def burst (l : StrikeLog) (d : String) (now : Nat) : Bool :=
  Window.burst l.scripts.config.autoBlacklistStrikes l.scripts.config.autoBlacklistWindow now
    (l.strikes d)

/-! ## The rule and the condition -/

/-- A strike blacklists the deployment if it completes a burst, and does not write to the
blacklist if not; neither does a success. -/
def CatchesBursts (l : StrikeLog) : ScriptEvent → Prop
  | .timeout d now =>
      let t := l.scripts.recordTimeoutStrike d now
      if l.burst d now then
        t.writes = l.scripts.writes + 1 ∧ t.blacklist.lookup d =
          some ⟨now + l.scripts.config.autoBlacklistCooldown, false, l.scripts.writes⟩
      else t.writes = l.scripts.writes ∧ t.blacklist.entries = l.scripts.blacklist.entries
  | .success d _ =>
      let t := l.scripts.recordBatchSuccess d
      t.writes = l.scripts.writes ∧ t.blacklist.entries = l.scripts.blacklist.entries
  | _ => True

/-- The window that is open when a strike completes a burst began no later than the burst, and has
not run out. -/
def BurstInWindow (l : StrikeLog) : ScriptEvent → Prop
  | .timeout d now => l.burst d now = true →
      Window.Covers l.scripts.config.autoBlacklistStrikes l.scripts.config.autoBlacklistWindow now
        (l.strikes d) (l.scripts.scriptTimeouts.lookup d)
  | _ => True

instance (l : StrikeLog) (e : ScriptEvent) : Decidable (CatchesBursts l e) :=
  match e with
  | .timeout d now => inferInstanceAs (Decidable (if l.burst d now then _ ∧ _ else _ ∧ _))
  | .success _ _ => inferInstanceAs (Decidable (_ ∧ _))
  | .blacklist _ _ => isTrue trivial
  | .latency _ _ _ => isTrue trivial
  | .probe _ => isTrue trivial
  | .probeDone _ _ _ => isTrue trivial
  | .next _ _ _ => isTrue trivial
  | .nextMany _ _ _ => isTrue trivial

/-! ## The windows and the log -/

/-- Every window has counted the strikes of its deployment that it should, and fewer than put it
out. -/
structure Inv (l : StrikeLog) : Prop where
  past : ∀ d, ∀ t ∈ l.strikes d, t ≤ l.scripts.now
  counts : ∀ d, Window.Counts l.scripts.config.autoBlacklistWindow
    (l.scripts.scriptTimeouts.lookup d) (l.strikes d)
  few : ∀ d, ∀ e ∈ l.scripts.scriptTimeouts.lookup d, e.2 < l.scripts.config.autoBlacklistStrikes

theorem strike_eq (s : Scripts) (d : String) (now : Nat) :
    s.strike d now = Window.tick s.config.autoBlacklistWindow (s.scriptTimeouts.lookup d) now := by
  unfold Scripts.strike Window.tick
  cases s.scriptTimeouts.lookup d <;> simp

/-- The strike that puts the deployment out. -/
theorem recordTimeoutStrike_of_le {s : Scripts} {d : String} {now : Nat}
    (h : s.config.autoBlacklistStrikes ≤ (s.strike d now).2) :
    s.recordTimeoutStrike d now = { s with scriptTimeouts := s.scriptTimeouts.erase d
      }.blacklistScriptFor d s.config.autoBlacklistCooldown now := by
  unfold Scripts.recordTimeoutStrike
  exact if_pos h

theorem recordTimeoutStrike_of_lt {s : Scripts} {d : String} {now : Nat}
    (h : (s.strike d now).2 < s.config.autoBlacklistStrikes) :
    s.recordTimeoutStrike d now
      = { s with scriptTimeouts := s.scriptTimeouts.insert d (s.strike d now) } := by
  unfold Scripts.recordTimeoutStrike
  exact if_neg (Nat.not_le.mpr h)

theorem written_timeout (s : Scripts) (d : String) (now : Nat) :
    (s.written (.timeout d now)).isSome
      = decide (s.config.autoBlacklistStrikes ≤ (s.strike d now).2) := by
  unfold Scripts.written
  dsimp only
  split_ifs with h <;> simp [h]

namespace Inv

variable {l m : StrikeLog} {e : ScriptEvent}

theorem init (config : ScriptConfig) : Inv (StrikeLog.init config) where
  past d t ht := by cases ht
  counts d := Window.Counts.nil
  few d e he := by cases he

/-- The windows of the other deployments do not change. -/
theorem of_eq {t : Scripts} (h : Inv l) (hnow : l.scripts.now ≤ t.now)
    (hconfig : t.config = l.scripts.config)
    (htimeouts : t.scriptTimeouts = l.scripts.scriptTimeouts) :
    Inv ⟨t, l.strikes⟩ where
  past d u hu := le_trans (h.past d u hu) hnow
  counts d := by
    dsimp only
    rw [hconfig, htimeouts]
    exact h.counts d
  few d e he := by
    dsimp only at he ⊢
    rw [hconfig]
    rw [htimeouts] at he
    exact h.few d e he

theorem catchesBursts_iff (h : Inv l) (e : ScriptEvent) :
    CatchesBursts l e ↔ BurstInWindow l e := by
  cases e with
  | timeout d now =>
      have hcount : l.scripts.config.autoBlacklistStrikes ≤ (l.scripts.strike d now).2 →
          l.burst d now = true := by
        rw [strike_eq]
        exact Window.burst_of_le_count (h.counts d) l.scripts.config.strikes_pos
      have hiff : l.burst d now = true →
          (l.scripts.config.autoBlacklistStrikes ≤ (l.scripts.strike d now).2 ↔
            Window.Covers l.scripts.config.autoBlacklistStrikes
              l.scripts.config.autoBlacklistWindow now (l.strikes d)
              (l.scripts.scriptTimeouts.lookup d)) := by
        rw [strike_eq]
        exact Window.le_count_iff_of_burst (h.counts d) (h.few d)
      unfold CatchesBursts BurstInWindow
      dsimp only
      by_cases hle : l.scripts.config.autoBlacklistStrikes ≤ (l.scripts.strike d now).2
      · have hburst : l.burst d now = true := hcount hle
        rw [recordTimeoutStrike_of_le hle, if_pos hburst]
        exact ⟨fun _ _ => (hiff hburst).mp hle, fun _ => ⟨rfl, AList.lookup_insert _⟩⟩
      · rw [recordTimeoutStrike_of_lt (Nat.not_le.mp hle)]
        by_cases hburst : l.burst d now = true
        · -- a burst that is not counted out
          rw [if_pos hburst]
          refine ⟨fun hlaw => absurd hlaw.1 (by simp), fun hcovers => ?_⟩
          exact absurd ((hiff hburst).mpr (hcovers hburst)) hle
        · rw [if_neg hburst]
          exact ⟨fun _ hb => absurd hb hburst, fun _ => ⟨rfl, rfl⟩⟩
  | success d now => exact ⟨fun _ => trivial, fun _ => ⟨rfl, rfl⟩⟩
  | _ => exact Iff.rfl

/-- The window and the log of one deployment change, those of the others do not. -/
theorem update {t : Scripts} {d : String} {w : Window.Open} {times : List Nat} (h : Inv l)
    (hnow : l.scripts.now ≤ t.now) (hconfig : t.config = l.scripts.config)
    (hothers : ∀ d', d' ≠ d → t.scriptTimeouts.lookup d' = l.scripts.scriptTimeouts.lookup d')
    (hw : t.scriptTimeouts.lookup d = w) (hpast : ∀ u ∈ times, u ≤ t.now)
    (hcounts : Window.Counts l.scripts.config.autoBlacklistWindow w times)
    (hfew : ∀ e ∈ w, e.2 < l.scripts.config.autoBlacklistStrikes) :
    Inv ⟨t, Function.update l.strikes d times⟩ where
  past d' u hu := by
    dsimp only at hu ⊢
    by_cases hd : d' = d
    · subst hd
      rw [Function.update_self] at hu
      exact hpast u hu
    · rw [Function.update_of_ne hd] at hu
      exact le_trans (h.past d' u hu) hnow
  counts d' := by
    dsimp only
    rw [hconfig]
    by_cases hd : d' = d
    · subst hd
      rw [Function.update_self, hw]
      exact hcounts
    · rw [Function.update_of_ne hd, hothers d' hd]
      exact h.counts d'
  few d' e he := by
    dsimp only at he ⊢
    rw [hconfig]
    by_cases hd : d' = d
    · subst hd
      rw [hw] at he
      exact hfew e he
    · rw [hothers d' hd] at he
      exact h.few d' e he

/-- A window that is closed starts a new log. -/
theorem closed {t : Scripts} {d : String} (h : Inv l) (hnow : l.scripts.now ≤ t.now)
    (hconfig : t.config = l.scripts.config)
    (herased : t.scriptTimeouts = l.scripts.scriptTimeouts.erase d) :
    Inv ⟨t, Function.update l.strikes d []⟩ := by
  refine h.update (w := none) hnow hconfig (fun d' hd => ?_) ?_ (by simp) Window.Counts.nil ?_
  · rw [herased, AList.lookup_erase_ne hd]
  · rw [herased, AList.lookup_erase]
  · intro e he
    cases he

theorem timeout (h : Inv l) (d : String) {now : Nat} (hnow : l.scripts.now ≤ now) :
    Inv ⟨{ l.scripts.recordTimeoutStrike d now with now := now }, l.record (.timeout d now)⟩ := by
  unfold record
  dsimp only
  rw [written_timeout]
  have hpast : ∀ u ∈ l.strikes d, u ≤ now := fun u hu => le_trans (h.past d u hu) hnow
  by_cases hle : l.scripts.config.autoBlacklistStrikes ≤ (l.scripts.strike d now).2
  · rw [recordTimeoutStrike_of_le hle, decide_eq_true hle, if_pos rfl]
    exact h.closed hnow rfl rfl
  · rw [recordTimeoutStrike_of_lt (Nat.not_le.mp hle), decide_eq_false hle,
      if_neg Bool.false_ne_true]
    refine h.update hnow rfl (fun d' hd => AList.lookup_insert_ne hd) (AList.lookup_insert _)
      ?_ ?_ ?_
    · intro u hu
      rcases List.mem_cons.mp hu with rfl | hu
      · exact le_rfl
      · exact hpast u hu
    · rw [strike_eq]
      exact (h.counts d).tick hpast
    · intro e he
      cases he
      exact Nat.not_le.mp hle

end Inv

/-- The operations that are not about strikes leave the windows alone. -/
theorem timeouts_of_apply {s t : Scripts} {e : ScriptEvent} {ds : List String}
    (h : s.apply e = some (ds, t)) (htimeout : ∀ d now, e ≠ .timeout d now)
    (hsuccess : ∀ d now, e ≠ .success d now) :
    t.config = s.config ∧ t.scriptTimeouts = s.scriptTimeouts := by
  cases e with
  | timeout d now => exact absurd rfl (htimeout d now)
  | success d now => exact absurd rfl (hsuccess d now)
  | blacklist d now =>
      cases h
      exact ⟨rfl, rfl⟩
  | latency d latency now =>
      cases h
      unfold Scripts.recordBatchLatency
      split_ifs <;> exact ⟨rfl, rfl⟩
  | probe now =>
      cases h
      exact ⟨rfl, rfl⟩
  | probeDone p recovery now =>
      simp only [Scripts.apply] at h
      split_ifs at h
      cases h
      unfold Scripts.probeDone Scripts.applyProbeRecovery
      split_ifs
      · dsimp only
        split
        · split_ifs <;> exact ⟨rfl, rfl⟩
        · exact ⟨rfl, rfl⟩
      · exact ⟨rfl, rfl⟩
  | next slow tie now =>
      obtain ⟨⟨d, u⟩, hnext, heq⟩ := Option.map_eq_some_iff.mp h
      cases heq
      unfold Scripts.nextScriptId at hnext
      dsimp only at hnext
      split at hnext
      · cases hnext
        exact ⟨rfl, rfl⟩
      · cases hnext
        exact ⟨rfl, rfl⟩
      all_goals
        split_ifs at hnext
        cases hnext
        exact ⟨rfl, rfl⟩
  | nextMany want slow now =>
      simp only [Scripts.apply] at h
      split_ifs at h
      cases h
      exact ⟨rfl, rfl⟩

theorem inv_step {l m : StrikeLog} {e : ScriptEvent} (h : Inv l) (hstep : l.step e = some m) :
    Inv m := by
  obtain ⟨u, hu, rfl⟩ := Option.map_eq_some_iff.mp hstep
  unfold Scripts.step at hu
  split_ifs at hu with hnow
  obtain ⟨⟨ds, v⟩, happly, rfl⟩ := Option.map_eq_some_iff.mp hu
  cases e with
  | timeout d now =>
      cases happly
      exact h.timeout d hnow
  | success d now =>
      cases happly
      exact h.closed hnow rfl rfl
  | _ =>
      obtain ⟨hconfig, htimeouts⟩ := timeouts_of_apply happly (by simp) (by simp)
      exact h.of_eq hnow hconfig htimeouts

/-- **Bursts of strikes.** Along a run, the strikes that complete a burst are those that blacklist,
exactly if every burst is inside the window that is open when it is complete. -/
theorem bursts_caught_iff (config : ScriptConfig) (es : List ScriptEvent) :
    StepRun.AllSteps step CatchesBursts (init config) es ↔
      StepRun.AllSteps step BurstInWindow (init config) es :=
  StepRun.allSteps_congr (fun _ _ _ h hstep => inv_step h hstep)
    (fun _ e h => h.catchesBursts_iff e) (Inv.init config) es

/-- Three strikes within 20 s, the first of them in the window of a strike before. -/
theorem burst_missed :
    ¬ StepRun.AllSteps step CatchesBursts (init Scripts.threeScripts)
      [.timeout "a" 0, .timeout "a" (secs 20), .timeout "a" (secs 35), .timeout "a" (secs 40)] := by
  decide +kernel

end StrikeLog

end Rahgozar.Fronter
