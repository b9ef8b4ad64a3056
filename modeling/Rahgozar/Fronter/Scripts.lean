import Rahgozar.Lib.Maps
import Rahgozar.Lib.Run

set_option autoImplicit false

/-! # Choice and blacklist of deployments (`src/domain_fronter.rs`)

A fronter has a list of deployments, a round-robin counter over it and a blacklist: a map from
deployments to the end of their cooldown. Three causes write to it, with cooldowns of their own:
an error that names the deployment (`blacklist_script`), timeouts in a row
(`record_timeout_strike`) and a very slow batch (`record_batch_latency`). `next_script_id` and
`next_script_ids` read and prune it, and a probe may take an entry out again.

Which deployments are slow is decided with floating-point averages; the set is input here. Times
and durations are in nanoseconds.
-/

namespace Rahgozar.Fronter

def secs (n : Nat) : Nat := n * 1000000000

/-- `BLACKLIST_COOLDOWN_SECS` -/
def blacklistCooldown : Nat := secs 600

/-- `LATENCY_MIN_DEPLOYMENTS` -/
def latencyMinDeployments : Nat := 3

/-- `LATENCY_HARD_SLOW_BATCH_MS` -/
def latencyHardSlowBatch : Nat := secs 6

/-- `LATENCY_HARD_SLOW_COOLDOWN_SECS` -/
def latencyHardSlowCooldown : Nat := secs 30

/-- An entry; `untilAt` is the source's `until`, and `serial` numbers the writes to the blacklist
(it is not in the source). -/
structure BlacklistEntry where
  untilAt : Nat
  probeRecoverable : Bool
  serial : Nat
deriving DecidableEq

abbrev Blacklist := AList fun _ : String => BlacklistEntry

/-! ## Round robin -/

/-- The deployment at a round-robin position. -/
def scriptAt (ids : List String) (idx : Nat) : String := ids.getD (idx % ids.length) ""

/-- One pass of `next_script_id`: up to `fuel` positions from `idx` on, the first that is `ok`.
Also returns the counter. -/
def pick (ids : List String) (ok : String → Bool) : Nat → Nat → Option String × Nat
  | 0, idx => (none, idx)
  | fuel + 1, idx =>
      if ok (scriptAt ids idx) then (some (scriptAt ids idx), idx + 1)
      else pick ids ok fuel (idx + 1)

/-- One pass of `next_script_ids`, with what is picked already. -/
def pickMany (ids : List String) (ok : String → Bool) (want : Nat) :
    Nat → Nat → List String → List String × Nat
  | 0, idx, picked => (picked, idx)
  | fuel + 1, idx, picked =>
      if want ≤ picked.length then (picked, idx)
      else if ok (scriptAt ids idx) && !picked.contains (scriptAt ids idx) then
        pickMany ids ok want fuel (idx + 1) (picked ++ [scriptAt ids idx])
      else pickMany ids ok want fuel (idx + 1) picked

/-- A full turn meets every deployment. -/
theorem exists_scriptAt {ids : List String} {d : String} (hd : d ∈ ids) (idx : Nat) :
    ∃ k < ids.length, scriptAt ids (idx + k) = d := by
  obtain ⟨i, hi, rfl⟩ := List.mem_iff_getElem.mp hd
  have hpos : 0 < ids.length := by omega
  refine ⟨(i + ids.length - idx % ids.length) % ids.length, Nat.mod_lt _ hpos, ?_⟩
  have hmod : (idx + (i + ids.length - idx % ids.length) % ids.length) % ids.length = i := by
    have hlt : idx % ids.length < ids.length := Nat.mod_lt _ hpos
    calc (idx + (i + ids.length - idx % ids.length) % ids.length) % ids.length
        = (idx % ids.length + (i + ids.length - idx % ids.length)) % ids.length := by
          rw [Nat.add_mod_mod, Nat.mod_add_mod]
      _ = (i + ids.length) % ids.length := by congr 1; omega
      _ = i := by rw [Nat.add_mod_right, Nat.mod_eq_of_lt hi]
  simp [scriptAt, hmod, List.getElem?_eq_getElem hi]

theorem pick_some {ids : List String} {ok : String → Bool} {fuel idx : Nat} {d : String}
    (h : (pick ids ok fuel idx).1 = some d) : ok d = true := by
  induction fuel generalizing idx with
  | zero => cases h
  | succ fuel ih =>
      simp only [pick] at h
      split_ifs at h with hok
      · cases h
        exact hok
      · exact ih h

theorem pick_none {ids : List String} {ok : String → Bool} {fuel idx : Nat}
    (h : (pick ids ok fuel idx).1 = none) : ∀ k < fuel, ok (scriptAt ids (idx + k)) = false := by
  induction fuel generalizing idx with
  | zero =>
      intro k hk
      omega
  | succ fuel ih =>
      simp only [pick] at h
      split_ifs at h with hok
      intro k hk
      cases k with
      | zero => simpa using hok
      | succ k =>
          have := ih h k (by omega)
          rwa [Nat.add_assoc, Nat.add_comm 1 k] at this

/-- A pass over all positions that finds nothing has seen that nothing is `ok`. -/
theorem not_ok_of_pick_none {ids : List String} {ok : String → Bool} {idx : Nat}
    (h : (pick ids ok ids.length idx).1 = none) {d : String} (hd : d ∈ ids) : ok d = false := by
  obtain ⟨k, hk, rfl⟩ := exists_scriptAt hd idx
  exact pick_none h k hk

theorem pickMany_mem {ids : List String} {ok : String → Bool} {want fuel idx : Nat}
    {picked : List String} {d : String} (h : d ∈ (pickMany ids ok want fuel idx picked).1) :
    d ∈ picked ∨ ok d = true := by
  induction fuel generalizing idx picked with
  | zero => exact .inl h
  | succ fuel ih =>
      simp only [pickMany] at h
      split_ifs at h with hwant hok
      · exact .inl h
      · rcases ih h with h | h
        · rcases List.mem_append.mp h with h | h
          · exact .inl h
          · rw [List.mem_singleton.mp h]
            simp only [Bool.and_eq_true] at hok
            exact .inr hok.1
        · exact .inr h
      · exact ih h

theorem pickMany_length_le (ids : List String) (ok : String → Bool) (want fuel idx : Nat)
    (picked : List String) : picked.length ≤ (pickMany ids ok want fuel idx picked).1.length := by
  induction fuel generalizing idx picked with
  | zero => exact le_rfl
  | succ fuel ih =>
      simp only [pickMany]
      split_ifs
      · exact le_rfl
      · exact le_trans (by simp) (ih ..)
      · exact ih ..

theorem eq_nil_of_pickMany_nil {ids : List String} {ok : String → Bool} {want fuel idx : Nat}
    {picked : List String} (h : (pickMany ids ok want fuel idx picked).1 = []) : picked = [] := by
  have hle := pickMany_length_le ids ok want fuel idx picked
  rw [h, List.length_nil, Nat.le_zero] at hle
  exact List.length_eq_zero_iff.mp hle

theorem pickMany_nil {ids : List String} {ok : String → Bool} {want fuel idx : Nat}
    (hwant : 0 < want) (h : (pickMany ids ok want fuel idx []).1 = []) :
    ∀ k < fuel, ok (scriptAt ids (idx + k)) = false := by
  induction fuel generalizing idx with
  | zero =>
      intro k hk
      omega
  | succ fuel ih =>
      simp only [pickMany, List.length_nil, Nat.le_zero, hwant.ne', if_false] at h
      split_ifs at h with hok
      · have := eq_nil_of_pickMany_nil h
        simp at this
      · intro k hk
        cases k with
        | zero => simpa using hok
        | succ k =>
            have := ih h k (by omega)
            rwa [Nat.add_assoc, Nat.add_comm 1 k] at this

theorem not_ok_of_pickMany_nil {ids : List String} {ok : String → Bool} {want idx : Nat}
    (hwant : 0 < want) (h : (pickMany ids ok want ids.length idx []).1 = []) {d : String}
    (hd : d ∈ ids) : ok d = false := by
  obtain ⟨k, hk, rfl⟩ := exists_scriptAt hd idx
  exact pickMany_nil hwant h k hk

/-! ## State -/

/-- A cooldown that was pronounced: the deployment, its end, and the number of the write. -/
structure Sentence where
  script : String
  untilAt : Nat
  serial : Nat
deriving DecidableEq

/-- A probe in flight: what `probe_blacklisted_once` captured, and the number of the entry it was
in. -/
structure Probe where
  sid : String
  capturedUntil : Nat
  serial : Nat
deriving DecidableEq

/-- The settings; `strikes` is at least 1 and there is at least one deployment. -/
structure ScriptConfig where
  scriptIds : List String
  autoBlacklistStrikes : Nat
  autoBlacklistWindow : Nat
  autoBlacklistCooldown : Nat
  scriptIds_ne_nil : scriptIds ≠ []
  strikes_pos : 0 < autoBlacklistStrikes

/-- The state of the selector. `now` is the time of the last operation, `writes` the number of
writes to the blacklist, and `inForce` the history of cooldowns that were not lifted: not by a
probe of the very entry, and not by `next_script_id` when it had no other choice. -/
structure Scripts where
  config : ScriptConfig
  blacklist : Blacklist
  scriptIdx : Nat
  scriptTimeouts : AList fun _ : String => Nat × Nat
  probes : List Probe
  now : Nat
  writes : Nat
  inForce : List Sentence

namespace Scripts

def init (config : ScriptConfig) : Scripts := ⟨config, ∅, 0, ∅, [], 0, 0, []⟩

/-- `bl.retain(|_, e| e.until > now)` -/
def prune (bl : Blacklist) (now : Nat) : Blacklist := bl.retain fun e => decide (now < e.untilAt)

/-- `blacklist_script_inner` -/
def blacklistScriptInner (s : Scripts) (scriptId : String) (cooldown : Nat)
    (probeRecoverable : Bool) (now : Nat) : Scripts :=
  { s with
    blacklist := s.blacklist.insert scriptId ⟨now + cooldown, probeRecoverable, s.writes⟩
    writes := s.writes + 1
    inForce := s.inForce ++ [⟨scriptId, now + cooldown, s.writes⟩] }

/-- `blacklist_script` -/
def blacklistScript (s : Scripts) (scriptId : String) (now : Nat) : Scripts :=
  s.blacklistScriptInner scriptId blacklistCooldown true now

/-- `blacklist_script_for` -/
def blacklistScriptFor (s : Scripts) (scriptId : String) (cooldown now : Nat) : Scripts :=
  s.blacklistScriptInner scriptId cooldown false now

/-- The window and the count of a deployment's strikes after one more timeout. -/
def strike (s : Scripts) (scriptId : String) (now : Nat) : Nat × Nat :=
  let entry := (s.scriptTimeouts.lookup scriptId).getD (now, 0)
  if s.config.autoBlacklistWindow < now - entry.1 then (now, 1) else (entry.1, entry.2 + 1)

/-- `record_timeout_strike` -/
def recordTimeoutStrike (s : Scripts) (scriptId : String) (now : Nat) : Scripts :=
  let entry := s.strike scriptId now
  if s.config.autoBlacklistStrikes ≤ entry.2 then
    { s with scriptTimeouts := s.scriptTimeouts.erase scriptId }.blacklistScriptFor scriptId
      s.config.autoBlacklistCooldown now
  else { s with scriptTimeouts := s.scriptTimeouts.insert scriptId entry }

/-- `record_batch_success` -/
def recordBatchSuccess (s : Scripts) (scriptId : String) : Scripts :=
  { s with scriptTimeouts := s.scriptTimeouts.erase scriptId }

/-- `record_batch_latency`, without the running average. -/
def recordBatchLatency (s : Scripts) (scriptId : String) (latency now : Nat) : Scripts :=
  if latencyMinDeployments ≤ s.config.scriptIds.length ∧ latencyHardSlowBatch ≤ latency then
    s.blacklistScriptFor scriptId latencyHardSlowCooldown now
  else s

/-- `probe_blacklisted_once`, up to the requests: prune, and capture the recoverable entries. -/
def probeBlacklistedOnce (s : Scripts) (now : Nat) : Scripts :=
  let bl := prune s.blacklist now
  { s with
    blacklist := bl
    probes := s.probes ++ (bl.entries.filter fun e => e.2.probeRecoverable).map fun e =>
      ⟨e.1, e.2.untilAt, e.2.serial⟩ }

/-- `apply_probe_recovery`: only an entry with the captured end is removed. -/
def applyProbeRecovery (s : Scripts) (p : Probe) : Scripts :=
  match s.blacklist.lookup p.sid with
  | some e => if e.untilAt = p.capturedUntil then
      { s with blacklist := s.blacklist.erase p.sid } else s
  | none => s

/-- `probe_one_sid` after its request: the probe is over, and on a recovery the cooldown it was
for is lifted. -/
def probeDone (s : Scripts) (p : Probe) (recovery : Bool) : Scripts :=
  if recovery then
    { s.applyProbeRecovery p with
      probes := s.probes.erase p
      inForce := s.inForce.filter (·.serial ≠ p.serial) }
  else { s with probes := s.probes.erase p }

/-- Neither blacklisted nor slow: the guard of the first pass. -/
def healthy (bl : Blacklist) (slow : List String) (d : String) : Bool :=
  decide (d ∉ bl) && !slow.contains d

/-- The guard of the second pass. -/
def free (bl : Blacklist) (d : String) : Bool := decide (d ∉ bl)

/-- `next_script_id`. When all deployments are blacklisted it releases one whose cooldown ends
first; `tie` is the one that the iteration over the map meets first. -/
def nextScriptId (s : Scripts) (slow : List String) (tie : String) (now : Nat) :
    Option (String × Scripts) :=
  let ids := s.config.scriptIds
  let bl := prune s.blacklist now
  let pass₁ := pick ids (healthy bl slow) ids.length s.scriptIdx
  let pass₂ := pick ids (free bl) ids.length pass₁.2
  match pass₁.1, pass₂.1, bl.lookup tie with
  | some d, _, _ => some (d, { s with blacklist := bl, scriptIdx := pass₁.2 })
  | none, some d, _ => some (d, { s with blacklist := bl, scriptIdx := pass₂.2 })
  | none, none, some e =>
      if ∀ e' ∈ bl.entries, e.untilAt ≤ e'.2.untilAt then
        some (tie, { s with
          blacklist := bl.erase tie
          scriptIdx := pass₂.2
          inForce := s.inForce.filter (·.script ≠ tie) })
      else none
  | none, none, none =>
      if bl.entries.isEmpty then
        some (scriptAt ids 0, { s with blacklist := bl, scriptIdx := pass₂.2 })
      else none

/-- `next_script_ids` -/
def nextScriptIds (s : Scripts) (want : Nat) (slow : List String) (now : Nat) :
    List String × Scripts :=
  let ids := s.config.scriptIds
  let bl := prune s.blacklist now
  let pass₁ := pickMany ids (healthy bl slow) want ids.length s.scriptIdx []
  let pass₂ := pickMany ids (free bl) want ids.length pass₁.2 pass₁.1
  (if pass₂.1.isEmpty then [scriptAt ids 0] else pass₂.1,
    { s with blacklist := bl, scriptIdx := pass₂.2 })

/-! ## Runs -/

end Scripts

inductive ScriptEvent where
  | blacklist (d : String) (now : Nat)
  | timeout (d : String) (now : Nat)
  | success (d : String) (now : Nat)
  | latency (d : String) (latency now : Nat)
  | probe (now : Nat)
  | probeDone (p : Probe) (recovery : Bool) (now : Nat)
  | next (slow : List String) (tie : String) (now : Nat)
  | nextMany (want : Nat) (slow : List String) (now : Nat)

def ScriptEvent.now : ScriptEvent → Nat
  | blacklist _ now | timeout _ now | success _ now | latency _ _ now | probe now
  | probeDone _ _ now | next _ _ now | nextMany _ _ now => now

namespace Scripts

/-- One operation, and the deployments it hands out. `next_script_ids` is called for a fan-out,
with two or more. -/
def apply (s : Scripts) : ScriptEvent → Option (List String × Scripts)
  | .blacklist d now => some ([], s.blacklistScript d now)
  | .timeout d now => some ([], s.recordTimeoutStrike d now)
  | .success d _ => some ([], s.recordBatchSuccess d)
  | .latency d latency now => some ([], s.recordBatchLatency d latency now)
  | .probe now => some ([], s.probeBlacklistedOnce now)
  | .probeDone p recovery _ => if p ∈ s.probes then some ([], s.probeDone p recovery) else none
  | .next slow tie now => (s.nextScriptId slow tie now).map fun r => ([r.1], r.2)
  | .nextMany want slow now => if 2 ≤ want then some (s.nextScriptIds want slow now) else none

/-- An operation at a time that is not before the last one. -/
def step (s : Scripts) (e : ScriptEvent) : Option Scripts :=
  if s.now ≤ e.now then (s.apply e).map fun r => { r.2 with now := e.now } else none

/-- The deployments an operation hands out. -/
def handedOut (s : Scripts) (e : ScriptEvent) : List String := ((s.apply e).map Prod.fst).getD []

end Scripts

end Rahgozar.Fronter
