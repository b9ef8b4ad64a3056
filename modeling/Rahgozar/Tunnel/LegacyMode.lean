import Rahgozar.Lib.Maps
import Rahgozar.Lib.Run

set_option autoImplicit false

/-! # Deployments in legacy mode (`src/tunnel_client.rs`)

A deployment whose tunnel-node answers an empty poll at once is marked as legacy, for a minute.
The sessions ask on every turn whether all deployments are. `all_servers_legacy` answers from a
Boolean next to the map of marks: the marks set it, and a query that finds marks run out clears
it. Times are in nanoseconds.
-/

namespace Rahgozar.Tunnel.LegacyMode

/-- `LEGACY_RECOVER_AFTER` -/
def legacyRecoverAfter : Nat := 60 * 1000000000

/-- The configured deployments; an id may be listed twice. There is at least one, or
`DomainFronter::new` fails. -/
structure Deployments where
  scriptIds : List String
  scriptIds_ne_nil : scriptIds ≠ []

/-- What a `TunnelMux` knows about legacy deployments, and the time of the last call. -/
structure Mux where
  deployments : Deployments
  numScripts : Nat
  legacyDeployments : AList fun _ : String => Nat
  allLegacy : Bool
  now : Nat

inductive Call where
  | mark (scriptId : String) (now : Nat)
  | query (now : Nat)
deriving DecidableEq

def Call.now : Call → Nat
  | mark _ now | query now => now

namespace Mux

/-- `TunnelMux::start`: the ids are counted without the repetitions. -/
def start (deployments : Deployments) : Mux :=
  ⟨deployments, deployments.scriptIds.toFinset.card, ∅, false, 0⟩

/-- `deps.retain(|_, marked_at| now.duration_since(*marked_at) < LEGACY_RECOVER_AFTER)` -/
def sweep (deps : AList fun _ : String => Nat) (now : Nat) : AList fun _ : String => Nat :=
  deps.retain fun markedAt => decide (now - markedAt < legacyRecoverAfter)

/-- `mark_server_no_longpoll` -/
def markServerNoLongpoll (s : Mux) (scriptId : String) (now : Nat) : Mux :=
  let deps := (sweep s.legacyDeployments now).insert scriptId now
  { s with
    legacyDeployments := deps
    allLegacy := deps.entries.length == s.numScripts }

/-- `all_servers_legacy` -/
def allServersLegacy (s : Mux) (now : Nat) : Bool × Mux :=
  if !s.allLegacy then (false, s)
  else
    let deps := sweep s.legacyDeployments now
    let stillAll := deps.entries.length == s.numScripts
    (stillAll, { s with
      legacyDeployments := deps
      allLegacy := if !stillAll then false else s.allLegacy })

def apply (s : Mux) : Call → Mux
  | .mark scriptId now => s.markServerNoLongpoll scriptId now
  | .query now => (s.allServersLegacy now).2

/-- A call, for a configured deployment and at a time that is not before the last one. -/
def step (s : Mux) (c : Call) : Option Mux :=
  let known := match c with
    | .mark scriptId _ => decide (scriptId ∈ s.deployments.scriptIds)
    | .query _ => true
  if known && decide (s.now ≤ c.now) then some { s.apply c with now := c.now } else none

end Mux

/-- Among the calls, the deployment was marked less than `LEGACY_RECOVER_AFTER` before `now`. -/
def MarkedRecently (cs : List Call) (d : String) (now : Nat) : Prop :=
  ∃ t, Call.mark d t ∈ cs ∧ now - t < legacyRecoverAfter

theorem MarkedRecently.earlier {cs : List Call} {d : String} {now now' : Nat}
    (h : MarkedRecently cs d now') (hle : now ≤ now') : MarkedRecently cs d now := by
  obtain ⟨t, ht, hlt⟩ := h
  exact ⟨t, ht, by omega⟩

theorem markedRecently_append_query {cs : List Call} {d : String} {now at' : Nat} :
    MarkedRecently (cs ++ [.query at']) d now ↔ MarkedRecently cs d now := by
  simp [MarkedRecently]

/-! ## The map and the history of marks -/

/-- The map holds the marks of some calls, the last one of each deployment as long as it may
still count. -/
structure Marks (cs : List Call) (deps : AList fun _ : String => Nat) (now : Nat) : Prop where
  past : ∀ d t, Call.mark d t ∈ cs → t ≤ now
  made : ∀ d t, deps.lookup d = some t → Call.mark d t ∈ cs
  kept : ∀ d t, Call.mark d t ∈ cs → now - t < legacyRecoverAfter →
    ∃ t', deps.lookup d = some t' ∧ t ≤ t'

section

variable {cs : List Call} {deps : AList fun _ : String => Nat} {d : String} {now now' : Nat}

theorem lookup_sweep {t : Nat} :
    (Mux.sweep deps now).lookup d = some t ↔
      deps.lookup d = some t ∧ now - t < legacyRecoverAfter := by
  rw [Mux.sweep, AList.lookup_retain_eq_some, decide_eq_true_iff]

/-- What a sweep leaves are the deployments that were marked recently. -/
theorem Marks.mem_sweep (h : Marks cs deps now) (hle : now ≤ now') :
    d ∈ Mux.sweep deps now' ↔ MarkedRecently cs d now' := by
  rw [← AList.lookup_isSome, Option.isSome_iff_exists]
  simp only [lookup_sweep]
  constructor
  · rintro ⟨t, ht, hlt⟩
    exact ⟨t, h.made d t ht, hlt⟩
  · rintro ⟨t, ht, hlt⟩
    obtain ⟨t', ht', hle'⟩ := h.kept d t ht (by omega)
    exact ⟨t', ht', by omega⟩

theorem Marks.later (h : Marks cs deps now) (hle : now ≤ now') : Marks cs deps now' where
  past d t ht := le_trans (h.past d t ht) hle
  made := h.made
  kept d t ht hlt := h.kept d t ht (by omega)

theorem Marks.sweep (h : Marks cs deps now) (hle : now ≤ now') :
    Marks cs (Mux.sweep deps now') now' where
  past := (h.later hle).past
  made d t ht := h.made d t (lookup_sweep.mp ht).1
  kept d t ht hlt := by
    obtain ⟨t', ht', hle'⟩ := (h.later hle).kept d t ht hlt
    exact ⟨t', lookup_sweep.mpr ⟨ht', by omega⟩, hle'⟩

theorem Marks.query (h : Marks cs deps now) : Marks (cs ++ [.query now']) deps now where
  past d t ht := h.past d t (by simpa using ht)
  made d t ht := List.mem_append_left _ (h.made d t ht)
  kept d t ht hlt := h.kept d t (by simpa using ht) hlt

theorem Marks.mark (h : Marks cs deps now) (e : String) :
    Marks (cs ++ [.mark e now]) (deps.insert e now) now where
  past d t ht := by
    rcases List.mem_append.mp ht with ht | ht
    · exact h.past d t ht
    · cases List.mem_singleton.mp ht
      exact le_rfl
  made d t ht := by
    by_cases hd : d = e
    · subst hd
      rw [AList.lookup_insert] at ht
      cases ht
      simp
    · rw [AList.lookup_insert_ne hd] at ht
      exact List.mem_append_left _ (h.made d t ht)
  kept d t ht hlt := by
    by_cases hd : d = e
    · subst hd
      refine ⟨now, AList.lookup_insert _, ?_⟩
      rcases List.mem_append.mp ht with ht | ht
      · exact h.past d t ht
      · cases List.mem_singleton.mp ht
        exact le_rfl
    · rw [AList.lookup_insert_ne hd]
      refine h.kept d t ?_ hlt
      rcases List.mem_append.mp ht with ht | ht
      · exact ht
      · cases List.mem_singleton.mp ht
        exact absurd rfl hd

/-- A map over some ids has as many entries as there are ids exactly if it has all of them. -/
theorem length_eq_card_iff {ids : List String} (h : ∀ d, d ∈ deps → d ∈ ids) :
    deps.entries.length = ids.toFinset.card ↔ ∀ d ∈ ids, d ∈ deps := by
  have hkeys : deps.entries.length = deps.keys.toFinset.card := by
    rw [List.toFinset_card_of_nodup deps.keys_nodup, AList.keys, List.keys, List.length_map]
  have hsub : deps.keys.toFinset ⊆ ids.toFinset := fun d hd =>
    List.mem_toFinset.mpr (h d (AList.mem_keys.mpr (List.mem_toFinset.mp hd)))
  rw [hkeys]
  constructor
  · intro hcard d hd
    have heq := Finset.eq_of_subset_of_card_le hsub hcard.ge
    have hmem : d ∈ deps.keys.toFinset := by
      rw [heq]
      exact List.mem_toFinset.mpr hd
    exact AList.mem_keys.mp (List.mem_toFinset.mp hmem)
  · intro hall
    congr 1
    refine hsub.antisymm fun d hd => ?_
    exact List.mem_toFinset.mpr (AList.mem_keys.mpr (hall d (List.mem_toFinset.mp hd)))

end

/-! ## The Boolean -/

/-- After the calls `cs`. The Boolean may be late to go down, never late to go up. -/
structure Inv (cs : List Call) (s : Mux) : Prop where
  marks : Marks cs s.legacyDeployments s.now
  known : ∀ d t, Call.mark d t ∈ cs → d ∈ s.deployments.scriptIds
  count : s.numScripts = s.deployments.scriptIds.toFinset.card
  cleared : s.allLegacy = false → ∃ d ∈ s.deployments.scriptIds, ¬ MarkedRecently cs d s.now

namespace Inv

variable {cs : List Call} {s t : Mux} {c : Call} {now : Nat}

theorem start (deployments : Deployments) : Inv [] (Mux.start deployments) where
  marks := by
    constructor <;> intro d t h <;> cases h
  known d t h := by cases h
  count := rfl
  cleared _ := by
    obtain ⟨d, hd⟩ := List.exists_mem_of_ne_nil _ deployments.scriptIds_ne_nil
    refine ⟨d, hd, ?_⟩
    rintro ⟨t, ht, -⟩
    cases ht

/-- The swept map has all deployments exactly if all were marked recently. -/
theorem full_iff (h : Inv cs s) (hle : s.now ≤ now) :
    (Mux.sweep s.legacyDeployments now).entries.length = s.numScripts ↔
      ∀ d ∈ s.deployments.scriptIds, MarkedRecently cs d now := by
  have hsub : ∀ d, d ∈ Mux.sweep s.legacyDeployments now → d ∈ s.deployments.scriptIds := by
    intro d hd
    obtain ⟨t, ht, -⟩ := (h.marks.mem_sweep hle).mp hd
    exact h.known d t ht
  rw [h.count, length_eq_card_iff hsub]
  exact forall₂_congr fun d _ => h.marks.mem_sweep hle

theorem allServersLegacy_iff (h : Inv cs s) (hle : s.now ≤ now) :
    (s.allServersLegacy now).1 = true ↔
      ∀ d ∈ s.deployments.scriptIds, MarkedRecently cs d now := by
  unfold Mux.allServersLegacy
  cases hcache : s.allLegacy with
  | false =>
      -- what was missing at the last call is missing still
      obtain ⟨d, hd, hnot⟩ := h.cleared hcache
      simp only [Bool.not_false, if_true, Bool.false_eq_true, false_iff]
      exact fun hall => hnot ((hall d hd).earlier hle)
  | true =>
      simp only [Bool.not_true, Bool.false_eq_true, if_false, beq_iff_eq]
      exact h.full_iff hle

theorem query (h : Inv cs s) (hle : s.now ≤ now) :
    Inv (cs ++ [.query now]) { (s.allServersLegacy now).2 with now := now } := by
  have hans := h.allServersLegacy_iff hle
  have hknown : ∀ d t, Call.mark d t ∈ cs ++ [.query now] → d ∈ s.deployments.scriptIds :=
    fun d t ht => h.known d t (by simpa using ht)
  unfold Mux.allServersLegacy at hans ⊢
  cases hcache : s.allLegacy with
  | false =>
      refine ⟨(h.marks.later hle).query, hknown, h.count, fun _ => ?_⟩
      obtain ⟨d, hd, hnot⟩ := h.cleared hcache
      refine ⟨d, hd, fun hrecent => hnot ?_⟩
      exact (markedRecently_append_query.mp hrecent).earlier hle
  | true =>
      simp only [hcache, Bool.not_true, Bool.false_eq_true, if_false] at hans ⊢
      refine ⟨(h.marks.sweep hle).query, hknown, h.count, fun hfalse => ?_⟩
      have hnot : ¬ ∀ d ∈ s.deployments.scriptIds, MarkedRecently cs d now := by
        rw [← hans]
        intro hall
        simp [hall] at hfalse
      push Not at hnot
      obtain ⟨d, hd, hnot⟩ := hnot
      exact ⟨d, hd, fun hrecent => hnot (markedRecently_append_query.mp hrecent)⟩

theorem mark (h : Inv cs s) {e : String} (he : e ∈ s.deployments.scriptIds) (hle : s.now ≤ now) :
    Inv (cs ++ [.mark e now]) { s.markServerNoLongpoll e now with now := now } := by
  have hmarks := (h.marks.sweep hle).mark e
  have hknown : ∀ d t, Call.mark d t ∈ cs ++ [.mark e now] → d ∈ s.deployments.scriptIds := by
    intro d t ht
    rcases List.mem_append.mp ht with ht | ht
    · exact h.known d t ht
    · cases List.mem_singleton.mp ht
      exact he
  refine ⟨hmarks, hknown, h.count, fun hfalse => ?_⟩
  have hsub : ∀ d, d ∈ (Mux.sweep s.legacyDeployments now).insert e now →
      d ∈ s.deployments.scriptIds := by
    intro d hd
    obtain ⟨t, ht⟩ := Option.isSome_iff_exists.mp (AList.lookup_isSome.mpr hd)
    exact hknown d t (hmarks.made d t ht)
  have hnot : ¬ ∀ d ∈ s.deployments.scriptIds,
      d ∈ (Mux.sweep s.legacyDeployments now).insert e now := by
    rw [← length_eq_card_iff hsub, ← h.count]
    simpa [Mux.markServerNoLongpoll] using hfalse
  push Not at hnot
  obtain ⟨d, hd, hnot⟩ := hnot
  refine ⟨d, hd, fun hrecent => hnot ?_⟩
  obtain ⟨t, ht, hlt⟩ := hrecent
  obtain ⟨t', ht', -⟩ := hmarks.kept d t ht hlt
  exact AList.lookup_isSome.mp (Option.isSome_iff_exists.mpr ⟨t', ht'⟩)

theorem step (h : Inv cs s) (hstep : s.step c = some t) :
    Inv (cs ++ [c]) t ∧ t.deployments = s.deployments := by
  unfold Mux.step at hstep
  cases c with
  | mark e now =>
      simp only [Bool.and_eq_true, decide_eq_true_eq] at hstep
      split_ifs at hstep with hguard
      cases hstep
      exact ⟨h.mark hguard.1 hguard.2, rfl⟩
  | query now =>
      simp only [Bool.true_and, decide_eq_true_eq] at hstep
      split_ifs at hstep with hguard
      cases hstep
      refine ⟨h.query hguard, ?_⟩
      unfold Mux.apply Mux.allServersLegacy
      dsimp only
      split_ifs <;> rfl

end Inv

theorem inv_of_run {deployments : Deployments} {cs : List Call} {s : Mux}
    (h : StepRun.run Mux.step (Mux.start deployments) cs = some s) :
    Inv cs s ∧ s.deployments = deployments := by
  induction cs using List.reverseRecOn generalizing s with
  | nil =>
      cases h
      exact ⟨Inv.start deployments, rfl⟩
  | append_singleton cs c ih =>
      rw [StepRun.run_append] at h
      obtain ⟨t, ht, hlast⟩ := Option.bind_eq_some_iff.mp h
      obtain ⟨u, hu, hnil⟩ := Option.bind_eq_some_iff.mp hlast
      cases hnil
      obtain ⟨hinv, hdeployments⟩ := ih ht
      obtain ⟨hnext, hsame⟩ := hinv.step hu
      exact ⟨hnext, hsame.trans hdeployments⟩

/-- **The cached answer is exact.** After any calls, `all_servers_legacy` says yes exactly if each
configured deployment was marked less than `LEGACY_RECOVER_AFTER` before. -/
theorem allServersLegacy_exact (deployments : Deployments) (cs : List Call) (s : Mux) (now : Nat)
    (hrun : StepRun.run Mux.step (Mux.start deployments) cs = some s) (hnow : s.now ≤ now) :
    (s.allServersLegacy now).1 = true ↔
      ∀ d ∈ deployments.scriptIds, ∃ t, Call.mark d t ∈ cs ∧ now - t < legacyRecoverAfter := by
  obtain ⟨hinv, hsame⟩ := inv_of_run hrun
  rw [← hsame]
  exact hinv.allServersLegacy_iff hnow

/-- Two deployments, the first of them listed twice. -/
def listedTwice : Deployments where
  scriptIds := ["a", "b", "a"]
  scriptIds_ne_nil := by decide

def markedBoth : Mux where
  deployments := listedTwice
  numScripts := 2
  legacyDeployments := ((∅ : AList fun _ : String => Nat).insert "a" 0).insert "b" 10
  allLegacy := true
  now := 20

/-- Both are marked, and a query a minute after the first mark finds that it has run out. -/
theorem allServersLegacy_exact_marked :
    StepRun.run Mux.step (Mux.start listedTwice) [.mark "a" 0, .mark "b" 10, .query 20]
        = some markedBoth ∧
      (markedBoth.allServersLegacy 60000000000).1 = false ∧
      ((markedBoth.allServersLegacy 60000000000).1 = true ↔
        ∀ d ∈ listedTwice.scriptIds, ∃ t,
          Call.mark d t ∈ [Call.mark "a" 0, .mark "b" 10, .query 20] ∧
          60000000000 - t < legacyRecoverAfter) := by
  have hrun : StepRun.run Mux.step (Mux.start listedTwice) [.mark "a" 0, .mark "b" 10, .query 20]
      = some markedBoth := by rfl
  exact ⟨hrun, by rfl, allServersLegacy_exact _ _ _ _ hrun (by decide)⟩

end Rahgozar.Tunnel.LegacyMode
