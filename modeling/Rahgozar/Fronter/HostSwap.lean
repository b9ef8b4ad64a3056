import Rahgozar.Fronter.Pool

set_option autoImplicit false

/-! # No connection to a replaced front IP stays cached

A swap stores the new host first and clears the pool and the h2 cell afterwards. Who pushes into
the pool, or stores into the cell, compares hosts under the lock. If the comparison is with the old
host, the swap has stored after it and waits for the same lock, so that its clear comes after the
push. The invariant says this of every task under a lock.
-/

namespace Rahgozar.Fronter.Conns

/-! ## The rule -/

/-- A swap has still to clear the pool. -/
def PoolPending (s : Conns) : Prop := ∃ j, s.phases j = .swapStored

/-- A swap is between its store and its clears. -/
def Swapping (s : Conns) : Prop := ∃ j, s.phases j = .swapStored ∨ s.phases j = .swapCleared

/-- Outside of a swap everything cached was opened against the current host, and what `acquire` has
taken from the pool was opened against the host it had loaded. -/
def NoStale (s : Conns) : Prop :=
  (¬ s.Swapping → (∀ e ∈ s.pool, e.host = s.connectHost) ∧
    ∀ c ∈ s.h2Cell, c.host = s.connectHost) ∧
  ∀ i e current, s.phases i = .took e current → e.host = current

/-! ## The invariant -/

/-- What holds of the task `i` in the phase `p`. -/
def PhaseOk (s : Conns) (i : Nat) : ConnPhase → Prop
  | .pushLocked _ | .acquireLocked | .acquireLoaded _ => s.poolLock = some i
  | .pushLoaded _ current => s.poolLock = some i ∧ (s.PoolPending ∨ current = s.connectHost)
  | .h2Locked _ _ => s.cellLock = some i
  | .h2Loaded _ _ hostNow => s.cellLock = some i ∧ (s.Swapping ∨ hostNow = s.connectHost)
  | .took e current => e.host = current
  | _ => True

structure Inv (s : Conns) : Prop where
  phase : ∀ i, s.PhaseOk i (s.phases i)
  pool : s.PoolPending ∨ ∀ e ∈ s.pool, e.host = s.connectHost
  cell : s.Swapping ∨ ∀ c ∈ s.h2Cell, c.host = s.connectHost

theorem PoolPending.swapping {s : Conns} (h : s.PoolPending) : s.Swapping := by
  obtain ⟨j, hj⟩ := h
  exact ⟨j, .inl hj⟩

theorem Inv.noStale {s : Conns} (h : s.Inv) : s.NoStale := by
  refine ⟨fun hno => ⟨?_, ?_⟩, fun i e current hp => ?_⟩
  · exact h.pool.resolve_left fun hp => hno hp.swapping
  · exact h.cell.resolve_left hno
  · have hok := h.phase i
    rw [hp] at hok
    exact hok

theorem inv_init : init.Inv where
  phase _ := trivial
  pool := .inr fun _ he => by cases he
  cell := .inr fun _ hc => by cases hc

variable {s t : Conns} {i : Nat}

/-- What holds of a task that keeps its locks, when the host it has loaded under a lock may still
be used afterwards. -/
theorem PhaseOk.frame {j : Nat} {p : ConnPhase} (h : s.PhaseOk j p)
    (hpoolLock : s.poolLock = some j → t.poolLock = some j)
    (hcellLock : s.cellLock = some j → t.cellLock = some j)
    (hpush : s.poolLock = some j → ∀ current, s.PoolPending ∨ current = s.connectHost →
      t.PoolPending ∨ current = t.connectHost)
    (hstore : s.cellLock = some j → ∀ hostNow, s.Swapping ∨ hostNow = s.connectHost →
      t.Swapping ∨ hostNow = t.connectHost) : t.PhaseOk j p := by
  cases p with
  | pushLocked e => exact hpoolLock h
  | acquireLocked => exact hpoolLock h
  | acquireLoaded current => exact hpoolLock h
  | pushLoaded e current => exact ⟨hpoolLock h.1, hpush h.1 current h.2⟩
  | h2Locked host generation => exact hcellLock h
  | h2Loaded host generation hostNow => exact ⟨hcellLock h.1, hstore h.1 hostNow h.2⟩
  | took e current => exact h
  | _ => trivial

/-- The tasks after task `i` has gone to the phase `p` and left the locks of the others alone. -/
theorem Inv.phase_update (h : s.Inv) {p : ConnPhase}
    (hphases : t.phases = Function.update s.phases i p) (hown : t.PhaseOk i p)
    (hpoolLock : ∀ j, j ≠ i → s.poolLock = some j → t.poolLock = some j)
    (hcellLock : ∀ j, j ≠ i → s.cellLock = some j → t.cellLock = some j)
    (hpush : ∀ j, s.poolLock = some j → ∀ current, s.PoolPending ∨ current = s.connectHost →
      t.PoolPending ∨ current = t.connectHost)
    (hstore : ∀ j, s.cellLock = some j → ∀ hostNow, s.Swapping ∨ hostNow = s.connectHost →
      t.Swapping ∨ hostNow = t.connectHost) (j : Nat) : t.PhaseOk j (t.phases j) := by
  rw [hphases]
  by_cases hj : j = i
  · rw [hj, Function.update_self]
    exact hown
  · rw [Function.update_of_ne hj]
    exact (h.phase j).frame (hpoolLock j hj) (hcellLock j hj) (hpush j) (hstore j)

/-! ## A task that is not a swap takes a step -/

def isSwap : ConnPhase → Bool
  | .swapStored | .swapCleared => true
  | _ => false

theorem pending_of_update {p : ConnPhase} (hi : isSwap (s.phases i) = false)
    (hphases : t.phases = Function.update s.phases i p) :
    (s.PoolPending → t.PoolPending) ∧ (s.Swapping → t.Swapping) := by
  have hkeep : ∀ j, s.phases j = .swapStored ∨ s.phases j = .swapCleared →
      t.phases j = s.phases j := by
    intro j hj
    rw [hphases]
    apply Function.update_of_ne
    rintro rfl
    rcases hj with hj | hj <;> rw [hj] at hi <;> cases hi
  constructor
  · rintro ⟨j, hj⟩
    exact ⟨j, (hkeep j (.inl hj)).trans hj⟩
  · rintro ⟨j, hj⟩
    exact ⟨j, hkeep j hj ▸ hj⟩

/-- The frame of a step of task `i`: the host stays, the other tasks stay where they are and keep
their locks. What is left is what the step does to the pool, to the cell and to its own phase. -/
theorem Inv.move (h : s.Inv) (hi : isSwap (s.phases i) = false) (p : ConnPhase)
    (hphases : t.phases = Function.update s.phases i p)
    (hhost : t.connectHost = s.connectHost)
    (hpoolLock : ∀ j, j ≠ i → s.poolLock = some j → t.poolLock = some j)
    (hcellLock : ∀ j, j ≠ i → s.cellLock = some j → t.cellLock = some j)
    (hpool : s.PoolPending ∨ ∀ e ∈ t.pool, e.host = s.connectHost)
    (hcell : s.Swapping ∨ ∀ c ∈ t.h2Cell, c.host = s.connectHost)
    (hown : t.PhaseOk i p) : t.Inv := by
  obtain ⟨hpending, hswap⟩ := pending_of_update hi hphases
  refine ⟨h.phase_update hphases hown hpoolLock hcellLock ?_ ?_, ?_, ?_⟩ <;> rw [hhost]
  · exact fun _ _ _ => Or.imp_left hpending
  · exact fun _ _ _ => Or.imp_left hswap
  · exact hpool.imp_left hpending
  · exact hcell.imp_left hswap

/-- A step that does nothing but move the task. -/
theorem Inv.set (h : s.Inv) (hi : isSwap (s.phases i) = false) (p : ConnPhase)
    (hown : (s.set i p).PhaseOk i p) : (s.set i p).Inv :=
  h.move hi p rfl rfl (fun _ _ hl => hl) (fun _ _ hl => hl) h.pool h.cell hown

/-- A step outside of the tasks that takes something out of the pool or the cell. -/
theorem Inv.shrink (h : s.Inv) {pool : List PoolEntry} {cell : Option H2Cell}
    (hpool : pool ⊆ s.pool) (hcell : ∀ c ∈ cell, c ∈ s.h2Cell) :
    Inv { s with pool := pool, h2Cell := cell } :=
  ⟨fun i => (h.phase i).frame id id (fun _ _ => id) (fun _ _ => id),
    h.pool.imp_right fun hp e he => hp e (hpool he),
    h.cell.imp_right fun hc c hmem => hc c (hcell c hmem)⟩

/-- The other tasks do not hold a lock that is free, or held by `i`. -/
theorem other_of_free {lock lock' : Option Nat} (hfree : lock = none ∨ lock = some i) (j : Nat)
    (hj : j ≠ i) (hl : lock = some j) : lock' = some j := by
  rcases hfree with hf | hf
  · rw [hf] at hl
    cases hl
  · rw [hf] at hl
    exact absurd (Option.some.inj hl).symm hj

/-! ## Under the pool lock -/

theorem freshest_mem {l : List PoolEntry} {k : Nat} {e : PoolEntry}
    (h : freshest l = some (k, e)) : e ∈ l := by
  induction l generalizing k e with
  | nil => cases h
  | cons a l ih =>
      simp only [freshest] at h
      split at h
      · cases h
        exact List.mem_cons_self
      · rename_i j e' hrest
        split_ifs at h
        · cases h
          exact List.mem_cons_of_mem a (ih hrest)
        · cases h
          exact List.mem_cons_self

theorem swapRemove_subset (l : List PoolEntry) (k : Nat) : swapRemove l k ⊆ l := by
  intro e he
  unfold swapRemove at he
  split at he
  · cases he
  · rename_i last hlast
    rcases List.mem_or_eq_of_mem_set (List.dropLast_subset _ he) with he | he
    · exact he
    · rw [he]
      exact List.mem_of_getLast? hlast

/-- A push adds an entry for the current host, unless the clear of a swap is still to come. -/
theorem Inv.push (h : s.Inv) {e : PoolEntry} {current : Nat}
    (hp : s.phases i = .pushLoaded e current) : (s.push i e current).Inv := by
  have hok := h.phase i
  rw [hp] at hok
  obtain ⟨hlock, hcurrent⟩ := hok
  refine h.move (by rw [hp]; rfl) .idle rfl rfl (other_of_free (.inr hlock)) (fun _ _ hl => hl)
    ?_ h.cell trivial
  rcases hcurrent with hpending | hcurrent
  · exact .inl hpending
  · refine h.pool.imp_right fun hall x hx => ?_
    change x ∈ (if _ then s.pool ++ [e] else s.pool) at hx
    split_ifs at hx with hpush
    · rcases List.mem_append.mp hx with hx | hx
      · exact hall x hx
      · rw [List.mem_singleton.mp hx, hpush.1, hcurrent]
    · exact hall x hx

/-- `acquire` takes an entry of the host it has loaded. -/
theorem Inv.take (h : s.Inv) {current now : Nat} (hp : s.phases i = .acquireLoaded current) :
    (s.take i current now).Inv := by
  have hlock : s.poolLock = some i := by
    have hok := h.phase i
    rw [hp] at hok
    exact hok
  have hnot : isSwap (s.phases i) = false := by rw [hp]; rfl
  unfold Conns.take
  simp only
  split
  · rename_i k e hfresh
    refine h.move hnot (.took e current) rfl rfl (other_of_free (.inr hlock)) (fun _ _ hl => hl)
      ?_ h.cell ?_
    · exact h.pool.imp_right fun hall x hx =>
        hall x (List.mem_of_mem_filter (swapRemove_subset _ _ hx))
    · have hmem := (List.mem_filter.mp (freshest_mem hfresh)).2
      rw [Bool.and_eq_true, decide_eq_true_iff] at hmem
      exact hmem.2
  · exact h.move hnot .acquireMissed rfl rfl (other_of_free (.inr hlock)) (fun _ _ hl => hl)
      (h.pool.imp_right fun hall x hx => hall x (List.mem_of_mem_filter hx)) h.cell trivial

/-! ## Under the cell lock -/

theorem Inv.storeCell (h : s.Inv) {host generation hostNow : Nat}
    (hp : s.phases i = .h2Loaded host generation hostNow) :
    (s.storeCell i host generation hostNow).Inv := by
  have hok := h.phase i
  rw [hp] at hok
  obtain ⟨hlock, hcurrent⟩ := hok
  refine h.move (by rw [hp]; rfl) .idle rfl rfl (fun _ _ hl => hl) (other_of_free (.inr hlock))
    h.pool ?_ trivial
  refine hcurrent.imp_right fun hnow c hc => ?_
  change c ∈ (if _ then _ else _) at hc
  split_ifs at hc with heq
  · cases hc
    exact heq.trans hnow
  · cases hc

/-! ## A swap -/

/-- With the store everything cached becomes stale, and the swap is pending. -/
theorem Inv.swapStore (h : s.Inv) :
    Inv { s.set i .swapStored with connectHost := s.nextArc, nextArc := s.nextArc + 1 } := by
  set t : Conns := { s.set i .swapStored with connectHost := s.nextArc, nextArc := s.nextArc + 1 }
  have hpending : t.PoolPending := ⟨i, Function.update_self i _ s.phases⟩
  have hswap : t.Swapping := hpending.swapping
  exact ⟨h.phase_update rfl trivial (fun _ _ hl => hl) (fun _ _ hl => hl)
    (fun _ _ _ _ => .inl hpending) (fun _ _ _ _ => .inl hswap), .inl hpending, .inl hswap⟩

/-- The pool is cleared with its lock free, so nobody is about to push. -/
theorem Inv.swapClearPool (h : s.Inv) (hfree : s.poolLock = none) :
    Inv { s.set i .swapCleared with pool := [] } := by
  set t : Conns := { s.set i .swapCleared with pool := [] }
  have hswap : t.Swapping := ⟨i, .inr (Function.update_self i _ s.phases)⟩
  refine ⟨h.phase_update rfl trivial (fun _ _ hl => hl) (fun _ _ hl => hl) (fun j hl => ?_)
    (fun _ _ _ _ => .inl hswap), .inr fun e he => (by cases he), .inl hswap⟩
  rw [hfree] at hl
  cases hl

/-- The cell is cleared with its lock free, so nobody is about to store a connection. -/
theorem Inv.swapClearCell (h : s.Inv) (hp : s.phases i = .swapCleared)
    (hfree : s.cellLock = none) : Inv { s.set i .idle with h2Cell := none } := by
  set t : Conns := { s.set i .idle with h2Cell := none }
  -- the swaps that have yet to clear the pool are others
  have hpending : s.PoolPending → t.PoolPending := by
    rintro ⟨j, hj⟩
    have hne : j ≠ i := by
      rintro rfl
      rw [hp] at hj
      cases hj
    exact ⟨j, (Function.update_of_ne hne _ s.phases).trans hj⟩
  refine ⟨h.phase_update rfl trivial (fun _ _ hl => hl) (fun _ _ hl => hl)
    (fun _ _ _ => Or.imp_left hpending) (fun j hl => ?_), h.pool.imp_left hpending,
    .inr fun c hc => (by cases hc)⟩
  rw [hfree] at hl
  cases hl

/-! ## One step, and every run -/

/-- The task `i` goes on, what is asked of its phase holds, and what is cached stays. -/
structure Plain (s t : Conns) (i : Nat) : Prop where
  before : isSwap (s.phases i) = false
  phases : ∃ p, t.phases = Function.update s.phases i p ∧ t.PhaseOk i p
  connectHost : t.connectHost = s.connectHost
  pool : t.pool = s.pool
  h2Cell : t.h2Cell = s.h2Cell
  poolLock : ∀ j, j ≠ i → s.poolLock = some j → t.poolLock = some j
  cellLock : ∀ j, j ≠ i → s.cellLock = some j → t.cellLock = some j

theorem Inv.plain (h : s.Inv) (hplain : Plain s t i) : t.Inv := by
  obtain ⟨p, hphases, hown⟩ := hplain.phases
  refine h.move hplain.before p hphases hplain.connectHost hplain.poolLock hplain.cellLock ?_ ?_
    hown
  · rw [hplain.pool]
    exact h.pool
  · rw [hplain.h2Cell]
    exact h.cell

theorem plain_set {p : ConnPhase} (hi : isSwap (s.phases i) = false)
    (hown : (s.set i p).PhaseOk i p) : Plain s (s.set i p) i :=
  ⟨hi, ⟨p, rfl, hown⟩, rfl, rfl, rfl, fun _ _ hl => hl, fun _ _ hl => hl⟩

/-- Opens, waiting for a lock, the ends of `acquire`, and cancellations. -/
def isPlain : ConnEvent → Bool
  | .openStart _ | .openDone _ _ | .openFailed _ | .acquire _ | .lockPool _ => true
  | .release _ _ | .discard _ | .h2Start _ | .h2Done _ _ | .cancel _ => true
  | _ => false

theorem step_plain {e : ConnEvent} (he : isPlain e = true) (ht : s.step e = some t) :
    ∃ i, Plain s t i := by
  cases e with
  | openStart i | openFailed i | discard i =>
      simp only [Conns.step] at ht
      split at ht <;> cases ht <;> rename_i hp <;> exact ⟨i, plain_set (by rw [hp]; rfl) trivial⟩
  | openDone i created =>
      simp only [Conns.step] at ht
      split at ht
      all_goals rename_i hp
      · cases ht
        exact ⟨i, plain_set (by rw [hp]; rfl) trivial⟩
      · split_ifs at ht <;> cases ht <;> exact ⟨i, plain_set (by rw [hp]; rfl) trivial⟩
      · cases ht
        exact ⟨i, plain_set (by rw [hp]; rfl) trivial⟩
      · cases ht
  | acquire i =>
      simp only [Conns.step] at ht
      split_ifs at ht with hp
      cases ht
      exact ⟨i, plain_set (by rw [hp]; rfl) trivial⟩
  | lockPool i =>
      simp only [Conns.step] at ht
      split_ifs at ht with hfree
      split at ht <;> cases ht <;> rename_i hp
      all_goals
        exact ⟨i, by rw [hp]; rfl, ⟨_, rfl, rfl⟩, rfl, rfl, rfl, other_of_free (.inl hfree),
          fun _ _ hl => hl⟩
  | release i now =>
      simp only [Conns.step] at ht
      split at ht <;> cases ht <;> rename_i hp
      all_goals
        refine ⟨i, plain_set (by rw [hp]; rfl) ?_⟩
        split_ifs <;> trivial
  | h2Start i =>
      simp only [Conns.step] at ht
      split_ifs at ht with hp
      cases ht
      exact ⟨i, by rw [hp.1]; rfl, ⟨_, rfl, trivial⟩, rfl, rfl, rfl, fun _ _ hl => hl,
        fun _ _ hl => hl⟩
  | h2Done i ok =>
      simp only [Conns.step] at ht
      split at ht
      · rename_i hp
        split_ifs at ht <;> cases ht
        all_goals
          exact ⟨i, by rw [hp]; rfl, ⟨_, rfl, trivial⟩, rfl, rfl, rfl, fun _ _ hl => hl,
            fun _ _ hl => hl⟩
      · cases ht
  | cancel i =>
      simp only [Conns.step] at ht
      split at ht <;> cases ht <;> rename_i hp
      all_goals
        exact ⟨i, by rw [hp]; rfl, ⟨_, rfl, trivial⟩, rfl, rfl, rfl, fun _ _ hl => hl,
          fun _ _ hl => hl⟩
  | _ => cases he

theorem Inv.step {e : ConnEvent} (h : s.Inv) (ht : s.step e = some t) : t.Inv := by
  -- a step of one task that leaves the shared cells alone
  by_cases hplain : isPlain e = true
  · obtain ⟨i, hi⟩ := step_plain hplain ht
    exact h.plain hi
  cases e with
  | loadHost i =>
      simp only [Conns.step] at ht
      have hok := h.phase i
      split at ht <;> cases ht <;> rename_i hp <;> rw [hp] at hok
      · exact h.set (by rw [hp]; rfl) _ ⟨hok, .inr rfl⟩
      · exact h.set (by rw [hp]; rfl) _ hok
      · exact h.set (by rw [hp]; rfl) _ ⟨hok, .inr rfl⟩
  | finishPool i now =>
      simp only [Conns.step] at ht
      split at ht <;> cases ht <;> rename_i hp
      · exact h.push hp
      · exact h.take hp
  | evict now =>
      simp only [Conns.step] at ht
      split_ifs at ht
      cases ht
      exact h.shrink List.filter_sublist.subset fun _ hc => hc
  | lockCell i =>
      simp only [Conns.step] at ht
      split_ifs at ht with hfree
      split at ht <;> cases ht <;> rename_i hp
      · exact h.move (by rw [hp]; rfl) _ rfl rfl (fun _ _ hl => hl) (other_of_free (.inl hfree))
          h.pool h.cell rfl
      · exact h.move (by rw [hp]; rfl) _ rfl rfl (fun _ _ hl => hl) (fun _ _ hl => hl) h.pool
          (.inr fun c hc => (by cases hc)) trivial
  | finishCell i =>
      simp only [Conns.step] at ht
      split at ht <;> cases ht
      rename_i hp
      exact h.storeCell hp
  | poison generation =>
      simp only [Conns.step] at ht
      split_ifs at ht
      cases ht
      exact h.shrink (List.Subset.refl _) fun c hc => (Option.mem_filter_iff.mp hc).1
  | clearCell =>
      simp only [Conns.step] at ht
      split_ifs at ht
      cases ht
      exact h.shrink (List.Subset.refl _) fun c hc => (by cases hc)
  | swapStore i =>
      simp only [Conns.step] at ht
      split_ifs at ht
      cases ht
      exact h.swapStore
  | swapClearPool i =>
      simp only [Conns.step] at ht
      split_ifs at ht with hp
      cases ht
      exact h.swapClearPool hp.2
  | swapClearCell i =>
      simp only [Conns.step] at ht
      split_ifs at ht with hp
      cases ht
      exact h.swapClearCell hp.1 hp.2
  | _ => exact absurd rfl hplain

/-- **No socket to a replaced front IP stays cached**, whatever the order of the steps. -/
theorem noStale_run (es : List ConnEvent) : StepRun.AllStates step NoStale init es :=
  StepRun.allStates_of_inv (fun _ _ _ h ht => h.step ht) (fun _ h => h.noStale) inv_init es

-- the host is swapped between the check and the push of a warm connection
example : (StepRun.run step init [.openStart 0, .openDone 0 5, .lockPool 0, .loadHost 0,
    .swapStore 1, .finishPool 0 6]).map (fun s => (s.connectHost, s.pool)) = some (1, [⟨0, 5⟩]) := by
  decide

end Rahgozar.Fronter.Conns
