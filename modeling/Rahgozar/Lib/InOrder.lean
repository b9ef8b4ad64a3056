import Rahgozar.Lib.Maps

set_option autoImplicit false

/-! # In-order delivery

Numbered items arrive in any order. The receiver keeps the number it expects next and an
ordered map of the items that came too early; when the expected one is there it is consumed,
and the map is flushed as far as it goes. `flush` is that loop for any consumer, `flush_rule`
its invariant rule, and `Gap` the relation between the counter, the map and the set of numbers
that have arrived.
-/

namespace InOrder

variable {σ ν : Type*}

/-- The state of a flush loop when it stops: `ok` is false if the consumer stopped it. -/
structure Flushed (σ ν : Type*) where
  state : σ
  next : Nat
  pending : BTreeMap ν
  ok : Bool

/-- The loop over the entries of the map in order of their keys. -/
def flushList (consume : σ → ν → σ × Bool) :
    σ → Nat → (l : List (Nat × ν)) → l.Pairwise (fun a b => a.1 < b.1) → Flushed σ ν
  | s, next, [], h => ⟨s, next, ⟨[], h⟩, true⟩
  | s, next, (key, v) :: l, h =>
      if key = next then
        let (t, ok) := consume s v
        if ok then flushList consume t (next + 1) l h.of_cons else ⟨t, next, ⟨l, h.of_cons⟩, false⟩
      else ⟨s, next, ⟨(key, v) :: l, h⟩, true⟩

/-- While the first entry of `pending` has the key `next`: take it out, consume it, count up. A
consumer that says no stops the loop with the entry gone and the counter where it was. -/
def flush (consume : σ → ν → σ × Bool) (s : σ) (next : Nat) (pending : BTreeMap ν) :
    Flushed σ ν :=
  flushList consume s next pending.toList pending.sorted

/-- Where a flush loop that started with `P` stops: behind the last entry in sequence, or at an
entry its consumer refused. -/
def StopsAt (consume : σ → ν → σ × Bool) (P : σ → Nat → BTreeMap ν → Prop) (r : Flushed σ ν) :
    Prop :=
  (r.ok = true ∧ P r.state r.next r.pending ∧ ∀ v, r.pending.firstEntry ≠ some (r.next, v)) ∨
  ∃ s next m v, P s next m ∧ m.firstEntry = some (next, v) ∧ (consume s v).2 = false ∧
    r = ⟨(consume s v).1, next, m.popFirst, false⟩

/-- **Rule for the flush loop.** -/
theorem flush_rule {consume : σ → ν → σ × Bool} {P : σ → Nat → BTreeMap ν → Prop}
    (hstep : ∀ s next m v, P s next m → m.firstEntry = some (next, v) →
      (consume s v).2 = true → P (consume s v).1 (next + 1) m.popFirst)
    {s : σ} {next : Nat} {pending : BTreeMap ν} (h0 : P s next pending) :
    StopsAt consume P (flush consume s next pending) := by
  obtain ⟨l, hl⟩ := pending
  unfold flush
  induction l generalizing s next with
  | nil => exact .inl ⟨rfl, h0, nofun⟩
  | cons e l ih =>
      obtain ⟨key, v⟩ := e
      simp only [flushList]
      split_ifs with hkey hok
      · subst hkey
        exact ih _ (hstep _ _ _ _ h0 rfl hok)
      · subst hkey
        exact .inr ⟨s, key, _, v, h0, rfl, by simpa using hok, rfl⟩
      · exact .inl ⟨rfl, h0, fun w hw => hkey (congrArg Prod.fst (Option.some.inj hw))⟩

/-- A consumer that never refuses. -/
theorem flush_rule_total {consume : σ → ν → σ × Bool} {P : σ → Nat → BTreeMap ν → Prop}
    (htotal : ∀ s v, (consume s v).2 = true)
    (hstep : ∀ s next m v, P s next m → m.firstEntry = some (next, v) →
      P (consume s v).1 (next + 1) m.popFirst)
    {s : σ} {next : Nat} {pending : BTreeMap ν} (h0 : P s next pending) :
    let r := flush consume s next pending
    P r.state r.next r.pending ∧ ∀ v, r.pending.firstEntry ≠ some (r.next, v) := by
  rcases flush_rule (fun s n m v hp hf _ => hstep s n m v hp hf) h0 with
    h | ⟨t, _, _, v, _, _, h, _⟩
  · exact h.2
  · rw [htotal t v] at h
    cases h

/-- Two consumers that never refuse and stay related flush the same entries. -/
theorem flush_rel {τ : Type*} {R : σ → τ → Prop} {f : σ → ν → σ × Bool} {g : τ → ν → τ × Bool}
    (hf : ∀ s v, (f s v).2 = true) (hg : ∀ t v, (g t v).2 = true)
    (hstep : ∀ s t v, R s t → R (f s v).1 (g t v).1) {s : σ} {t : τ} (h0 : R s t) (next : Nat)
    (pending : BTreeMap ν) :
    R (flush f s next pending).state (flush g t next pending).state := by
  obtain ⟨l, hl⟩ := pending
  unfold flush
  induction l generalizing s t next with
  | nil => exact h0
  | cons e l ih =>
      obtain ⟨key, v⟩ := e
      simp only [flushList, hf, hg, if_true]
      split_ifs with hkey
      · exact ih (hstep s t v h0) (next + 1) hl.of_cons
      · exact h0

/-! ## The gap relation -/

/-- The items `f j` with `j ∈ arrived` have come in; those below `next` are consumed and those
from `next` on wait in `pending`. -/
structure Gap (f : Nat → ν) (arrived : Finset Nat) (next : Nat) (pending : BTreeMap ν) : Prop where
  below : ∀ j, j < next → j ∈ arrived
  get : ∀ j, pending.get j = if j ∈ arrived ∧ next ≤ j then some (f j) else none

variable {f : Nat → ν} {arrived : Finset Nat} {next : Nat} {pending : BTreeMap ν}

theorem Gap.empty (f : Nat → ν) : Gap f ∅ 0 BTreeMap.empty := ⟨nofun, by simp⟩

theorem Gap.mem_of_get (h : Gap f arrived next pending) {j : Nat} {v : ν}
    (hj : pending.get j = some v) : j ∈ arrived ∧ next ≤ j ∧ v = f j := by
  rw [h.get j] at hj
  split_ifs at hj with hmem
  exact ⟨hmem.1, hmem.2, (Option.some.inj hj).symm⟩

/-- Only the items that have arrived matter. -/
theorem Gap.congr (h : Gap f arrived next pending) {g : Nat → ν} (hg : ∀ j ∈ arrived, g j = f j) :
    Gap g arrived next pending := by
  refine ⟨h.below, fun j => ?_⟩
  rw [h.get j]
  split_ifs with hj
  · rw [hg j hj.1]
  · rfl

/-- The value of an entry in sequence. -/
theorem Gap.first_eq (h : Gap f arrived next pending) {v : ν}
    (hf : pending.firstEntry = some (next, v)) : v = f next :=
  (h.mem_of_get (BTreeMap.get_firstEntry hf)).2.2

/-- One turn of the flush loop. -/
theorem Gap.pop (h : Gap f arrived next pending) {v : ν}
    (hf : pending.firstEntry = some (next, v)) : Gap f arrived (next + 1) pending.popFirst := by
  have hmem := (h.mem_of_get (BTreeMap.get_firstEntry hf)).1
  refine ⟨fun j hj => ?_, fun j => ?_⟩
  · rcases Nat.lt_succ_iff_lt_or_eq.mp hj with hlt | rfl
    · exact h.below j hlt
    · exact hmem
  · rw [BTreeMap.get_popFirst hf, h.get j]
    grind

/-- After the flush loop the expected item has not arrived. -/
theorem Gap.next_notMem (h : Gap f arrived next pending)
    (hf : ∀ v, pending.firstEntry ≠ some (next, v)) : next ∉ arrived := by
  intro hmem
  have hget : pending.get next = some (f next) := by rw [h.get, if_pos ⟨hmem, le_rfl⟩]
  cases hfirst : pending.firstEntry with
  | none => rw [BTreeMap.get_of_firstEntry_eq_none hfirst] at hget; cases hget
  | some e =>
      obtain ⟨k, v⟩ := e
      -- the least key is at least `next` and at most `next`
      have hk : next ≤ k := (h.mem_of_get (BTreeMap.get_firstEntry hfirst)).2.1
      rcases Nat.lt_or_eq_of_le hk with hlt | rfl
      · rw [BTreeMap.get_of_lt_firstEntry hfirst hlt] at hget
        cases hget
      · exact hf v hfirst

/-- The expected item arrives and is consumed at once. -/
theorem Gap.take (h : Gap f arrived next pending) (hnext : next ∉ arrived) :
    Gap f (insert next arrived) (next + 1) pending := by
  refine ⟨fun j hj => ?_, fun j => ?_⟩
  · rcases Nat.lt_succ_iff_lt_or_eq.mp hj with hlt | rfl
    · exact Finset.mem_insert_of_mem (h.below j hlt)
    · exact Finset.mem_insert_self ..
  · rw [h.get j]
    have : j = next → j ∉ arrived := fun hj => hj ▸ hnext
    grind

/-- A later item arrives, maybe not for the first time, and waits. -/
theorem Gap.replace (h : Gap f arrived next pending) {k : Nat} (hk : next < k) (v : ν) :
    Gap (Function.update f k v) (insert k arrived) next (pending.insert k v) := by
  refine ⟨fun j hj => Finset.mem_insert_of_mem (h.below j hj), fun j => ?_⟩
  rw [BTreeMap.get_insert, h.get j, Function.update_apply]
  grind

theorem Gap.keep (h : Gap f arrived next pending) {k : Nat} (hk : next < k) :
    Gap f (insert k arrived) next (pending.insert k (f k)) := by
  have hrep := h.replace hk (f k)
  rwa [Function.update_eq_self] at hrep

/-- An item that has been consumed before arrives again. -/
theorem Gap.stale (h : Gap f arrived next pending) {k : Nat} (hk : k < next) :
    insert k arrived = arrived :=
  Finset.insert_eq_of_mem (h.below k hk)

/-- What waits are the items behind the gap. -/
theorem Gap.len_eq (h : Gap f arrived next pending) :
    pending.len = (arrived.filter fun j => next ≤ j).card := by
  refine BTreeMap.len_eq_card fun j => ?_
  rw [h.get j, Finset.mem_filter]
  split_ifs with hj
  · exact ⟨fun _ => hj, fun _ => rfl⟩
  · exact ⟨nofun, fun hmem => absurd hmem hj⟩

end InOrder
