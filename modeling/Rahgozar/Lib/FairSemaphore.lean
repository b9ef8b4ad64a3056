import Mathlib.Data.List.Induction
import Mathlib.Data.List.Nodup
import Mathlib.Order.Nat

set_option autoImplicit false

/-! # Semaphores with a line

A counting semaphore: who has a permit, and who waits for one. A permit that comes back goes to
the first in line, so that nobody waits while a permit is free. Parties are known by their places
in a list; a *roster* is a list of the places at which a predicate holds.
-/

/-- A semaphore of `n` permits; the first of `waiters` is the next to get one. -/
structure FairSemaphore (ι : Type*) (n : Nat) where
  holders : List ι
  waiters : List ι
  le : holders.length ≤ n
  full : waiters ≠ [] → holders.length = n

namespace FairSemaphore

variable {ι : Type*} {n : Nat}

def new (n : Nat) : FairSemaphore ι n := ⟨[], [], Nat.zero_le n, fun h => absurd rfl h⟩

/-- A permit if one is free, else a place at the end of the line. -/
def acquire (s : FairSemaphore ι n) (i : ι) : FairSemaphore ι n :=
  if h : s.holders.length < n then
    ⟨i :: s.holders, s.waiters, h, fun hw => absurd (s.full hw) h.ne⟩
  else ⟨s.holders, s.waiters ++ [i], s.le, fun _ => le_antisymm s.le (not_lt.mp h)⟩

/-- A permit if one is free. -/
def tryAcquire (s : FairSemaphore ι n) (i : ι) : Option (FairSemaphore ι n) :=
  if h : s.holders.length < n then
    some ⟨i :: s.holders, s.waiters, h, fun hw => absurd (s.full hw) h.ne⟩
  else none

variable [DecidableEq ι]

theorem length_cons_erase {l : List ι} {i : ι} (h : i ∈ l) (j : ι) :
    (j :: l.erase i).length = l.length := by
  have := List.length_pos_of_mem h
  rw [List.length_cons, List.length_erase_of_mem h]
  omega

/-- A holder gives its permit back. -/
def release (s : FairSemaphore ι n) (i : ι) : FairSemaphore ι n :=
  if h : i ∈ s.holders then
    match hw : s.waiters with
    | [] => ⟨s.holders.erase i, [], (List.length_erase_le).trans s.le, fun h => absurd rfl h⟩
    | j :: rest =>
        have hlength := length_cons_erase h j
        ⟨j :: s.holders.erase i, rest, hlength.le.trans s.le,
          fun _ => hlength.trans (s.full (by simp [hw]))⟩
  else s

variable {s t : FairSemaphore ι n} {i : ι}

omit [DecidableEq ι] in
/-- What `acquire` does. -/
theorem acquire_cases (s : FairSemaphore ι n) (i : ι) :
    (s.holders.length < n ∧ (s.acquire i).holders = i :: s.holders ∧
        (s.acquire i).waiters = s.waiters) ∨
      (s.holders.length = n ∧ (s.acquire i).holders = s.holders ∧
        (s.acquire i).waiters = s.waiters ++ [i]) := by
  unfold acquire
  by_cases h : s.holders.length < n
  · rw [dif_pos h]
    exact Or.inl ⟨h, rfl, rfl⟩
  · rw [dif_neg h]
    exact Or.inr ⟨le_antisymm s.le (not_lt.mp h), rfl, rfl⟩

omit [DecidableEq ι] in
/-- Who gets a permit by trying meets an empty line. -/
theorem of_tryAcquire (h : s.tryAcquire i = some t) :
    s.waiters = [] ∧ t.holders = i :: s.holders ∧ t.waiters = s.waiters := by
  unfold tryAcquire at h
  split_ifs at h with hlt
  cases h
  refine ⟨?_, rfl, rfl⟩
  by_contra hw
  exact absurd (s.full hw) hlt.ne

/-- What `release` does. -/
theorem release_cases (h : i ∈ s.holders) :
    (s.waiters = [] ∧ (s.release i).holders = s.holders.erase i ∧ (s.release i).waiters = []) ∨
      ∃ j rest, s.waiters = j :: rest ∧ (s.release i).holders = j :: s.holders.erase i ∧
        (s.release i).waiters = rest := by
  unfold release
  rw [dif_pos h]
  split
  next hw => exact Or.inl ⟨hw, rfl, rfl⟩
  next j rest hw => exact Or.inr ⟨j, rest, hw, rfl, rfl⟩

end FairSemaphore

/-! ## Rosters -/

/-- The list names the places of the parties of which `p` holds, each once. -/
structure Roster {τ : Type*} (l : List Nat) (parties : List τ) (p : τ → Bool) : Prop where
  nodup : l.Nodup
  mem : ∀ i, i ∈ l ↔ ∃ t, parties[i]? = some t ∧ p t = true

namespace Roster

variable {τ : Type*} {l : List Nat} {parties : List τ} {p q : τ → Bool} {i : Nat} {t : τ}
  {f : τ → τ}

theorem nil : Roster [] ([] : List τ) p := ⟨List.nodup_nil, by simp⟩

/-- A party that joins without `p`. -/
theorem append (h : Roster l parties p) (hp : p t = false) : Roster l (parties ++ [t]) p := by
  refine ⟨h.nodup, fun i => (h.mem i).trans ?_⟩
  rcases Nat.lt_trichotomy i parties.length with hlt | rfl | hgt
  · rw [List.getElem?_append_left hlt]
  · simp [hp]
  · simp [List.getElem?_eq_none hgt.le, List.getElem?_append_right hgt.le,
      Nat.sub_ne_zero_of_lt hgt]

theorem getElem?_modify_self (ht : parties[i]? = some t) :
    (parties.modify i f)[i]? = some (f t) := by
  rw [List.getElem?_modify_eq, ht]
  rfl

theorem getElem?_modify_of_ne {j : Nat} (hij : j ≠ i) : (parties.modify i f)[j]? = parties[j]? :=
  List.getElem?_modify_ne _ _ (Ne.symm hij)

/-- A party that stays as it is in the eyes of `p`. -/
theorem modify (h : Roster l parties p) (ht : parties[i]? = some t) (hp : p (f t) = p t) :
    Roster l (parties.modify i f) p := by
  refine ⟨h.nodup, fun j => (h.mem j).trans ?_⟩
  by_cases hij : j = i
  · subst hij
    rw [getElem?_modify_self ht, ht]
    simp [hp]
  · rw [getElem?_modify_of_ne hij]

theorem notMem (h : Roster l parties p) (ht : parties[i]? = some t) (hp : p t = false) : i ∉ l := by
  intro hi
  obtain ⟨u, hu, hpu⟩ := (h.mem i).mp hi
  rw [ht] at hu
  cases hu
  rw [hp] at hpu
  cases hpu

/-- A party that gets `p`. -/
theorem cons (h : Roster l parties p) (ht : parties[i]? = some t) (hp : p t = false)
    (hf : p (f t) = true) : Roster (i :: l) (parties.modify i f) p := by
  refine ⟨List.nodup_cons.mpr ⟨h.notMem ht hp, h.nodup⟩, fun j => ?_⟩
  by_cases hij : j = i
  · subst hij
    rw [getElem?_modify_self ht]
    simp [hf]
  · rw [getElem?_modify_of_ne hij, List.mem_cons, h.mem]
    simp [hij]

/-- A party that gets `p` and goes to the end. -/
theorem concat (h : Roster l parties p) (ht : parties[i]? = some t) (hp : p t = false)
    (hf : p (f t) = true) : Roster (l ++ [i]) (parties.modify i f) p := by
  have hcons := h.cons ht hp hf
  refine ⟨(List.perm_append_singleton i l).nodup_iff.mpr hcons.nodup, fun j => ?_⟩
  rw [(List.perm_append_singleton i l).mem_iff]
  exact hcons.mem j

/-- A party that loses `p`. -/
theorem erase (h : Roster l parties p) (ht : parties[i]? = some t) (hf : p (f t) = false) :
    Roster (l.erase i) (parties.modify i f) p := by
  refine ⟨h.nodup.erase i, fun j => ?_⟩
  by_cases hij : j = i
  · subst hij
    rw [getElem?_modify_self ht]
    simp [hf, h.nodup.not_mem_erase]
  · rw [getElem?_modify_of_ne hij, List.mem_erase_of_ne hij, h.mem]

theorem tail (h : Roster (i :: l) parties p) (ht : parties[i]? = some t) (hf : p (f t) = false) :
    Roster l (parties.modify i f) p := by
  have herase := h.erase ht hf
  rwa [List.erase_cons_head] at herase

theorem exists_modify (ht : parties[i]? = some t) : ∃ front rest,
    parties = front ++ t :: rest ∧ parties.modify i f = front ++ f t :: rest := by
  obtain ⟨hi, hget⟩ := List.getElem?_eq_some_iff.mp ht
  obtain ⟨front, u, rest, hparties, hlength, hmodify⟩ := List.exists_of_modify f hi
  have hu : u = t := by
    subst hparties
    simpa [← hlength] using hget
  subst hu
  exact ⟨front, rest, hparties, hmodify⟩

theorem flatMap_modify {β : Type*} {g : τ → List β} (ht : parties[i]? = some t)
    (hsame : g (f t) = g t) : (parties.modify i f).flatMap g = parties.flatMap g := by
  obtain ⟨front, rest, hparties, hmodify⟩ := exists_modify (f := f) ht
  rw [hmodify, hparties]
  simp only [List.flatMap_append, List.flatMap_cons, hsame]

/-- What the parties bring, after one that brought nothing has changed. -/
theorem flatMap_modify_perm {β : Type*} {g : τ → List β} (ht : parties[i]? = some t)
    (hnone : g t = []) : ((parties.modify i f).flatMap g).Perm (parties.flatMap g ++ g (f t)) := by
  obtain ⟨front, rest, hparties, hmodify⟩ := exists_modify (f := f) ht
  rw [hmodify, hparties]
  simp only [List.flatMap_append, List.flatMap_cons, hnone, List.nil_append, List.append_assoc]
  exact List.Perm.append_left _ List.perm_append_comm

/-- A roster is as long as there are parties with `p`. -/
theorem length_eq (h : Roster l parties p) : l.length = parties.countP p := by
  have hplaces : ∀ parties : List τ,
      ((List.range parties.length).filter fun i => (parties[i]?).any p).length =
        parties.countP p := by
    intro parties
    induction parties using List.reverseRecOn with
    | nil => rfl
    | append_singleton parties t ih =>
        rw [List.length_append, List.length_singleton, List.range_succ, List.filter_append,
          List.length_append, List.countP_append, ← ih]
        congr 1
        · congr 1
          refine List.filter_congr fun i hi => ?_
          rw [List.getElem?_append_left (List.mem_range.mp hi)]
        · by_cases hp : p t = true <;> simp [hp]
  rw [← hplaces]
  refine ((List.perm_ext_iff_of_nodup h.nodup ((List.nodup_range).filter _)).mpr
    fun i => ?_).length_eq
  rw [h.mem, List.mem_filter, List.mem_range, Option.any_eq_true]
  constructor
  · rintro ⟨t, ht, hp⟩
    exact ⟨(List.getElem?_eq_some_iff.mp ht).1, t, ht, hp⟩
  · rintro ⟨-, t, ht, hp⟩
    exact ⟨t, ht, hp⟩

end Roster
