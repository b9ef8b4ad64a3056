import Mathlib.Data.List.DropRight
import Rahgozar.Lib.Maps
import Rahgozar.Proxy.DirectMode
import Rahgozar.Proxy.Routing

set_option autoImplicit false

/-! # The breaker of the local bypass (`src/direct_mode.rs`)

For each host the map keeps the dials that failed in a row, until when the host is given up, and for
each profile the dials it has lost. One function notes the outcome of a dial. It makes room when the
map is full, and a host whose entry is dropped starts anew. Times are in nanoseconds.
-/

namespace Rahgozar.Proxy.Breaker

open Direct (Profile profiles isFragmentingProfile)

def breakerThreshold : Nat := 3
def breakerCooldown : Nat := 30 * 10 ^ 9
def breakerMaxEntries : Nat := 256
def profileStrikeThreshold : Nat := 3
def profileFloor : Nat := 2

/-- `u32::MAX` -/
def maxCount : Nat := 2 ^ 32 - 1

/-- `saturating_add(1)` -/
def saturatingSucc (c : Nat) : Nat := min (c + 1) maxCount

abbrev Fails := AList fun _ : String => Nat

structure Entry where
  consecutiveFailures : Nat
  untilAt : Option Nat
  profileFails : Fails

def Entry.new : Entry := ⟨0, none, ∅⟩

abbrev BreakerMap := AList fun _ : List Char => Entry

/-! ## Keys -/

def stripPort (host : List Char) : List Char :=
  match host with
  | '[' :: rest => if ']' ∈ rest then rest.takeWhile (· ≠ ']') else host
  | _ =>
      if host.count ':' = 1 then
        let front := host.takeWhile (· ≠ ':')
        let port := (host.dropWhile (· ≠ ':')).drop 1
        if front ≠ [] ∧ port.all Char.isDigit then front else host
      else host

def breakerKey (host : List Char) : List Char := toAsciiLowercase (stripPort host)

/-! ## The functions -/

def localBypassBreakerTripped (m : BreakerMap) (host : List Char) (now : Nat) : Bool :=
  match m.lookup (breakerKey host) with
  | none => false
  | some entry =>
      match entry.untilAt with
      | none => false
      | some u => decide (now < u)

/-- The host is given up at this time. -/
def Entry.unexpired (now : Nat) (e : Entry) : Bool := e.untilAt.any fun t => decide (now < t)

/-- Entries without an end sort first. -/
def Entry.order (e : Entry) : WithBot Nat := e.untilAt

/-- `min_by_key` returns one of the entries that expire first, without an end before any with one;
which of them depends on the order of the hash map. -/
def oldest (choice : Nat) (m : BreakerMap) : Option (List Char) :=
  let least := m.entries.filter fun e => m.entries.all fun f =>
    decide (e.2.order ≤ f.2.order)
  (least[choice % least.length]?).map fun e => e.1

def evictIfAtCap (choice now : Nat) (m : BreakerMap) (incomingKey : List Char) : BreakerMap :=
  if m.entries.length < breakerMaxEntries ∨ incomingKey ∈ m then m
  else
    let m := m.retain (Entry.unexpired now)
    if breakerMaxEntries ≤ m.entries.length then
      match oldest choice m with
      | some k => m.erase k
      | none => m
    else m

/-- The outcome of a dial: the clock is read once for the entries that have run out, and once for
the end of a cooldown. -/
structure Outcome where
  host : List Char
  failedProfiles : List String
  winner : Option String
  evictAt : Nat
  tripAt : Nat
  choice : Nat

/-- The loop over the profiles that failed. -/
def strike (winner : Option String) (failed : List String) (fails : Fails) : Fails :=
  failed.foldl (fun fails pid =>
    if winner = some pid then fails
    else fails.insert pid (saturatingSucc ((fails.lookup pid).getD 0))) fails

/-- What a dial changes in the entry of its host. -/
def Entry.note (e : Entry) (o : Outcome) : Entry :=
  let fails := strike o.winner o.failedProfiles e.profileFails
  match o.winner with
  | some pid => ⟨0, none, fails.erase pid⟩
  | none =>
      if o.failedProfiles.isEmpty then ⟨e.consecutiveFailures, e.untilAt, fails⟩
      else
        let c := saturatingSucc e.consecutiveFailures
        ⟨c, if breakerThreshold ≤ c then some (o.tripAt + breakerCooldown) else e.untilAt, fails⟩

/-- Nothing is left in the entry. -/
def Entry.isClear (e : Entry) : Bool :=
  e.consecutiveFailures = 0 && e.untilAt.isNone && e.profileFails.entries.isEmpty

def localBypassNoteDialOutcome (m : BreakerMap) (o : Outcome) : BreakerMap :=
  if o.failedProfiles.isEmpty ∧ o.winner.isNone then m
  else
    let key := breakerKey o.host
    let m := evictIfAtCap o.choice o.evictAt m key
    let entry := ((m.lookup key).getD .new).note o
    let m := m.insert key entry
    if entry.isClear then m.erase key else m

def availableProfileIds (profileFails : Fails) (threshold floor : Nat) : List String :=
  let pool := (profiles.filter isFragmentingProfile).map Profile.id
  let filtered := pool.filter fun id => (profileFails.lookup id).getD 0 < threshold
  if filtered.length < floor then pool else filtered

def localBypassAvailableProfileIds (m : BreakerMap) (host : List Char) : List String :=
  let fails := ((m.lookup (breakerKey host)).map Entry.profileFails).getD ∅
  availableProfileIds fails profileStrikeThreshold profileFloor

/-- The map after the outcomes, in their order. -/
def run (outcomes : List Outcome) : BreakerMap := outcomes.foldl localBypassNoteDialOutcome ∅

theorem run_concat (outcomes : List Outcome) (o : Outcome) :
    run (outcomes ++ [o]) = localBypassNoteDialOutcome (run outcomes) o := by
  rw [run, List.foldl_append]
  rfl

/-! ## Making room -/

theorem oldest_mem {m : BreakerMap} (h : m.entries ≠ []) (choice : Nat) :
    ∃ k, oldest choice m = some k ∧ k ∈ m := by
  obtain ⟨e, he⟩ := Option.ne_none_iff_exists'.mp
    (fun hnone => h (List.argmin_eq_none.mp hnone) :
      m.entries.argmin (fun e => e.2.order) ≠ none)
  have hleast : ∀ f ∈ m.entries, e.2.order ≤ f.2.order := fun f hf =>
    List.le_of_mem_argmin (f := fun e : Sigma fun _ : List Char => Entry => e.2.order) hf he
  let least := m.entries.filter fun e => m.entries.all fun f => decide (e.2.order ≤ f.2.order)
  have hmem : e ∈ least :=
    List.mem_filter.mpr ⟨List.argmin_mem he, by simpa using fun f hf => hleast f hf⟩
  have hpos : 0 < least.length := List.length_pos_of_mem hmem
  have hlt : choice % least.length < least.length := Nat.mod_lt _ hpos
  have hkept : least[choice % least.length] ∈ m.entries :=
    List.mem_of_mem_filter (List.getElem_mem hlt)
  refine ⟨least[choice % least.length].1, ?_, List.mem_map_of_mem hkept⟩
  show (least[choice % least.length]?).map (fun e => e.1) = _
  rw [List.getElem?_eq_getElem hlt]
  rfl

theorem length_erase {m : BreakerMap} {k : List Char} (h : k ∈ m) :
    (m.erase k).entries.length + 1 = m.entries.length := by
  obtain ⟨e, he⟩ := Option.isSome_iff_exists.mp (AList.lookup_isSome.mpr h)
  have hweight : ∀ m : BreakerMap, m.weight (fun _ => 1) = m.entries.length := fun m => by
    rw [AList.weight, List.map_const', List.sum_replicate, smul_eq_mul, Nat.mul_one]
  have herase := AList.weight_erase (f := fun _ => 1) he
  rw [hweight, hweight] at herase
  omega

section

variable {m : BreakerMap} {key k : List Char} {choice now : Nat}

/-- What making room can come to. -/
theorem evictIfAtCap_cases (m : BreakerMap) (key : List Char) (choice now : Nat) :
    (evictIfAtCap choice now m key = m ∧
      (m.entries.length < breakerMaxEntries ∨ key ∈ m)) ∨
    ∃ kept, kept = m.retain (Entry.unexpired now) ∧ key ∉ m ∧
      (evictIfAtCap choice now m key = kept ∧ kept.entries.length < breakerMaxEntries ∨
        ∃ j ∈ kept, evictIfAtCap choice now m key = kept.erase j ∧
          breakerMaxEntries ≤ kept.entries.length) := by
  unfold evictIfAtCap
  by_cases hroom : m.entries.length < breakerMaxEntries ∨ key ∈ m
  · rw [if_pos hroom]
    exact Or.inl ⟨rfl, hroom⟩
  · rw [if_neg hroom]
    refine Or.inr ⟨_, rfl, (not_or.mp hroom).2, ?_⟩
    generalize m.retain _ = kept
    dsimp only
    by_cases hfull : breakerMaxEntries ≤ kept.entries.length
    · have hne : kept.entries ≠ [] := by
        intro hnil
        rw [hnil] at hfull
        exact absurd hfull (by decide)
      obtain ⟨j, hj, hmem⟩ := oldest_mem hne choice
      rw [if_pos hfull, hj]
      exact Or.inr ⟨j, hmem, rfl, hfull⟩
    · rw [if_neg hfull]
      exact Or.inl ⟨rfl, not_le.mp hfull⟩

theorem length_retain_le (p : Entry → Bool) (m : BreakerMap) :
    (m.retain p).entries.length ≤ m.entries.length := List.length_filter_le _ _

/-- There is room for the key afterwards. -/
theorem length_evictIfAtCap (h : m.entries.length ≤ breakerMaxEntries) (key : List Char)
    (choice now : Nat) :
    (evictIfAtCap choice now m key).entries.length < breakerMaxEntries ∨
      evictIfAtCap choice now m key = m ∧ key ∈ m := by
  rcases evictIfAtCap_cases m key choice now with ⟨hsame, hroom⟩ |
    ⟨kept, hkept, -, ⟨hevict, hlt⟩ | ⟨j, hj, hevict, -⟩⟩
  · rw [hsame]
    exact hroom.imp_right fun hkey => ⟨rfl, hkey⟩
  · rw [hevict]
    exact Or.inl hlt
  · have hle := length_retain_le (Entry.unexpired now) m
    have herase := length_erase hj
    rw [← hkept] at hle
    rw [hevict]
    exact Or.inl (by omega)

/-- A key that is left keeps its entry. -/
theorem lookup_evictIfAtCap (h : k ∈ evictIfAtCap choice now m key) :
    (evictIfAtCap choice now m key).lookup k = m.lookup k := by
  have hretain : ∀ kept, kept = m.retain (Entry.unexpired now) →
      k ∈ kept → kept.lookup k = m.lookup k := by
    rintro kept rfl hmem
    obtain ⟨e, he⟩ := Option.isSome_iff_exists.mp (AList.lookup_isSome.mpr hmem)
    rw [he, (AList.lookup_retain_eq_some.mp he).1]
  rcases evictIfAtCap_cases m key choice now with ⟨hsame, -⟩ |
    ⟨kept, hkept, -, ⟨hevict, -⟩ | ⟨j, -, hevict, -⟩⟩
  · rw [hsame]
  · rw [hevict] at h ⊢
    exact hretain kept hkept h
  · rw [hevict] at h ⊢
    obtain ⟨hne, hmem⟩ := AList.mem_erase.mp h
    rw [AList.lookup_erase_ne hne]
    exact hretain kept hkept hmem

/-- The entry of the key itself is left alone. -/
theorem lookup_evictIfAtCap_self :
    (evictIfAtCap choice now m key).lookup key = m.lookup key := by
  by_cases hmem : key ∈ evictIfAtCap choice now m key
  · exact lookup_evictIfAtCap hmem
  · rw [AList.lookup_eq_none.mpr hmem]
    rcases evictIfAtCap_cases m key choice now with ⟨hsame, -⟩ | ⟨kept, -, hnot, -⟩
    · rw [hsame] at hmem
      exact (AList.lookup_eq_none.mpr hmem).symm
    · exact (AList.lookup_eq_none.mpr hnot).symm

/-- A trip that has not run out is dropped only when there is nothing else. -/
theorem all_tripped_of_evicted (h : m.entries.length ≤ breakerMaxEntries) {e : Entry} {t : Nat}
    (he : m.lookup k = some e) (ht : e.untilAt = some t) (hnow : now < t)
    (hevicted : k ∉ evictIfAtCap choice now m key) {j : List Char} {f : Entry}
    (hf : m.lookup j = some f) : ∃ u, f.untilAt = some u ∧ now < u := by
  have hmem : k ∈ m := AList.lookup_isSome.mp (by rw [he]; rfl)
  have hkeep : k ∈ m.retain (Entry.unexpired now) := by
    have htripped : e.unexpired now = true := by
      rw [Entry.unexpired, ht]
      exact decide_eq_true hnow
    have hlookup := AList.lookup_retain_eq_some.mpr ⟨he, htripped⟩
    exact AList.lookup_isSome.mp (by rw [hlookup]; rfl)
  rcases evictIfAtCap_cases m key choice now with ⟨hsame, -⟩ |
    ⟨kept, hkept, -, ⟨hevict, -⟩ | ⟨i, -, -, hfull⟩⟩
  · rw [hsame] at hevicted
    exact absurd hmem hevicted
  · rw [hevict, hkept] at hevicted
    exact absurd hkeep hevicted
  · -- so many are left that none was dropped
    rw [hkept] at hfull
    have hall := List.length_filter_eq_length_iff.mp
      (le_antisymm (length_retain_le (Entry.unexpired now) m) (h.trans hfull))
    have hentry : f.unexpired now = true := hall ⟨j, f⟩ (AList.mem_lookup_iff.mp hf)
    rw [Entry.unexpired] at hentry
    cases hu : f.untilAt with
    | none =>
      rw [hu] at hentry
      cases hentry
    | some u =>
      rw [hu] at hentry
      exact ⟨u, rfl, of_decide_eq_true hentry⟩

end

theorem length_insert_evictIfAtCap {m : BreakerMap} (h : m.entries.length ≤ breakerMaxEntries)
    (key : List Char) (choice now : Nat) (entry : Entry) :
    ((evictIfAtCap choice now m key).insert key entry).entries.length ≤ breakerMaxEntries := by
  have hinsert : ∀ m : BreakerMap,
      (m.insert key entry).entries.length = (m.erase key).entries.length + 1 := fun _ => rfl
  rw [hinsert]
  rcases length_evictIfAtCap h key choice now with hlt | ⟨hsame, hmem⟩
  · have hle := AList.length_erase_le (k := key) (evictIfAtCap choice now m key)
    omega
  · rw [hsame, length_erase hmem]
    exact h

theorem length_noteDialOutcome {m : BreakerMap} (h : m.entries.length ≤ breakerMaxEntries)
    (o : Outcome) : (localBypassNoteDialOutcome m o).entries.length ≤ breakerMaxEntries := by
  unfold localBypassNoteDialOutcome
  dsimp only
  split_ifs with hnothing hclear
  · exact h
  · exact (AList.length_erase_le _).trans (length_insert_evictIfAtCap h _ _ _ _)
  · exact length_insert_evictIfAtCap h _ _ _ _

/-! ## What an entry records -/

/-- The outcomes behind the last one that has `p`. -/
def since (p : Outcome → Bool) (outcomes : List Outcome) : List Outcome :=
  outcomes.rtakeWhile fun o => !p o

def Outcome.isFor (o : Outcome) (key : List Char) : Bool := breakerKey o.host = key

def Outcome.isTotalFailure (o : Outcome) : Bool := o.winner.isNone && !o.failedProfiles.isEmpty

/-- The total failures of a host since its last success. -/
def totalFailures (key : List Char) (outcomes : List Outcome) : List Outcome :=
  (since (fun o => o.isFor key && o.winner.isSome) outcomes).filter fun o =>
    o.isFor key && o.isTotalFailure

/-- How often a profile has failed for a host since it last won. -/
def failuresOf (key : List Char) (pid : String) (outcomes : List Outcome) : Nat :=
  (((since (fun o => o.isFor key && decide (o.winner = some pid)) outcomes).filter fun o =>
    o.isFor key).map fun o => o.failedProfiles.count pid).sum

/-- An entry that has counted the outcomes. -/
structure Records (key : List Char) (outcomes : List Outcome) (e : Entry) : Prop where
  failures : e.consecutiveFailures = min (totalFailures key outcomes).length maxCount
  untilAt : e.untilAt =
    if breakerThreshold ≤ (totalFailures key outcomes).length then
      (totalFailures key outcomes).getLast?.map fun o => o.tripAt + breakerCooldown
    else none
  strikes : ∀ pid, (e.profileFails.lookup pid).getD 0 = min (failuresOf key pid outcomes) maxCount

section

variable {key : List Char} {outcomes : List Outcome} {o : Outcome} {pid : String} {e : Entry}

theorem since_concat (p : Outcome → Bool) (outcomes : List Outcome) (o : Outcome) :
    since p (outcomes ++ [o]) = if p o then [] else since p outcomes ++ [o] := by
  rw [since, List.rtakeWhile_concat]
  cases p o <;> rfl

/-- An outcome for another host is not counted. -/
theorem totalFailures_other (h : o.isFor key = false) :
    totalFailures key (outcomes ++ [o]) = totalFailures key outcomes := by
  rw [totalFailures, since_concat, h, Bool.false_and, if_neg Bool.false_ne_true,
    List.filter_append]
  simp [h, totalFailures]

theorem failuresOf_other (h : o.isFor key = false) :
    failuresOf key pid (outcomes ++ [o]) = failuresOf key pid outcomes := by
  rw [failuresOf, since_concat, h, Bool.false_and, if_neg Bool.false_ne_true,
    List.filter_append]
  simp [h, failuresOf]

theorem totalFailures_self (h : o.isFor key = true) :
    totalFailures key (outcomes ++ [o]) =
      if o.winner.isSome then []
      else if o.failedProfiles.isEmpty then totalFailures key outcomes
      else totalFailures key outcomes ++ [o] := by
  rw [totalFailures, since_concat, h, Bool.true_and]
  cases hwinner : o.winner with
  | some pid => rfl
  | none =>
    rw [Option.isSome_none, if_neg Bool.false_ne_true, if_neg Bool.false_ne_true,
      List.filter_append]
    cases hfailed : o.failedProfiles.isEmpty with
    | true => simp [h, Outcome.isTotalFailure, hfailed, totalFailures]
    | false => simp [h, Outcome.isTotalFailure, hwinner, hfailed, totalFailures]

theorem failuresOf_self (h : o.isFor key = true) :
    failuresOf key pid (outcomes ++ [o]) =
      if o.winner = some pid then 0
      else failuresOf key pid outcomes + o.failedProfiles.count pid := by
  rw [failuresOf, since_concat, h, Bool.true_and]
  by_cases hwinner : o.winner = some pid
  · rw [if_pos (decide_eq_true hwinner), if_pos hwinner]
    rfl
  · rw [if_neg (by simpa using hwinner), if_neg hwinner, List.filter_append]
    simp [h, failuresOf]

theorem records_new : Records key [] Entry.new where
  failures := rfl
  untilAt := rfl
  strikes := fun pid => by
    rw [failuresOf, since, List.rtakeWhile_nil]
    rfl

theorem Records.other (h : Records key outcomes e) (hkey : o.isFor key = false) :
    Records key (outcomes ++ [o]) e where
  failures := by rw [totalFailures_other hkey, h.failures]
  untilAt := by rw [totalFailures_other hkey, h.untilAt]
  strikes := fun pid => by rw [failuresOf_other hkey, h.strikes]

/-- The strikes of the profiles that failed, and did not win. -/
theorem lookup_strike (winner : Option String) (failed : List String) {fails : Fails} {n : Nat}
    (h : (fails.lookup pid).getD 0 = min n maxCount) (hne : winner ≠ some pid) :
    ((strike winner failed fails).lookup pid).getD 0 = min (n + failed.count pid) maxCount := by
  induction failed generalizing fails n with
  | nil => exact h
  | cons q failed ih =>
    rw [strike, List.foldl_cons, ← strike]
    by_cases hwinner : winner = some q
    · have hq : q ≠ pid := fun heq => hne (heq ▸ hwinner)
      rw [if_pos hwinner, List.count_cons_of_ne hq, ih h]
    · rw [if_neg hwinner]
      by_cases hq : q = pid
      · subst hq
        have hnext : ((fails.insert q (saturatingSucc ((fails.lookup q).getD 0))).lookup q).getD 0 =
            min (n + 1) maxCount := by
          rw [AList.lookup_insert, Option.getD_some, saturatingSucc, h]
          omega
        rw [ih hnext, List.count_cons_self]
        omega
      · have hnext : ((fails.insert q (saturatingSucc ((fails.lookup q).getD 0))).lookup pid).getD 0
            = min n maxCount := by
          rw [AList.lookup_insert_ne (Ne.symm hq), h]
        rw [ih hnext, List.count_cons_of_ne hq]

/-- An outcome for the host is counted. -/
theorem Records.note (h : Records key outcomes e) (hkey : o.isFor key = true) :
    Records key (outcomes ++ [o]) (e.note o) := by
  have hthreshold : breakerThreshold ≤ maxCount := by decide
  -- the strikes of the profiles that did not win
  have hstrikes : ∀ pid, o.winner ≠ some pid →
      ((strike o.winner o.failedProfiles e.profileFails).lookup pid).getD 0 =
        min (failuresOf key pid (outcomes ++ [o])) maxCount := by
    intro pid hne
    rw [failuresOf_self hkey, if_neg hne]
    exact lookup_strike o.winner o.failedProfiles (h.strikes pid) hne
  have htotal : totalFailures key (outcomes ++ [o]) = _ := totalFailures_self hkey
  unfold Entry.note
  cases hwinner : o.winner with
  | some pid =>
    rw [hwinner, Option.isSome_some, if_pos rfl] at htotal
    -- a success clears the host, and the profile that won
    refine ⟨by rw [htotal]; rfl, by rw [htotal]; rfl, fun q => ?_⟩
    show ((AList.erase pid (strike (some pid) o.failedProfiles e.profileFails)).lookup q).getD 0 = _
    by_cases hq : q = pid
    · subst hq
      rw [AList.lookup_erase, failuresOf_self hkey, if_pos hwinner]
      rfl
    · have hne : o.winner ≠ some q := fun heq => hq (Option.some.inj (heq.symm.trans hwinner))
      rw [AList.lookup_erase_ne hq, ← hwinner, hstrikes q hne]
  | none =>
    rw [hwinner, Option.isSome_none, if_neg Bool.false_ne_true] at htotal
    have hstrikes' : ∀ pid, ((strike none o.failedProfiles e.profileFails).lookup pid).getD 0 =
        min (failuresOf key pid (outcomes ++ [o])) maxCount := fun pid => by
      rw [← hwinner]
      exact hstrikes pid (by rw [hwinner]; exact (Option.some_ne_none pid).symm)
    dsimp only
    cases hfailed : o.failedProfiles.isEmpty with
    | true =>
      rw [hfailed, if_pos rfl] at htotal
      rw [if_pos rfl]
      exact ⟨by rw [htotal, h.failures], by rw [htotal, h.untilAt], hstrikes'⟩
    | false =>
      rw [hfailed, if_neg Bool.false_ne_true] at htotal
      rw [if_neg Bool.false_ne_true]
      -- a failure is counted, up to the largest count
      have hcount : saturatingSucc e.consecutiveFailures =
          min ((totalFailures key outcomes).length + 1) maxCount := by
        rw [saturatingSucc, h.failures]
        omega
      refine ⟨?_, ?_, hstrikes'⟩
      · rw [htotal, List.length_append, List.length_singleton]
        exact hcount
      · rw [htotal, List.length_append, List.length_singleton]
        show (if breakerThreshold ≤ saturatingSucc e.consecutiveFailures then
          some (o.tripAt + breakerCooldown) else e.untilAt) = _
        rw [hcount, List.getLast?_append_of_ne_nil _ (List.cons_ne_nil _ _)]
        by_cases htrip : breakerThreshold ≤ (totalFailures key outcomes).length + 1
        · rw [if_pos (by omega), if_pos htrip]
          rfl
        · rw [if_neg (by omega), if_neg htrip, h.untilAt, if_neg (by omega)]

theorem eq_new_of_isClear (h : e.isClear = true) : e = Entry.new := by
  obtain ⟨failures, untilAt, fails⟩ := e
  simp only [Entry.isClear, Bool.and_eq_true, decide_eq_true_eq, Option.isNone_iff_eq_none,
    List.isEmpty_iff] at h
  obtain ⟨⟨hfailures, huntil⟩, hfails⟩ := h
  rw [Entry.new, hfailures, huntil]
  congr 1
  exact AList.ext hfails

end

/-! ## Runs -/

/-- The entry of a key; a key without one has nothing counted. -/
def entryOf (m : BreakerMap) (key : List Char) : Entry := (m.lookup key).getD .new

/-- Noting the outcome drops the entry of the key to make room. -/
def Evicts (m : BreakerMap) (o : Outcome) (key : List Char) : Prop :=
  ¬ (o.failedProfiles.isEmpty ∧ o.winner.isNone) ∧ key ∈ m ∧
    key ∉ evictIfAtCap o.choice o.evictAt m (breakerKey o.host)

/-- The entry of the key is never dropped to make room. -/
def Kept (key : List Char) (outcomes : List Outcome) : Prop :=
  ∀ before o after, outcomes = before ++ o :: after → ¬ Evicts (run before) o key

section

variable {m : BreakerMap} {key : List Char} {outcomes : List Outcome} {o : Outcome}

theorem Kept.concat (h : Kept key (outcomes ++ [o])) :
    Kept key outcomes ∧ ¬ Evicts (run outcomes) o key := by
  constructor
  · rintro before b after rfl
    exact h before b (after ++ [o]) (by rw [List.append_assoc, List.cons_append])
  · exact h outcomes o [] rfl

theorem entryOf_self (hkey : o.isFor key = true) :
    entryOf (localBypassNoteDialOutcome m o) key = (entryOf m key).note o := by
  have hkey' : breakerKey o.host = key := of_decide_eq_true hkey
  unfold localBypassNoteDialOutcome
  rw [hkey']
  dsimp only
  rw [lookup_evictIfAtCap_self]
  split_ifs with hnothing hclear
  · -- nothing is noted
    obtain ⟨hfailed, hwinner⟩ := hnothing
    rw [Entry.note, Option.isNone_iff_eq_none.mp hwinner, List.isEmpty_iff.mp hfailed]
    rfl
  · rw [entryOf, AList.lookup_erase]
    exact (eq_new_of_isClear hclear).symm
  · rw [entryOf, AList.lookup_insert]
    rfl

theorem entryOf_other (hkey : o.isFor key = false) (hkept : ¬ Evicts m o key) :
    entryOf (localBypassNoteDialOutcome m o) key = entryOf m key := by
  have hne : key ≠ breakerKey o.host := fun heq => of_decide_eq_false hkey heq.symm
  unfold localBypassNoteDialOutcome
  by_cases hnothing : o.failedProfiles.isEmpty = true ∧ o.winner.isNone = true
  · rw [if_pos hnothing]
  · have hevict : (evictIfAtCap o.choice o.evictAt m (breakerKey o.host)).lookup key =
        m.lookup key := by
      by_cases hleft : key ∈ evictIfAtCap o.choice o.evictAt m (breakerKey o.host)
      · exact lookup_evictIfAtCap hleft
      · have hnot : key ∉ m := fun hmem => hkept ⟨hnothing, hmem, hleft⟩
        rw [AList.lookup_eq_none.mpr hleft, AList.lookup_eq_none.mpr hnot]
    rw [if_neg hnothing]
    dsimp only
    split_ifs
    · rw [entryOf, AList.lookup_erase_ne hne, AList.lookup_insert_ne hne, hevict, entryOf]
    · rw [entryOf, AList.lookup_insert_ne hne, hevict, entryOf]

/-- As long as it is kept, the entry has counted all outcomes. -/
theorem records_run (h : Kept key outcomes) :
    Records key outcomes (entryOf (run outcomes) key) := by
  induction outcomes using List.reverseRecOn with
  | nil => exact records_new
  | append_singleton outcomes o ih =>
    obtain ⟨hkept, hstep⟩ := h.concat
    rw [run_concat]
    cases hkey : o.isFor key with
    | true =>
      rw [entryOf_self hkey]
      exact (ih hkept).note hkey
    | false =>
      rw [entryOf_other hkey hstep]
      exact (ih hkept).other hkey

theorem length_run (outcomes : List Outcome) :
    (run outcomes).entries.length ≤ breakerMaxEntries := by
  induction outcomes using List.reverseRecOn with
  | nil => exact Nat.zero_le _
  | append_singleton outcomes o ih =>
    rw [run_concat]
    exact length_noteDialOutcome ih o

end

theorem tripped_iff (m : BreakerMap) (host : List Char) (now : Nat) :
    localBypassBreakerTripped m host now = true ↔
      ∃ t, (entryOf m (breakerKey host)).untilAt = some t ∧ now < t := by
  unfold localBypassBreakerTripped entryOf
  cases m.lookup (breakerKey host) with
  | none => simp [Entry.new]
  | some e =>
    rw [Option.getD_some]
    cases hu : e.untilAt with
    | none => simp [hu]
    | some u => simp [hu]

/-! ## The profiles in rotation -/

theorem availableProfileIds_sublist (fails : Fails) (threshold floor : Nat) :
    (availableProfileIds fails threshold floor).Sublist
      ((profiles.filter isFragmentingProfile).map Profile.id) := by
  unfold availableProfileIds
  dsimp only
  split_ifs
  · exact List.Sublist.refl _
  · exact List.filter_sublist

theorem availableProfileIds_ne_nil (fails : Fails) (threshold : Nat) {floor : Nat}
    (h : 0 < floor) : availableProfileIds fails threshold floor ≠ [] := by
  unfold availableProfileIds
  dsimp only
  split_ifs with hfew
  · decide
  · intro hnil
    rw [hnil, List.length_nil] at hfew
    exact hfew h

/-- The number of strikes of a profile. -/
def strikeCount (m : BreakerMap) (host : List Char) (pid : String) : Nat :=
  ((entryOf m (breakerKey host)).profileFails.lookup pid).getD 0

/-- **The bookkeeping of the breaker**, after every sequence of outcomes. The map is bounded; a trip
that has not run out is dropped only when there is nothing else; as long as the entry of a host is
kept, it is given up for the cooldown after its third total failure in a row and after each
further one, and its strikes are counted up to the largest `u32`; and there are always profiles in
rotation, which all fragment. -/
theorem breaker_bookkeeping (outcomes : List Outcome) :
    (run outcomes).entries.length ≤ breakerMaxEntries ∧
    (∀ o key e t, (run outcomes).lookup key = some e → e.untilAt = some t → o.evictAt < t →
      Evicts (run outcomes) o key →
        ∀ j f, (run outcomes).lookup j = some f → ∃ u, f.untilAt = some u ∧ o.evictAt < u) ∧
    (∀ host, Kept (breakerKey host) outcomes →
      (∀ now, localBypassBreakerTripped (run outcomes) host now = true ↔
        breakerThreshold ≤ (totalFailures (breakerKey host) outcomes).length ∧
          ∃ last ∈ (totalFailures (breakerKey host) outcomes).getLast?,
            now - last.tripAt < breakerCooldown) ∧
      ∀ pid, strikeCount (run outcomes) host pid =
        min (failuresOf (breakerKey host) pid outcomes) maxCount) ∧
    ∀ host, localBypassAvailableProfileIds (run outcomes) host ≠ [] ∧
      ∀ p ∈ profiles, isFragmentingProfile p = false →
        p.id ∉ localBypassAvailableProfileIds (run outcomes) host := by
  refine ⟨length_run outcomes, ?_, ?_, ?_⟩
  · intro o key e t he ht hnow hevicts j f hf
    exact all_tripped_of_evicted (length_run outcomes) he ht hnow hevicts.2.2 hf
  · intro host hkept
    have hrecords := records_run hkept
    refine ⟨fun now => ?_, hrecords.strikes⟩
    have hcooldown : 0 < breakerCooldown := by decide
    rw [tripped_iff, hrecords.untilAt]
    by_cases hmany : breakerThreshold ≤ (totalFailures (breakerKey host) outcomes).length
    · rw [if_pos hmany]
      cases (totalFailures (breakerKey host) outcomes).getLast? with
      | none => simp
      | some last =>
        simp only [Option.map_some, Option.some.injEq, Option.mem_def, hmany, true_and,
          exists_eq_left']
        omega
    · rw [if_neg hmany]
      simp [hmany]
  · intro host
    refine ⟨availableProfileIds_ne_nil _ _ (by decide), fun p hp hnot hmem => ?_⟩
    have hpool := (availableProfileIds_sublist _ _ _).subset hmem
    have hfree : ∀ p ∈ profiles, isFragmentingProfile p = false →
        p.id ∉ (profiles.filter isFragmentingProfile).map Profile.id := by decide
    exact hfree p hp hnot hpool

/-- A dial of the host `a` that has lost. -/
def lostDial : Outcome := ⟨['a'], ["p05"], none, 0, 0, 0⟩

theorem failuresOf_replicate (n : Nat) :
    failuresOf ['a'] "p05" (List.replicate n lostDial) = n := by
  induction n with
  | zero =>
    rw [List.replicate_zero, failuresOf, since, List.rtakeWhile_nil]
    rfl
  | succ n ih =>
    rw [List.replicate_succ', failuresOf_self (by decide), ih, if_neg (by decide)]
    rfl

/-- A host that alone is dialed is kept. -/
theorem kept_replicate (n : Nat) : Kept ['a'] (List.replicate n lostDial) := by
  rintro before o after hsplit ⟨-, hmem, hnot⟩
  have ho : o = lostDial :=
    List.eq_of_mem_replicate (hsplit ▸ List.mem_append_right before List.mem_cons_self)
  have hkey : breakerKey o.host = ['a'] := by
    rw [ho]
    decide
  rw [hkey, evictIfAtCap, if_pos (Or.inr hmem)] at hnot
  exact hnot hmem

/-- After `2 ^ 32` lost dials, one less is counted. -/
theorem strikes_saturate :
    Kept ['a'] (List.replicate (2 ^ 32) lostDial) ∧ breakerKey ['a'] = ['a'] ∧
      failuresOf ['a'] "p05" (List.replicate (2 ^ 32) lostDial) = 2 ^ 32 ∧
      strikeCount (run (List.replicate (2 ^ 32) lostDial)) ['a'] "p05" = 2 ^ 32 - 1 := by
  have hkey : breakerKey ['a'] = ['a'] := by decide
  refine ⟨kept_replicate _, hkey, failuresOf_replicate _, ?_⟩
  have hstrikes := (records_run (kept_replicate (2 ^ 32))).strikes "p05"
  rw [failuresOf_replicate] at hstrikes
  rw [strikeCount, hkey, hstrikes]
  decide

end Rahgozar.Proxy.Breaker
