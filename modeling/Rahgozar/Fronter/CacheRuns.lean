import Rahgozar.Fronter.Cache
import Rahgozar.Lib.Run

set_option autoImplicit false

/-! # The response cache over whole runs

The map, the queue of its keys and the total size are changed by every `put`, and by a `get` that
meets an expired entry. The lock makes a step of each call; the clock is read before the lock is
taken, so the instants of the calls are in no order. A run records the puts that were accepted.
-/

namespace Rahgozar.Fronter.ResponseCache

/-- The length of a stored body. -/
def bodyLen (e : CachedResponse) : Nat := e.answer.bytes.length

/-! ## Runs -/

/-- A put that has stored its body. -/
structure Put where
  key : String
  answer : Answer
  ttl : Nat
  now : Nat

/-- The cache, and the accepted puts, the last one first. -/
structure CacheRun where
  cache : ResponseCache
  puts : List Put

inductive Event where
  | get (key : String) (now : Nat)
  | put (key : String) (a : Answer) (ttl now : Nat)

/-- A body of this size is stored. -/
def Accepts (c : ResponseCache) (a : Answer) : Prop :=
  a.bytes.length ≠ 0 ∧ a.bytes.length ≤ c.maxBytes / maxEntryFraction

instance decidableAccepts (c : ResponseCache) (a : Answer) : Decidable (c.Accepts a) :=
  inferInstanceAs (Decidable (_ ∧ _))

namespace CacheRun

def start (maxBytes : Nat) : CacheRun := ⟨.empty maxBytes, []⟩

/-- `limit` is the end of the clock: `Instant::now() + ttl` panics from there on, in front of the
lock. -/
def step (limit : Nat) (s : CacheRun) : Event → Option CacheRun
  | .get key now => some { s with cache := (s.cache.get key now).2 }
  | .put key a ttl now =>
      if s.cache.Accepts a then
        if limit ≤ now + ttl then some s
        else some ⟨s.cache.put key a ttl now, ⟨key, a, ttl, now⟩ :: s.puts⟩
      else some { s with cache := s.cache.put key a ttl now }

/-- The last accepted put of a key. -/
def lastPut (s : CacheRun) (key : String) : Option Put := s.puts.find? fun p => p.key = key

end CacheRun

/-- The keys of these puts (the last one first) in the order of the last put of each. -/
def insertionOrder : List Put → List String
  | [] => []
  | p :: puts => (insertionOrder puts).filter (· ≠ p.key) ++ [p.key]

/-! ## What is to hold -/

/-- The queue holds the keys of the map, without repetitions, and the size is the total of the
bodies. -/
structure Coupled (c : ResponseCache) (order : List String) : Prop where
  nodup : order.Nodup
  keys : ∀ k, k ∈ order ↔ k ∈ c.entries
  size : c.size = c.entries.weight bodyLen

/-- The invariant of the representation. -/
structure Sound (s : CacheRun) : Prop where
  coupled : s.cache.Coupled s.cache.order
  bounded : s.cache.size ≤ s.cache.maxBytes
  bodies : ∀ k e, s.cache.entries.lookup k = some e →
    1 ≤ bodyLen e ∧ bodyLen e ≤ s.cache.maxBytes / maxEntryFraction
  order : s.cache.order.Sublist (insertionOrder s.puts)
  last : ∀ k e, s.cache.entries.lookup k = some e →
    ∃ p, s.lastPut k = some p ∧ p.answer = e.answer ∧ p.now + p.ttl = e.expires

/-- A body that is found is the one of the last accepted put of its key, whose time has not run
out. -/
def Fresh (s : CacheRun) : Prop :=
  ∀ key now a, (s.cache.get key now).1 = some a →
    ∃ p, s.lastPut key = some p ∧ p.answer = a ∧ now < p.now + p.ttl

/-- Besides the key it is for, a step takes the oldest keys out of the queue, and a put that stores
its body puts its key at the end. -/
def DropsOldest (limit : Nat) (s : CacheRun) (e : Event) : Prop :=
  ∀ t, s.step limit e = some t →
    match e with
    | .get key _ => t.cache = s.cache ∨ t.cache.order = s.cache.order.filter (· ≠ key)
    | .put key a ttl now =>
        if s.cache.Accepts a ∧ now + ttl < limit then
          ∃ n, t.cache.order = (s.cache.order.filter (· ≠ key)).drop n ++ [key]
        else t.cache = s.cache

/-! ## Removing -/

variable {c : ResponseCache} {order : List String} {key : String}

/-- An entry and its size are taken off together. -/
theorem removeEntry_size (h : c.size = c.entries.weight bodyLen) :
    (c.removeEntry key).size = (c.removeEntry key).entries.weight bodyLen := by
  show c.size - ((c.entries.lookup key).map bodyLen).getD 0 = (c.entries.erase key).weight bodyLen
  cases hlookup : c.entries.lookup key with
  | none =>
      have hnot : key ∉ c.entries := AList.lookup_eq_none.mp hlookup
      rw [AList.erase_of_notMem hnot, h]
      rfl
  | some e =>
      rw [h, AList.weight_erase hlookup]
      exact Nat.add_sub_cancel_left ..

theorem Coupled.removeEntry (h : c.Coupled order) (key : String) :
    (c.removeEntry key).Coupled (order.filter (· ≠ key)) := by
  refine ⟨h.nodup.filter _, fun k => ?_, removeEntry_size h.size⟩
  show k ∈ order.filter (· ≠ key) ↔ k ∈ c.entries.erase key
  rw [AList.mem_erase, List.mem_filter, h.keys, decide_eq_true_iff]
  exact and_comm

theorem Coupled.pop (h : c.Coupled (key :: order)) : (c.removeEntry key).Coupled order := by
  have hfilter : (key :: order).filter (· ≠ key) = order := by
    have hnot : key ∉ order := (List.nodup_cons.mp h.nodup).1
    rw [List.filter_cons, if_neg (by simp)]
    exact List.filter_eq_self.mpr fun k hk => decide_eq_true fun heq => hnot (heq ▸ hk)
  have hremoved := h.removeEntry key
  rwa [hfilter] at hremoved

theorem size_removeEntry_le : (c.removeEntry key).size ≤ c.size := Nat.sub_le _ _

/-! ## The eviction loop -/

/-- The loop drops the oldest keys, and makes room if it leaves any. -/
theorem evict_spec (need : Nat) (h : c.Coupled order) :
    ∃ n, (evict need order c).order = order.drop n ∧ (evict need order c).Coupled (order.drop n) ∧
      (evict need order c).maxBytes = c.maxBytes ∧
      ((evict need order c).size + need ≤ c.maxBytes ∨ (evict need order c).size = 0) := by
  induction order generalizing c with
  | nil =>
      have hempty : c.entries.entries = [] := by
        refine List.eq_nil_iff_forall_not_mem.mpr fun e he => ?_
        have hmem : e.1 ∈ c.entries := List.mem_keys_of_mem he
        exact List.not_mem_nil ((h.keys e.1).mpr hmem)
      have hzero : c.size = 0 := by
        rw [h.size, AList.weight, hempty]
        rfl
      exact ⟨0, rfl, ⟨h.nodup, h.keys, h.size⟩, rfl, Or.inr hzero⟩
  | cons key keys ih =>
      unfold evict
      split
      · obtain ⟨n, horder, hcoupled, hmax, hroom⟩ := ih h.pop
        exact ⟨n + 1, horder, hcoupled, hmax, hroom⟩
      · rename_i hfits
        exact ⟨0, rfl, ⟨h.nodup, h.keys, h.size⟩, rfl, Or.inl (not_lt.mp hfits)⟩

/-! ## One call -/

theorem Coupled.store (h : c.Coupled order) (hkey : key ∉ order) (a : Answer) (expires : Nat) :
    (c.store key a expires).Coupled (order ++ [key]) := by
  have hnot : key ∉ c.entries := fun hmem => hkey ((h.keys key).mpr hmem)
  refine ⟨?_, fun k => ?_, ?_⟩
  · refine List.nodup_append.mpr ⟨h.nodup, List.nodup_singleton key, fun x hx y hy => ?_⟩
    rw [List.mem_singleton.mp hy]
    exact fun heq => hkey (heq ▸ hx)
  · show k ∈ order ++ [key] ↔ k ∈ c.entries.insert key ⟨a, expires⟩
    rw [AList.mem_insert, List.mem_append, List.mem_singleton, h.keys]
    exact or_comm
  · show c.size + a.bytes.length = (c.entries.insert key ⟨a, expires⟩).weight bodyLen
    rw [AList.weight_insert, AList.erase_of_notMem hnot, h.size]
    exact Nat.add_comm ..

/-- The cache with the old entry of the key taken out. -/
theorem coupled_without (h : c.Coupled c.order) (key : String) :
    (if key ∈ c.entries then c.remove key else c).Coupled (c.order.filter (· ≠ key)) ∧
      (if key ∈ c.entries then c.remove key else c).order = c.order.filter (· ≠ key) ∧
      (if key ∈ c.entries then c.remove key else c).maxBytes = c.maxBytes := by
  split
  · exact ⟨⟨(h.removeEntry key).nodup, (h.removeEntry key).keys, (h.removeEntry key).size⟩,
      rfl, rfl⟩
  · rename_i hnot
    have hfilter : c.order.filter (· ≠ key) = c.order := by
      refine List.filter_eq_self.mpr fun k hk => decide_eq_true fun heq => hnot ?_
      exact (h.keys key).mp (heq ▸ hk)
    rw [hfilter]
    exact ⟨h, rfl, rfl⟩

theorem put_of_accepts {a : Answer} {ttl now : Nat} (ha : c.Accepts a) :
    c.put key a ttl now =
      (evict a.bytes.length (if key ∈ c.entries then c.remove key else c).order
        (if key ∈ c.entries then c.remove key else c)).store key a (now + ttl) := by
  unfold put
  rw [if_neg (not_or.mpr ⟨ha.1, not_lt.mpr ha.2⟩)]

theorem put_of_not_accepts {a : Answer} {ttl now : Nat} (ha : ¬ c.Accepts a) :
    c.put key a ttl now = c := by
  unfold put
  rw [if_pos]
  by_contra hnot
  exact ha ⟨(not_or.mp hnot).1, not_lt.mp (not_or.mp hnot).2⟩

/-- An accepted put drops oldest keys until its body fits, and a body of at most a quarter of the
capacity fits into an empty cache. -/
theorem put_spec {a : Answer} (h : c.Coupled c.order) (ha : c.Accepts a) (key : String)
    (ttl now : Nat) :
    ∃ n, (c.put key a ttl now).order = (c.order.filter (· ≠ key)).drop n ++ [key] ∧
      (c.put key a ttl now).Coupled (c.put key a ttl now).order ∧
      (c.put key a ttl now).maxBytes = c.maxBytes ∧ (c.put key a ttl now).size ≤ c.maxBytes := by
  obtain ⟨hwithout, horder, hmax⟩ := coupled_without h key
  rw [put_of_accepts ha, horder]
  obtain ⟨n, hn, hcoupled, hmax', hroom⟩ := evict_spec a.bytes.length hwithout
  have hkey : key ∉ (c.order.filter (· ≠ key)).drop n := by
    intro hmem
    have hfound := List.mem_of_mem_drop hmem
    rw [List.mem_filter, decide_eq_true_iff] at hfound
    exact hfound.2 rfl
  have hstored := hcoupled.store hkey a (now + ttl)
  refine ⟨n, congrArg (· ++ [key]) hn, ?_, hmax'.trans hmax, ?_⟩
  · show Coupled _ (_ ++ [key])
    rw [hn]
    exact hstored
  · show (evict a.bytes.length (c.order.filter (· ≠ key)) _).size + a.bytes.length ≤ c.maxBytes
    obtain hfits | hempty := hroom
    · rwa [hmax] at hfits
    · rw [hempty, Nat.zero_add]
      exact ha.2.trans (Nat.div_le_self ..)

theorem lookup_put_self {a : Answer} {ttl now : Nat} (ha : c.Accepts a) :
    (c.put key a ttl now).entries.lookup key = some ⟨a, now + ttl⟩ := by
  rw [put_of_accepts ha]
  exact AList.lookup_insert _

/-- What a `get` does to the cache. -/
theorem get_spec (c : ResponseCache) (key : String) (now : Nat) :
    (c.get key now).2 = c ∨ (c.get key now).2 = c.remove key := by
  unfold get
  split
  · exact Or.inl rfl
  · split
    · exact Or.inl rfl
    · exact Or.inr rfl

/-- What it returns has not expired. -/
theorem get_unexpired {now : Nat} {a : Answer} (h : (c.get key now).1 = some a) :
    ∃ e, c.entries.lookup key = some e ∧ e.answer = a ∧ now < e.expires := by
  unfold get at h
  split at h
  · cases h
  · rename_i e he
    split at h
    · rename_i hnow
      cases h
      exact ⟨e, he, rfl, hnow⟩
    · cases h

/-! ## One step -/

theorem lastPut_cons (c : ResponseCache) (p : Put) (puts : List Put) (k : String) :
    (CacheRun.mk c (p :: puts)).lastPut k =
      if p.key = k then some p else puts.find? fun p => p.key = k := by
  show (p :: puts).find? (fun p => decide (p.key = k)) = _
  rw [List.find?_cons]
  by_cases hk : p.key = k
  · simp [hk]
  · simp [hk]

theorem Sound.get {s : CacheRun} (h : Sound s) (key : String) (now : Nat) :
    Sound { s with cache := (s.cache.get key now).2 } := by
  obtain heq | heq := get_spec s.cache key now
  · rw [heq]
    exact h
  · rw [heq]
    have hcoupled := h.coupled.removeEntry key
    refine ⟨⟨hcoupled.nodup, hcoupled.keys, hcoupled.size⟩, ?_, ?_, ?_, ?_⟩
    · exact size_removeEntry_le.trans h.bounded
    · exact fun k e hk => h.bodies k e (lookup_remove hk)
    · exact List.filter_sublist.trans h.order
    · exact fun k e hk => h.last k e (lookup_remove hk)

theorem Sound.put {s : CacheRun} (h : Sound s) {a : Answer} (ha : s.cache.Accepts a)
    (key : String) (ttl now : Nat) :
    Sound ⟨s.cache.put key a ttl now, ⟨key, a, ttl, now⟩ :: s.puts⟩ := by
  obtain ⟨n, horder, hcoupled, hmax, hsize⟩ := put_spec h.coupled ha key ttl now
  -- The entry of the key is the new one, and the others are old.
  have hold : ∀ k e, k ≠ key → (s.cache.put key a ttl now).entries.lookup k = some e →
      s.cache.entries.lookup k = some e := by
    intro k e hk he
    obtain hold | ⟨heq, -⟩ := lookup_put he
    · exact hold
    · exact absurd heq hk
  refine ⟨hcoupled, hmax ▸ hsize, fun k e he => ?_, ?_, fun k e he => ?_⟩
  · show 1 ≤ bodyLen e ∧ bodyLen e ≤ (s.cache.put key a ttl now).maxBytes / maxEntryFraction
    rw [hmax]
    by_cases hk : k = key
    · subst hk
      cases (lookup_put_self ha).symm.trans he
      exact ⟨Nat.pos_of_ne_zero ha.1, ha.2⟩
    · exact h.bodies k e (hold k e hk he)
  · show (s.cache.put key a ttl now).order.Sublist
      ((insertionOrder s.puts).filter (· ≠ key) ++ [key])
    rw [horder]
    exact ((List.drop_sublist ..).trans (h.order.filter _)).append (List.Sublist.refl _)
  · by_cases hk : k = key
    · subst hk
      cases (lookup_put_self ha).symm.trans he
      exact ⟨_, (lastPut_cons ..).trans (if_pos rfl), rfl, rfl⟩
    · obtain ⟨p, hp, hanswer, hexpires⟩ := h.last k e (hold k e hk he)
      exact ⟨p, (lastPut_cons ..).trans ((if_neg (Ne.symm hk)).trans hp), hanswer, hexpires⟩

/-- Everything a step can do. -/
theorem step_cases {limit : Nat} {s t : CacheRun} {e : Event} (h : s.step limit e = some t) :
    (∃ key now, e = .get key now ∧ t = { s with cache := (s.cache.get key now).2 }) ∨
    (∃ key a ttl now, e = .put key a ttl now ∧ (s.cache.Accepts a ∧ now + ttl < limit) ∧
      t = ⟨s.cache.put key a ttl now, ⟨key, a, ttl, now⟩ :: s.puts⟩) ∨
    ∃ key a ttl now, e = .put key a ttl now ∧ ¬ (s.cache.Accepts a ∧ now + ttl < limit) ∧
      t = s := by
  cases e with
  | get key now =>
      cases h
      exact Or.inl ⟨key, now, rfl, rfl⟩
  | put key a ttl now =>
      right
      by_cases ha : s.cache.Accepts a
      · rw [CacheRun.step, if_pos ha] at h
        by_cases hnow : limit ≤ now + ttl
        · rw [if_pos hnow] at h
          cases h
          exact Or.inr ⟨key, a, ttl, now, rfl, fun hin => not_lt.mpr hnow hin.2, rfl⟩
        · rw [if_neg hnow] at h
          cases h
          exact Or.inl ⟨key, a, ttl, now, rfl, ⟨ha, not_le.mp hnow⟩, rfl⟩
      · rw [CacheRun.step, if_neg ha, put_of_not_accepts ha] at h
        cases h
        exact Or.inr ⟨key, a, ttl, now, rfl, fun hin => ha hin.1, rfl⟩

theorem Sound.step {limit : Nat} {s t : CacheRun} {e : Event} (h : Sound s)
    (hstep : s.step limit e = some t) : Sound t := by
  obtain ⟨key, now, rfl, rfl⟩ | ⟨key, a, ttl, now, rfl, ha, rfl⟩ | ⟨-, -, -, -, -, -, rfl⟩ :=
    step_cases hstep
  · exact h.get key now
  · exact h.put ha.1 key ttl now
  · exact h

theorem Sound.fresh {s : CacheRun} (h : Sound s) : Fresh s := by
  intro key now a hget
  obtain ⟨e, he, hanswer, hnow⟩ := get_unexpired hget
  obtain ⟨p, hp, hbody, hexpires⟩ := h.last key e he
  exact ⟨p, hp, hbody.trans hanswer, hexpires ▸ hnow⟩

theorem Sound.dropsOldest {s : CacheRun} (h : Sound s) (limit : Nat) (e : Event) :
    DropsOldest limit s e := by
  intro t hstep
  obtain ⟨key, now, rfl, rfl⟩ | ⟨key, a, ttl, now, rfl, ha, rfl⟩ |
    ⟨key, a, ttl, now, rfl, ha, rfl⟩ := step_cases hstep
  · show (s.cache.get key now).2 = s.cache ∨ (s.cache.get key now).2.order = _
    exact (get_spec s.cache key now).imp_right (congrArg ResponseCache.order)
  · show if s.cache.Accepts a ∧ now + ttl < limit then _ else _
    rw [if_pos ha]
    obtain ⟨n, horder, -⟩ := put_spec h.coupled ha.1 key ttl now
    exact ⟨n, horder⟩
  · show if t.cache.Accepts a ∧ now + ttl < limit then _ else _
    rw [if_neg ha]

/-! ## Whole runs -/

theorem sound_start (maxBytes : Nat) : Sound (CacheRun.start maxBytes) where
  coupled := ⟨List.nodup_nil, fun _ => ⟨fun h => absurd h List.not_mem_nil,
    fun h => absurd h (AList.notMem_empty _)⟩, rfl⟩
  bounded := Nat.zero_le _
  bodies := fun k e he => by
    rw [show (CacheRun.start maxBytes).cache.entries = ∅ from rfl, AList.lookup_empty] at he
    cases he
  order := List.Sublist.refl _
  last := fun k e he => by
    rw [show (CacheRun.start maxBytes).cache.entries = ∅ from rfl, AList.lookup_empty] at he
    cases he

/-- **The cache in every run.** The three parts stay coupled and within their bounds, a body that
is found is the last one that was stored and has time left, and only the oldest keys are evicted. -/
theorem cacheRun_sound (maxBytes limit : Nat) (events : List Event) :
    StepRun.AllStates (CacheRun.step limit) (fun s => Sound s ∧ Fresh s)
        (CacheRun.start maxBytes) events ∧
      StepRun.AllSteps (CacheRun.step limit) (DropsOldest limit) (CacheRun.start maxBytes)
        events := by
  constructor
  · exact StepRun.allStates_of_inv (fun _ _ _ h hstep => h.step hstep)
      (fun _ h => ⟨h, h.fresh⟩) (sound_start maxBytes) events
  · exact StepRun.allSteps_imp (C := fun _ _ => True) (fun _ _ _ h hstep => h.step hstep)
      (fun _ _ h _ => h.dropsOldest limit _) (sound_start maxBytes)
      (StepRun.allSteps_of_forall (fun _ _ => trivial) _ events)

end Rahgozar.Fronter.ResponseCache
