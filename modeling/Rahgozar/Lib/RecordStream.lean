import Mathlib.Tactic

set_option autoImplicit false

/-! # Cutting a stream into records, one blocked pass at a time

A stream of symbols is a sequence of records, each ending where its own header says. A
*cutter* finds the first complete record of a buffer. Some records are malformed; a reader
makes one *pass* over its buffer per read, hands on the well-formed records and stops the
pass after the first malformed one, whatever else the buffer already holds.

What such a reader hands on depends on how the stream was cut into reads. The file computes
this dependence: `passes_eq_goods_iff` says which sequences of reads hand on every
well-formed record, and `forall_splits_iff` which streams are read alike by every sequence
of reads of at most `M` symbols.
-/

namespace RecordStream

variable {α γ : Type*}

/-- A recogniser of the first complete record of a buffer: the record (`none` when it is
malformed) and its length. Completeness of a record is decided by the record alone. -/
structure Cutter (α γ : Type*) where
  cut : List α → Option (Option γ × Nat)
  pos : ∀ {b r n}, cut b = some (r, n) → 0 < n
  le : ∀ {b r n}, cut b = some (r, n) → n ≤ b.length
  stable : ∀ {b r n} (x : List α), cut b = some (r, n) → cut (b ++ x) = some (r, n)
  «local» : ∀ {b r n} (x : List α), cut (b ++ x) = some (r, n) → n ≤ b.length →
    cut b = some (r, n)

/-! ## The reader -/

/-- One pass over the buffer: the records handed on and what stays buffered. -/
def drainPass (c : Cutter α γ) : Nat → List α → List γ × List α
  | 0, b => ([], b)
  | fuel + 1, b =>
      match c.cut b with
      | none => ([], b)
      | some (some f, n) =>
          (f :: (drainPass c fuel (b.drop n)).1, (drainPass c fuel (b.drop n)).2)
      | some (none, n) => ([], b.drop n)

/-- One pass per read. -/
def drainReads (c : Cutter α γ) : List α → List (List α) → List γ
  | _, [] => []
  | b, r :: rs =>
      (drainPass c (b ++ r).length (b ++ r)).1
        ++ drainReads c (drainPass c (b ++ r).length (b ++ r)).2 rs

/-! ## The records of a stream -/

/-- The complete records of `t`, each with the offset at which it ends, when `t` starts at
offset `p`. -/
def recordsFrom (c : Cutter α γ) (p : Nat) (t : List α) : List (Option γ × Nat) :=
  match _h : c.cut t with
  | none => []
  | some (r, n) => (r, p + n) :: recordsFrom c (p + n) (t.drop n)
termination_by t.length
decreasing_by
  have h1 := c.pos _h
  have h2 := c.le _h
  rw [List.length_drop]; omega

theorem recordsFrom_none {c : Cutter α γ} {t : List α} (h : c.cut t = none) (p : Nat) :
    recordsFrom c p t = [] := by
  rw [recordsFrom]; split
  · rfl
  · rename_i h'; rw [h] at h'; cases h'

theorem recordsFrom_some {c : Cutter α γ} {t : List α} {r : Option γ} {n : Nat}
    (h : c.cut t = some (r, n)) (p : Nat) :
    recordsFrom c p t = (r, p + n) :: recordsFrom c (p + n) (t.drop n) := by
  rw [recordsFrom]; split
  · rename_i h'; rw [h] at h'; cases h'
  · rename_i h'; rw [h] at h'; cases h'; rfl

/-- The well-formed records of a list of records. -/
def goods (rs : List (Option γ × Nat)) : List γ := rs.filterMap Prod.fst

@[simp] theorem goods_nil : goods ([] : List (Option γ × Nat)) = [] := rfl

@[simp] theorem goods_some (f : γ) (e : Nat) (rs : List (Option γ × Nat)) :
    goods ((some f, e) :: rs) = f :: goods rs := rfl

@[simp] theorem goods_none (e : Nat) (rs : List (Option γ × Nat)) :
    goods ((none, e) :: rs) = goods rs := rfl

/-! ## Passes over records

The reader in terms of records: when the symbols up to the offset `C` have arrived, a pass
hands on records ending by `C`, up to and excluding the first malformed one, which it drops. -/

def pass (C : Nat) : List (Option γ × Nat) → List γ × List (Option γ × Nat)
  | [] => ([], [])
  | (r, e) :: rs =>
      if e ≤ C then
        match r with
        | some f => (f :: (pass C rs).1, (pass C rs).2)
        | none => ([], rs)
      else ([], (r, e) :: rs)

def passes : List Nat → List (Option γ × Nat) → List γ
  | [], _ => []
  | C :: Cs, rs => (pass C rs).1 ++ passes Cs (pass C rs).2

/-- The offsets at which the reads end, the first read starting at offset `p`. -/
def cuts (p : Nat) : List (List α) → List Nat
  | [] => []
  | r :: rs => (p + r.length) :: cuts (p + r.length) rs

theorem drainPass_spec (c : Cutter α γ) (x : List α) :
    ∀ (fuel p : Nat) (b : List α), b.length ≤ fuel →
      ∃ k ≤ b.length, (drainPass c fuel b).2 = b.drop k ∧
        pass (p + b.length) (recordsFrom c p (b ++ x))
          = ((drainPass c fuel b).1, recordsFrom c (p + k) (b.drop k ++ x)) := by
  intro fuel
  induction fuel with
  | zero =>
      intro p b hb
      have hb0 : b = [] := List.length_eq_zero_iff.mp (by omega)
      subst hb0
      refine ⟨0, by simp, rfl, ?_⟩
      cases hc : c.cut ([] ++ x) with
      | none => rw [recordsFrom_none hc]; rw [List.drop_nil, Nat.add_zero, recordsFrom_none hc]; rfl
      | some rn =>
          obtain ⟨r, n⟩ := rn
          have hn := c.pos hc
          rw [recordsFrom_some hc]
          simp only [pass, List.length_nil, Nat.add_zero, drainPass, List.drop_nil]
          rw [if_neg (by omega), recordsFrom_some hc]
  | succ fuel ih =>
      intro p b hb
      cases hc : c.cut b with
      | none =>
          refine ⟨0, by omega, by simp [drainPass, hc], ?_⟩
          have hd : drainPass c (fuel + 1) b = ([], b) := by simp [drainPass, hc]
          rw [hd]
          cases hx : c.cut (b ++ x) with
          | none => rw [recordsFrom_none hx, List.drop_zero, recordsFrom_none hx]; rfl
          | some rn =>
              obtain ⟨r, n⟩ := rn
              -- the record is not complete in `b` alone, so it ends past what has arrived
              have hn : b.length < n := by
                by_contra hle
                have := c.local x hx (by omega)
                rw [hc] at this; cases this
              rw [recordsFrom_some hx]
              simp only [pass, List.drop_zero, Nat.add_zero]
              rw [if_neg (by omega), recordsFrom_some hx]
      | some rn =>
          obtain ⟨r, n⟩ := rn
          have hpos := c.pos hc
          have hle := c.le hc
          have hx := c.stable x hc
          have hdrop : (b ++ x).drop n = b.drop n ++ x := List.drop_append_of_le_length hle
          have hlen : (b.drop n).length = b.length - n := List.length_drop
          cases r with
          | none =>
              refine ⟨n, hle, by simp [drainPass, hc], ?_⟩
              rw [recordsFrom_some hx, hdrop]
              simp only [pass]
              rw [if_pos (by omega)]
              simp [drainPass, hc]
          | some f =>
              obtain ⟨k, hk, hk2, hpass⟩ := ih (p + n) (b.drop n) (by omega)
              refine ⟨n + k, by omega, ?_, ?_⟩
              · simp [drainPass, hc, hk2]
              · rw [recordsFrom_some hx, hdrop]
                -- what has arrived is counted from the end of the record just handed on
                have hend : p + b.length = p + n + (b.drop n).length := by omega
                simp only [pass]
                rw [if_pos (by omega), hend, hpass]
                simp [drainPass, hc, List.drop_drop, Nat.add_assoc]

/-- Where the first malformed record ends. -/
def firstMalformed (rs : List (Option γ × Nat)) : Option Nat :=
  (rs.find? fun r => r.1.isNone).map Prod.snd

/-- A pass stops behind the first malformed record, or where no record is complete. -/
theorem drainPass_left (c : Cutter α γ) {fuel : Nat} (p : Nat) {b : List α}
    (h : b.length ≤ fuel) :
    ∃ k ≤ b.length, (drainPass c fuel b).2 = b.drop k ∧
      (firstMalformed (recordsFrom c p b) = some (p + k) ∨
        firstMalformed (recordsFrom c p b) = none ∧ c.cut (b.drop k) = none) := by
  induction fuel generalizing p b with
  | zero =>
      have hb : b = [] := List.length_eq_zero_iff.mp (Nat.le_zero.mp h)
      subst hb
      have hcut : c.cut [] = none := by
        cases hc : c.cut [] with
        | none => rfl
        | some rn =>
            obtain ⟨r, n⟩ := rn
            exact absurd (c.le hc) (Nat.not_le.mpr (c.pos hc))
      refine ⟨0, Nat.le_refl 0, rfl, Or.inr ⟨?_, hcut⟩⟩
      rw [recordsFrom_none hcut]
      rfl
  | succ fuel ih =>
      rw [drainPass]
      cases hc : c.cut b with
      | none =>
          refine ⟨0, Nat.zero_le _, rfl, Or.inr ⟨?_, hc⟩⟩
          rw [recordsFrom_none hc]
          rfl
      | some rn =>
          obtain ⟨r, n⟩ := rn
          have hpos := c.pos hc
          have hle := c.le hc
          rw [recordsFrom_some hc]
          cases r with
          | none => exact ⟨n, hle, rfl, Or.inl rfl⟩
          | some f =>
              have hfuel : (b.drop n).length ≤ fuel := by
                rw [List.length_drop]
                omega
              obtain ⟨k, hk, hleft, hcase⟩ := ih (p + n) hfuel
              rw [List.length_drop] at hk
              refine ⟨n + k, by omega, ?_, ?_⟩
              · rw [← List.drop_drop]
                exact hleft
              · rw [← List.drop_drop, ← Nat.add_assoc]
                exact hcase

/-- The reader is its passes over the records of the whole stream. -/
theorem drainReads_eq_passes (c : Cutter α γ) (rs : List (List α)) (p : Nat) (b : List α) :
    drainReads c b rs = passes (cuts (p + b.length) rs) (recordsFrom c p (b ++ rs.flatten)) := by
  induction rs generalizing p b with
  | nil => rfl
  | cons r rs ih =>
      obtain ⟨k, hk, hk2, hpass⟩ :=
        drainPass_spec c rs.flatten (b ++ r).length p (b ++ r) (Nat.le_refl _)
      have harr : p + b.length + r.length = p + (b ++ r).length := by
        rw [List.length_append]; omega
      have hrest : p + k + ((b ++ r).drop k).length = p + (b ++ r).length := by
        rw [List.length_drop]; omega
      rw [drainReads, cuts, passes, harr, List.flatten_cons, ← List.append_assoc, hpass, hk2,
        ih (p + k) ((b ++ r).drop k), hrest]

theorem recordsFrom_ends (c : Cutter α γ) (p : Nat) (t : List α) :
    (recordsFrom c p t).Pairwise (fun a b => a.2 < b.2) ∧
      ∀ x ∈ recordsFrom c p t, p < x.2 ∧ x.2 ≤ p + t.length := by
  induction h : t.length using Nat.strongRecOn generalizing p t with
  | _ len ih =>
      cases hc : c.cut t with
      | none => rw [recordsFrom_none hc]; simp
      | some rn =>
          obtain ⟨r, n⟩ := rn
          have hpos := c.pos hc
          have hle := c.le hc
          have hlen : (t.drop n).length = t.length - n := List.length_drop
          obtain ⟨hp, hb⟩ := ih _ (by omega) (p + n) (t.drop n) hlen
          rw [recordsFrom_some hc, List.pairwise_cons]
          refine ⟨⟨fun x hx => (hb x hx).1, hp⟩, ?_⟩
          intro x hx
          rcases List.mem_cons.mp hx with rfl | hx
          · show p < p + n ∧ p + n ≤ p + len
            omega
          · have := hb x hx
            omega

/-! ## Which reads hand on everything

`room e` is the number of passes that can still drop a malformed record ending at `e` and
leave a pass to follow. A malformed record is harmless when nothing well-formed follows it;
otherwise it and every such record after it needs a pass of its own. -/

/-- The malformed records with a well-formed one after them. -/
def blockers : List (Option γ × Nat) → Nat
  | [] => 0
  | (some _, _) :: rs => blockers rs
  | (none, _) :: rs => if (goods rs).isEmpty then 0 else blockers rs + 1

/-- Every blocking record finds at least as many passes as there are blockers from it on. -/
def Covered (room : Nat → Nat) : List (Option γ × Nat) → Prop
  | [] => True
  | (some _, _) :: rs => Covered room rs
  | (none, e) :: rs => (goods rs ≠ [] → blockers rs + 1 ≤ room e) ∧ Covered room rs

theorem covered_of_goods_nil {room : Nat → Nat} {rs : List (Option γ × Nat)}
    (h : goods rs = []) : Covered room rs := by
  induction rs with
  | nil => trivial
  | cons x rs ih =>
      obtain ⟨r, e⟩ := x
      cases r with
      | some f => simp at h
      | none => exact ⟨fun hn => absurd (by simpa using h) hn, ih (by simpa using h)⟩

theorem blockers_cons_none (rs : List (Option γ × Nat)) (e : Nat) :
    blockers ((none, e) :: rs) = if (goods rs).isEmpty then 0 else blockers rs + 1 :=
  rfl

theorem blockers_of_goods_nil {rs : List (Option γ × Nat)} (h : goods rs = []) :
    blockers rs = 0 := by
  induction rs with
  | nil => rfl
  | cons x rs ih =>
      obtain ⟨r, e⟩ := x
      cases r with
      | some f => simp at h
      | none => simp only [goods_none] at h; simp [blockers_cons_none, h]

theorem blockers_none {rs : List (Option γ × Nat)} {e : Nat} (h : goods rs ≠ []) :
    blockers ((none, e) :: rs) = blockers rs + 1 := by
  simp [blockers_cons_none, h]

theorem Covered.mono {room room' : Nat → Nat} {rs : List (Option γ × Nat)}
    (hle : ∀ x ∈ rs, room x.2 ≤ room' x.2) (h : Covered room rs) : Covered room' rs := by
  induction rs with
  | nil => trivial
  | cons x rs ih =>
      obtain ⟨r, e⟩ := x
      have ih' := ih (fun y hy => hle y (List.mem_cons_of_mem _ hy))
      cases r with
      | some f => exact ih' h
      | none =>
          refine ⟨fun hg => le_trans (h.1 hg) (hle (none, e) List.mem_cons_self), ih' h.2⟩

theorem Covered.blockers_le {room : Nat → Nat} {rs : List (Option γ × Nat)} {N : Nat}
    (hN : ∀ e, room e ≤ N) (h : Covered room rs) : blockers rs ≤ N := by
  induction rs with
  | nil => exact Nat.zero_le _
  | cons x rs ih =>
      obtain ⟨r, e⟩ := x
      cases r with
      | some f => exact ih h
      | none =>
          by_cases hg : goods rs = []
          · simp [blockers_cons_none, hg]
          · rw [blockers_none hg]
            exact le_trans (h.1 hg) (hN e)

/-- How many of the read ends `Cs`, the last one excepted, are at `e` or later. -/
def roomOf (Cs : List Nat) (e : Nat) : Nat := (Cs.dropLast.filter (fun C => e ≤ C)).length

theorem roomOf_cons (C C' : Nat) (Cs : List Nat) (e : Nat) :
    roomOf (C :: C' :: Cs) e = (if e ≤ C then 1 else 0) + roomOf (C' :: Cs) e := by
  rw [roomOf, roomOf, List.dropLast_cons_of_ne_nil (by simp), List.filter_cons]
  by_cases h : e ≤ C
  · simp [h, Nat.add_comm]
  · simp [h]

theorem roomOf_le (Cs : List Nat) (e : Nat) : roomOf Cs e ≤ Cs.length - 1 := by
  rw [roomOf, ← List.length_dropLast]
  exact List.length_filter_le _ _

theorem roomOf_all {Cs : List Nat} {e : Nat} (h : ∀ C ∈ Cs, e ≤ C) :
    roomOf Cs e = Cs.length - 1 := by
  rw [roomOf, ← List.length_dropLast, List.filter_eq_self.mpr]
  intro C hC
  simpa using h C (List.mem_of_mem_dropLast hC)

/-- Dropping the first read end leaves the coverage of what its pass leaves behind. -/
private theorem covered_drop_first {C : Nat} {D : List Nat} {rs : List (Option γ × Nat)}
    (hD : ∀ x ∈ D, C ≤ x) (hb : blockers rs ≤ D.length - 1)
    (h : Covered (fun e => (if e ≤ C then 1 else 0) + roomOf D e) rs) :
    Covered (roomOf D) rs := by
  induction rs with
  | nil => trivial
  | cons x rs ih =>
      obtain ⟨r, e⟩ := x
      cases r with
      | some f => exact ih hb h
      | none =>
          by_cases hg : goods rs = []
          · exact ⟨fun hn => absurd hg hn, covered_of_goods_nil hg⟩
          · rw [blockers_none hg] at hb
            refine ⟨fun _ => ?_, ih (by omega) h.2⟩
            by_cases he : e ≤ C
            · rw [roomOf_all (fun x hx => le_trans he (hD x hx))]
              exact hb
            · simpa [he] using h.1 hg

/-- The pass of a read changes nothing about coverage: what it drops it pays for. -/
private theorem covered_pass_iff {C : Nat} {D : List Nat} {rs : List (Option γ × Nat)}
    (hD : ∀ x ∈ D, C ≤ x) (hs : rs.Pairwise (fun a b => a.2 < b.2)) :
    Covered (fun e => (if e ≤ C then 1 else 0) + roomOf D e) rs
      ↔ Covered (roomOf D) (pass C rs).2 := by
  induction rs with
  | nil => simp [pass, Covered]
  | cons x rs ih =>
      obtain ⟨r, e⟩ := x
      obtain ⟨hlt, hs'⟩ := List.pairwise_cons.mp hs
      by_cases he : e ≤ C
      · cases r with
        | some f => simpa [pass, he, Covered] using ih hs'
        | none =>
            simp only [pass, he, if_true]
            -- the record has arrived, so every later read end counts for it
            have hall : roomOf D e = D.length - 1 :=
              roomOf_all (fun x hx => le_trans he (hD x hx))
            constructor
            · rintro ⟨h1, h2⟩
              by_cases hg : goods rs = []
              · exact covered_of_goods_nil hg
              · have := h1 hg
                simp only [he, if_true, hall] at this
                exact covered_drop_first hD (by omega) h2
            · intro h
              refine ⟨fun _ => ?_, h.mono (fun x _ => Nat.le_add_left _ _)⟩
              have := h.blockers_le (roomOf_le D)
              simp only [he, if_true, hall]
              omega
      · -- nothing of `rs` has arrived: every record left ends after `C`
        have hlater : ∀ x ∈ (r, e) :: rs, ¬ x.2 ≤ C := by
          intro x hx
          rcases List.mem_cons.mp hx with rfl | hx
          · exact he
          · have := hlt x hx
            simp only at this
            omega
        have hpass : (pass C ((r, e) :: rs)).2 = (r, e) :: rs := by simp [pass, he]
        rw [hpass]
        constructor
        · exact Covered.mono (fun x hx => by simp [hlater x hx])
        · exact Covered.mono (fun x hx => by simp [hlater x hx])

theorem goods_pass (C : Nat) (rs : List (Option γ × Nat)) :
    goods rs = (pass C rs).1 ++ goods (pass C rs).2 := by
  induction rs with
  | nil => rfl
  | cons x rs ih =>
      obtain ⟨r, e⟩ := x
      by_cases he : e ≤ C
      · cases r with
        | some f => simp [pass, he, ih]
        | none => simp [pass, he]
      · simp [pass, he]

theorem pass_suffix (C : Nat) (rs : List (Option γ × Nat)) : (pass C rs).2 <:+ rs := by
  induction rs with
  | nil => exact List.suffix_refl _
  | cons x rs ih =>
      obtain ⟨r, e⟩ := x
      by_cases he : e ≤ C
      · cases r with
        | some f => simpa [pass, he] using ih.trans (List.suffix_cons _ _)
        | none => simp [pass, he]
      · simp [pass, he]

/-- **Which reads hand on every well-formed record.** -/
theorem passes_eq_goods_iff {Cs : List Nat} {rs : List (Option γ × Nat)}
    (hC : Cs.Pairwise (· ≤ ·)) (hs : rs.Pairwise (fun a b => a.2 < b.2))
    (hlast : ∀ x ∈ rs, ∃ C ∈ Cs.getLast?, x.2 ≤ C) :
    passes Cs rs = goods rs ↔ Covered (roomOf Cs) rs := by
  induction Cs generalizing rs with
  | nil =>
      cases rs with
      | nil => simp [passes, Covered]
      | cons x rs => simpa using hlast x List.mem_cons_self
  | cons C Cs ih =>
      obtain ⟨hCle, hC'⟩ := List.pairwise_cons.mp hC
      cases Cs with
      | nil =>
          -- the last read: every record has arrived, and a blocker ends the run
          have hle : ∀ x ∈ rs, x.2 ≤ C := fun x hx => by simpa using hlast x hx
          clear hlast ih
          simp only [passes, List.append_nil]
          induction rs with
          | nil => simp [pass, Covered]
          | cons x rs ihr =>
              obtain ⟨r, e⟩ := x
              have he : e ≤ C := hle (r, e) List.mem_cons_self
              have ihr' := ihr (List.pairwise_cons.mp hs).2
                (fun y hy => hle y (List.mem_cons_of_mem _ hy))
              cases r with
              | some f => simpa [pass, he, Covered] using ihr'
              | none =>
                  by_cases hg : goods rs = []
                  · simp [pass, he, hg, Covered, covered_of_goods_nil]
                  · have hne : ¬ ([] : List γ) = goods rs := fun h => hg h.symm
                    simp [pass, he, hg, Covered, roomOf, hne]
      | cons C' Cs =>
          have hsuf := pass_suffix C rs
          -- the first pass gives one unit of room to the records that have arrived
          have hroom : roomOf (C :: C' :: Cs)
              = fun e => (if e ≤ C then 1 else 0) + roomOf (C' :: Cs) e :=
            funext fun e => roomOf_cons C C' Cs e
          rw [passes, goods_pass C rs, List.append_cancel_left_eq,
            ih hC' (hs.sublist hsuf.sublist)
              (fun x hx => by simpa using hlast x (hsuf.subset hx)),
            hroom, covered_pass_iff hCle hs]

/-! ## All splittings of a stream -/

/-- A way of cutting `s` into non-empty reads of at most `M` symbols. -/
structure IsSplit (M : Nat) (s : List α) (rs : List (List α)) : Prop where
  flatten : rs.flatten = s
  pos : ∀ r ∈ rs, 0 < r.length
  le : ∀ r ∈ rs, r.length ≤ M

theorem cuts_pairwise (p : Nat) (rs : List (List α)) :
    (cuts p rs).Pairwise (· ≤ ·) ∧ ∀ C ∈ cuts p rs, p ≤ C := by
  induction rs generalizing p with
  | nil => simp [cuts]
  | cons r rs ih =>
      obtain ⟨h1, h2⟩ := ih (p + r.length)
      rw [cuts, List.pairwise_cons]
      refine ⟨⟨h2, h1⟩, fun C hC => ?_⟩
      rcases List.mem_cons.mp hC with rfl | hC
      · omega
      · have := h2 C hC
        omega

theorem cuts_length (p : Nat) (rs : List (List α)) : (cuts p rs).length = rs.length := by
  induction rs generalizing p with
  | nil => rfl
  | cons r rs ih => simp [cuts, ih]

theorem cuts_getLast (p : Nat) (rs : List (List α)) (h : rs ≠ []) :
    (cuts p rs).getLast? = some (p + rs.flatten.length) := by
  induction rs generalizing p with
  | nil => exact absurd rfl h
  | cons r rs ih =>
      cases rs with
      | nil => simp [cuts]
      | cons r' rs =>
          have := ih (p + r.length) (by simp)
          rw [cuts] at this ⊢
          rw [cuts, List.getLast?_cons_cons, this]
          simp [Nat.add_assoc]

/-- Any splitting leaves at least the room that reads of full size leave. -/
theorem room_le_roomOf {M : Nat} (p : Nat) (rs : List (List α))
    (hle : ∀ r ∈ rs, r.length ≤ M) (e : Nat) (he : p < e) :
    (p + rs.flatten.length - e) / M ≤ roomOf (cuts p rs) e := by
  induction rs generalizing p with
  | nil =>
      have h0 : p + ([] : List (List α)).flatten.length - e = 0 := by simp; omega
      rw [h0, Nat.zero_div]
      exact Nat.zero_le _
  | cons r rs ih =>
      have hr := hle r List.mem_cons_self
      have hle' : ∀ x ∈ rs, x.length ≤ M := fun x hx => hle x (List.mem_cons_of_mem _ hx)
      have htot : p + (r :: rs).flatten.length = p + r.length + rs.flatten.length := by
        simp [Nat.add_assoc]
      rw [htot]
      by_cases hin : e ≤ p + r.length
      · -- the first end at `e` or later: all later ends count, and each read covers `M`
        have hsum : rs.flatten.length ≤ rs.length * M := by
          clear ih htot hle
          induction rs with
          | nil => simp
          | cons x rs ihx =>
              have h1 := hle' x List.mem_cons_self
              have h2 := ihx (fun y hy => hle' y (List.mem_cons_of_mem _ hy))
              simp only [List.flatten_cons, List.length_append, List.length_cons]
              rw [Nat.succ_mul]; omega
        have hall : ∀ C ∈ cuts p (r :: rs), e ≤ C := by
          intro C hC
          rcases List.mem_cons.mp hC with rfl | hC
          · exact hin
          · exact le_trans hin ((cuts_pairwise (p + r.length) rs).2 C hC)
        rw [roomOf_all hall, cuts_length, List.length_cons, Nat.add_sub_cancel]
        have hlt : p + r.length + rs.flatten.length - e < (rs.length + 1) * M := by
          rw [Nat.succ_mul]; omega
        exact Nat.lt_succ_iff.mp (Nat.div_lt_of_lt_mul (by rwa [Nat.mul_comm]))
      · cases rs with
        | nil =>
            have h0 : p + r.length + ([] : List (List α)).flatten.length - e = 0 := by
              simp; omega
            rw [h0, Nat.zero_div]
            exact Nat.zero_le _
        | cons r' rs =>
            have := ih (p + r.length) hle' (by omega)
            rw [cuts] at this
            rw [cuts, cuts, roomOf_cons, if_neg hin, Nat.zero_add]
            exact this

/-- Reads of full size, the short one first. -/
def fullReads (M : Nat) : Nat → List α → List (List α)
  | 0, _ => []
  | q + 1, s => s.take M :: fullReads M q (s.drop M)

theorem fullReads_length (M q : Nat) (s : List α) : (fullReads M q s).length = q := by
  induction q generalizing s with
  | zero => rfl
  | succ q ih => simp [fullReads, ih]

theorem fullReads_spec {M : Nat} (q : Nat) (s : List α) (hs : s.length = q * M) :
    (fullReads M q s).flatten = s ∧ ∀ r ∈ fullReads M q s, r.length = M := by
  induction q generalizing s with
  | zero =>
      have : s = [] := List.length_eq_zero_iff.mp (by simpa using hs)
      simp [fullReads, this]
  | succ q ih =>
      rw [Nat.succ_mul] at hs
      obtain ⟨h1, h2⟩ := ih (s.drop M) (by rw [List.length_drop]; omega)
      refine ⟨by simp [fullReads, h1], fun r hr => ?_⟩
      rcases List.mem_cons.mp hr with rfl | hr
      · rw [List.length_take]; omega
      · exact h2 r hr

theorem fullReads_room {M : Nat} (hM : 0 < M) (q p : Nat) (s : List α) (hs : s.length = q * M)
    (e : Nat) : roomOf (cuts p (fullReads M q s)) e ≤ (p + q * M - e) / M := by
  induction q generalizing p s with
  | zero => simp [fullReads, cuts, roomOf]
  | succ q ih =>
      rw [Nat.succ_mul] at hs
      have htake : (s.take M).length = M := by rw [List.length_take]; omega
      have hdrop : (s.drop M).length = q * M := by rw [List.length_drop]; omega
      have hend : p + (q + 1) * M = p + M + q * M := by rw [Nat.succ_mul]; omega
      rw [hend]
      by_cases he : e ≤ p + M
      · -- `e` is in the first read: the later ones are all the room there is
        refine le_trans (roomOf_le _ e) ?_
        rw [cuts_length, fullReads_length, Nat.add_sub_cancel, Nat.le_div_iff_mul_le hM]
        omega
      · have := ih (p + M) (s.drop M) hdrop
        cases q with
        | zero => simp [fullReads, cuts, roomOf]
        | succ q =>
            rw [fullReads, cuts, htake, fullReads, cuts, roomOf_cons, if_neg he, Nat.zero_add]
            rw [fullReads, cuts] at this
            exact this

/-- The splitting that leaves the least room: full reads, after a first read of the rest. -/
def tightSplit (M : Nat) (s : List α) : List (List α) :=
  (if s.length % M = 0 then [] else [s.take (s.length % M)])
    ++ fullReads M (s.length / M) (s.drop (s.length % M))

theorem tightSplit_spec {M : Nat} (hM : 0 < M) (s : List α) :
    IsSplit M s (tightSplit M s) ∧
      ∀ e, 0 < e → roomOf (cuts 0 (tightSplit M s)) e ≤ (s.length - e) / M := by
  have hdm : s.length / M * M + s.length % M = s.length := by
    rw [Nat.mul_comm]; exact Nat.div_add_mod s.length M
  have hmod := Nat.mod_lt s.length hM
  have hdrop : (s.drop (s.length % M)).length = s.length / M * M := by
    rw [List.length_drop]; omega
  obtain ⟨hflat, hall⟩ := fullReads_spec (M := M) (s.length / M) (s.drop (s.length % M)) hdrop
  by_cases h0 : s.length % M = 0
  · -- no remainder: every read is full
    have ht : tightSplit M s = fullReads M (s.length / M) s := by simp [tightSplit, h0]
    rw [h0, List.drop_zero] at hflat hall hdrop
    rw [ht]
    refine ⟨⟨hflat, fun r hr => by rw [hall r hr]; exact hM, fun r hr => by rw [hall r hr]⟩, ?_⟩
    intro e _
    have := fullReads_room hM (s.length / M) 0 s hdrop e
    rwa [Nat.zero_add, ← hdrop] at this
  · have ht : tightSplit M s = s.take (s.length % M)
        :: fullReads M (s.length / M) (s.drop (s.length % M)) := by simp [tightSplit, h0]
    -- the first read takes the remainder
    have htake : (s.take (s.length % M)).length = s.length % M := by
      rw [List.length_take]; omega
    rw [ht]
    refine ⟨⟨by simp [hflat], ?_, ?_⟩, ?_⟩
    · intro r hr
      rcases List.mem_cons.mp hr with rfl | hr
      · omega
      · rw [hall r hr]; exact hM
    · intro r hr
      rcases List.mem_cons.mp hr with rfl | hr
      · omega
      · rw [hall r hr]
    · intro e he
      have hroom := fullReads_room hM (s.length / M) (s.length % M) _ hdrop e
      have htotal : s.length % M + s.length / M * M = s.length := by omega
      rw [htotal] at hroom
      cases hq : s.length / M with
      | zero => simp [fullReads, cuts, roomOf]
      | succ q =>
          rw [hq] at hroom
          rw [cuts, htake, Nat.zero_add, fullReads, cuts, roomOf_cons]
          rw [fullReads, cuts] at hroom
          by_cases hin : e ≤ s.length % M
          · -- `e` is in the first read: all `q + 1` full reads are left
            rw [if_pos hin]
            have hle : roomOf ((s.length % M + ((s.drop (s.length % M)).take M).length)
                :: cuts (s.length % M + ((s.drop (s.length % M)).take M).length)
                  (fullReads M q ((s.drop (s.length % M)).drop M))) e ≤ q := by
              refine le_trans (roomOf_le _ e) ?_
              simp [cuts_length, fullReads_length]
            have : (q + 1) * M ≤ s.length - e := by
              rw [← hq]; omega
            have := (Nat.le_div_iff_mul_le hM).mpr this
            omega
          · rw [if_neg hin, Nat.zero_add]
            exact hroom

/-- One symbol per read. -/
theorem singletons_isSplit {M : Nat} (hM : 0 < M) (s : List α) :
    IsSplit M s (s.map fun a => [a]) where
  flatten := by
    induction s with
    | nil => rfl
    | cons a s ih => simp [ih]
  pos := by simp
  le := by
    intro r hr
    obtain ⟨a, -, rfl⟩ := List.mem_map.mp hr
    exact hM

theorem singletons_room (p : Nat) (s : List α) (e : Nat) (he : p < e) :
    p + s.length - e ≤ roomOf (cuts p (s.map fun a => [a])) e := by
  have := room_le_roomOf (M := 1) p (s.map fun a => [a]) (by simp) e he
  rw [(singletons_isSplit Nat.one_pos s).flatten, Nat.div_one] at this
  exact this

/-- Blockers end at distinct offsets before the last record, so one symbol per read is
enough for all of them. -/
theorem covered_of_ends {L : Nat} {rs : List (Option γ × Nat)}
    (hs : rs.Pairwise (fun a b => a.2 < b.2)) (hle : ∀ x ∈ rs, x.2 ≤ L) :
    Covered (fun e => L - e) rs := by
  -- ends are distinct, so the blockers from `e` on and one well-formed record fit between
  have hcount : ∀ (l : List (Option γ × Nat)), l.Pairwise (fun a b => a.2 < b.2) →
      ∀ e, (∀ x ∈ l, e < x.2 ∧ x.2 ≤ L) → goods l ≠ [] → blockers l + 1 ≤ L - e := by
    intro l
    induction l with
    | nil => intro _ e _ hg; exact absurd rfl hg
    | cons x l ih =>
        intro hp e hb hg
        obtain ⟨r, e'⟩ := x
        obtain ⟨hlt, hp'⟩ := List.pairwise_cons.mp hp
        have hhead := hb (r, e') List.mem_cons_self
        simp only at hhead
        have htail : ∀ y ∈ l, e' < y.2 ∧ y.2 ≤ L :=
          fun y hy => ⟨hlt y hy, (hb y (List.mem_cons_of_mem _ hy)).2⟩
        by_cases hgl : goods l = []
        · cases r with
          | none => exact absurd (by simpa using hgl) hg
          | some f => simp only [blockers, blockers_of_goods_nil hgl]; omega
        · have := ih hp' e' htail hgl
          cases r with
          | some f => simp only [blockers]; omega
          | none => rw [blockers_none hgl]; omega
  induction rs with
  | nil => trivial
  | cons x rs ih =>
      obtain ⟨r, e⟩ := x
      obtain ⟨hlt, hs'⟩ := List.pairwise_cons.mp hs
      have ih' := ih hs' (fun y hy => hle y (List.mem_cons_of_mem _ hy))
      cases r with
      | some f => exact ih'
      | none =>
          refine ⟨fun hg => hcount rs hs' e (fun y hy => ?_) hg, ih'⟩
          exact ⟨hlt y hy, hle y (List.mem_cons_of_mem _ hy)⟩

/-- A reader hands on every well-formed record exactly when its reads cover the records. -/
theorem drainReads_eq_goods_iff (c : Cutter α γ) {M : Nat} {s : List α} {rs : List (List α)}
    (h : IsSplit M s rs) :
    drainReads c [] rs = goods (recordsFrom c 0 s)
      ↔ Covered (roomOf (cuts 0 rs)) (recordsFrom c 0 s) := by
  obtain ⟨hord, hends⟩ := recordsFrom_ends c 0 s
  rw [drainReads_eq_passes c rs 0 [], List.nil_append, h.flatten]
  refine passes_eq_goods_iff (cuts_pairwise 0 rs).1 hord (fun x hx => ?_)
  have hx2 := hends x hx
  -- a stream with a record in it has a read
  have hne : rs ≠ [] := by
    rintro rfl
    have h0 : s = [] := h.flatten.symm
    subst h0
    simp only [List.length_nil] at hx2
    omega
  refine ⟨0 + s.length, ?_, by omega⟩
  rw [List.length_nil, Nat.zero_add, cuts_getLast 0 rs hne, h.flatten]
  rfl

/-- **Independence of the read boundaries.** All splittings of `s` into reads of at most `M`
symbols hand on the same records exactly when after every malformed record with a
well-formed one behind it the stream goes on for `M` symbols per blocker from it on. -/
theorem forall_splits_iff (c : Cutter α γ) {M : Nat} (hM : 0 < M) (s : List α) :
    (∀ r₁ r₂, IsSplit M s r₁ → IsSplit M s r₂ → drainReads c [] r₁ = drainReads c [] r₂)
      ↔ Covered (fun e => (s.length - e) / M) (recordsFrom c 0 s) := by
  obtain ⟨hord, hends⟩ := recordsFrom_ends c 0 s
  have hle : ∀ x ∈ recordsFrom c 0 s, x.2 ≤ s.length := fun x hx => by
    have := hends x hx
    omega
  obtain ⟨htight, htightRoom⟩ := tightSplit_spec hM s
  constructor
  · intro h
    -- one symbol per read hands on everything, hence so does the tightest splitting
    have hone : drainReads c [] (s.map fun a => [a]) = goods (recordsFrom c 0 s) := by
      rw [drainReads_eq_goods_iff c (singletons_isSplit hM s)]
      refine (covered_of_ends hord hle).mono (fun x hx => ?_)
      have := singletons_room 0 s x.2 (hends x hx).1
      rwa [Nat.zero_add] at this
    have hall := (h _ _ htight (singletons_isSplit hM s)).trans hone
    refine ((drainReads_eq_goods_iff c htight).mp hall).mono (fun x hx => ?_)
    exact htightRoom x.2 (hends x hx).1
  · intro hcov r₁ r₂ h₁ h₂
    have key : ∀ r, IsSplit M s r → drainReads c [] r = goods (recordsFrom c 0 s) := by
      intro r hr
      rw [drainReads_eq_goods_iff c hr]
      refine hcov.mono (fun x hx => ?_)
      have := room_le_roomOf 0 r hr.le x.2 (hends x hx).1
      rwa [hr.flatten, Nat.zero_add] at this
    rw [key r₁ h₁, key r₂ h₂]

end RecordStream
