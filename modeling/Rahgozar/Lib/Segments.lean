import Mathlib.Tactic

set_option autoImplicit false

/-! # Streams that arrive in segments

A stream arrives in segments. A read into a buffer returns what there is of the first segment, as
much of it as the buffer holds; at the end of the stream it returns nothing. A reader goes on
reading until what it has read meets a condition, and so reads past the place where the condition is
first met. The file says how far: never past the end of the segments that hold that place.
-/

namespace Segments

variable {α : Type*}

/-- One read into a buffer for `cap` symbols, and the segments that are left. -/
def read (cap : Nat) : List (List α) → List α × List (List α)
  | [] => ([], [])
  | seg :: segs =>
      if seg.length ≤ cap then (seg, segs) else (seg.take cap, seg.drop cap :: segs)

/-- What has been read, the segments that are left, and whether the end of the stream came first. -/
structure Filled (α : Type*) where
  buf : List α
  rest : List (List α)
  eof : Bool

/-- At most `fuel` reads, until the buffer meets the condition. -/
def fillUntil (cap : Nat) (done : List α → Bool) :
    (fuel : Nat) → List α → List (List α) → Filled α
  | 0, buf, segs => ⟨buf, segs, !done buf⟩
  | fuel + 1, buf, segs =>
      if done buf then ⟨buf, segs, false⟩
      else
        match read cap segs with
        | ([], rest) => ⟨buf, rest, true⟩
        | (x :: got, rest) => fillUntil cap done fuel (buf ++ x :: got) rest

/-- Reads until the buffer meets the condition; there are no more reads than symbols. -/
def fill (cap : Nat) (done : List α → Bool) (buf : List α) (segs : List (List α)) : Filled α :=
  fillUntil cap done (segs.flatten.length + 1) buf segs

/-! ## How far a reader gets -/

/-- The symbols `got` have been read of `mine`, and `rest` is left of it. Segments of at most `m`
symbols are read as a whole. -/
structure Taken (m : Nat) (mine : List (List α)) (got : List α) (rest : List (List α)) : Prop where
  flatten : got ++ rest.flatten = mine.flatten
  pos : ∀ seg ∈ rest, seg ≠ []
  whole : (∀ seg ∈ mine, seg.length ≤ m) → rest <:+ mine

variable {m cap : Nat} {mine rest rest' later : List (List α)} {buf got got' : List α}

theorem Taken.refl (hpos : ∀ seg ∈ mine, seg ≠ []) : Taken m mine [] mine :=
  ⟨rfl, hpos, fun _ => List.suffix_rfl⟩

theorem Taken.trans (h : Taken m mine got rest) (h' : Taken m rest got' rest') :
    Taken m mine (got ++ got') rest' := by
  refine ⟨?_, h'.pos, fun hsmall => ?_⟩
  · rw [List.append_assoc, h'.flatten, h.flatten]
  · have hrest := h.whole hsmall
    exact (h'.whole fun seg hseg => hsmall seg (hrest.subset hseg)).trans hrest

/-- Nothing of the stream is lost or added. -/
theorem Taken.data (h : Taken m mine got rest) (buf : List α) :
    buf ++ got ++ rest.flatten = buf ++ mine.flatten := by
  rw [List.append_assoc, h.flatten]

/-- A read takes symbols of the first segment. -/
theorem read_append (later : List (List α)) (hcap : 0 < cap) (hm : m ≤ cap)
    (hpos : ∀ seg ∈ mine, seg ≠ []) (hne : mine ≠ []) :
    ∃ x got rest, read cap (mine ++ later) = (x :: got, rest ++ later) ∧
      Taken m mine (x :: got) rest := by
  cases mine with
  | nil => exact absurd rfl hne
  | cons seg segs =>
      have hsegs : ∀ seg' ∈ segs, seg' ≠ [] := fun seg' h => hpos seg' (List.mem_cons_of_mem _ h)
      cases seg with
      | nil => exact absurd rfl (hpos [] List.mem_cons_self)
      | cons x seg =>
          show ∃ x' got rest, (if (x :: seg).length ≤ cap then (x :: seg, segs ++ later)
            else ((x :: seg).take cap, (x :: seg).drop cap :: (segs ++ later))) = _ ∧ _
          by_cases hfits : (x :: seg).length ≤ cap
          · rw [if_pos hfits]
            exact ⟨x, seg, segs, rfl, rfl, hsegs, fun _ => List.suffix_cons _ _⟩
          · rw [if_neg hfits]
            obtain ⟨n, rfl⟩ : ∃ n, cap = n + 1 := ⟨cap - 1, by omega⟩
            refine ⟨x, seg.take n, seg.drop n :: segs, rfl, ?_, ?_, fun hsmall => ?_⟩
            · show x :: (seg.take n ++ (seg.drop n ++ segs.flatten)) = x :: (seg ++ segs.flatten)
              rw [← List.append_assoc, List.take_append_drop]
            · intro seg' hseg'
              rcases List.mem_cons.mp hseg' with rfl | hseg'
              · intro hnil
                have := List.drop_eq_nil_iff.mp hnil
                rw [List.length_cons] at hfits
                omega
              · exact hsegs seg' hseg'
            · exact absurd (hsmall _ List.mem_cons_self) (by omega)

/-- A condition that the first `n` symbols meet as soon as there are `N` of them is met while the
segments that hold these are read. -/
theorem fillUntil_append {done : List α → Bool} {N fuel : Nat} (hcap : 0 < cap) (hm : m ≤ cap)
    (hpos : ∀ seg ∈ mine, seg ≠ []) (hN : N ≤ (buf ++ mine.flatten).length)
    (hdone : ∀ n ≤ (buf ++ mine.flatten).length,
      done ((buf ++ mine.flatten).take n) = decide (N ≤ n))
    (hfuel : mine.flatten.length ≤ fuel) :
    ∃ got rest, fillUntil cap done fuel buf (mine ++ later) = ⟨buf ++ got, rest ++ later, false⟩ ∧
      N ≤ (buf ++ got).length ∧ Taken m mine got rest := by
  have hbuf : done buf = decide (N ≤ buf.length) := by
    have := hdone buf.length (by simp)
    rwa [List.take_left] at this
  induction fuel generalizing buf mine with
  | zero =>
      have hflat : mine.flatten = [] := List.length_eq_zero_iff.mp (Nat.le_zero.mp hfuel)
      rw [hflat, List.append_nil] at hN
      refine ⟨[], mine, ?_, by simpa using hN, Taken.refl hpos⟩
      unfold fillUntil
      rw [hbuf, decide_eq_true hN, List.append_nil]
      rfl
  | succ fuel ih =>
      unfold fillUntil
      by_cases hreached : N ≤ buf.length
      · rw [hbuf, decide_eq_true hreached, if_pos rfl]
        exact ⟨[], mine, by rw [List.append_nil], by simpa using hreached, Taken.refl hpos⟩
      · rw [hbuf, decide_eq_false hreached, if_neg Bool.false_ne_true]
        have hne : mine ≠ [] := by
          rintro rfl
          rw [List.flatten_nil, List.append_nil] at hN
          exact hreached hN
        obtain ⟨x, got, rest, hread, htaken⟩ := read_append later hcap hm hpos hne
        rw [hread]
        have hdata := htaken.data buf
        have hlength : mine.flatten.length = got.length + 1 + rest.flatten.length := by
          rw [← htaken.flatten, List.length_append, List.length_cons]
        have hbuf' : done (buf ++ x :: got) = decide (N ≤ (buf ++ x :: got).length) := by
          have := hdone (buf ++ x :: got).length (by rw [← hdata]; simp)
          rwa [← hdata, List.take_left] at this
        rw [← hdata] at hN hdone
        obtain ⟨got', rest', hfill, hle, htaken'⟩ := ih htaken.pos hN hdone (by omega) hbuf'
        refine ⟨x :: got ++ got', rest', ?_, ?_, htaken.trans htaken'⟩
        · rw [← List.append_assoc]
          exact hfill
        · rw [← List.append_assoc]
          exact hle

theorem fill_append (cap : Nat) (done : List α → Bool) (buf : List α) (later : List (List α))
    {N : Nat} (hcap : 0 < cap) (hm : m ≤ cap) (hpos : ∀ seg ∈ mine, seg ≠ [])
    (hN : N ≤ (buf ++ mine.flatten).length)
    (hdone : ∀ n ≤ (buf ++ mine.flatten).length,
      done ((buf ++ mine.flatten).take n) = decide (N ≤ n)) :
    ∃ got rest, fill cap done buf (mine ++ later) = ⟨buf ++ got, rest ++ later, false⟩ ∧
      N ≤ (buf ++ got).length ∧ Taken m mine got rest := by
  refine fillUntil_append hcap hm hpos hN hdone ?_
  rw [List.flatten_append, List.length_append]
  omega

/-! ## Any stream -/

/-- Where a reader gets to: the condition is met, or the stream is over without it. -/
structure Reached (done : List α → Bool) (buf : List α) (segs : List (List α)) (f : Filled α) :
    Prop where
  data : f.buf ++ f.rest.flatten = buf ++ segs.flatten
  pos : ∀ seg ∈ f.rest, seg ≠ []
  done : done f.buf = !f.eof
  ended : f.eof = true → f.rest = []

theorem flatten_eq_nil_iff {segs : List (List α)} (hpos : ∀ seg ∈ segs, seg ≠ []) :
    segs.flatten = [] ↔ segs = [] := by
  constructor
  · intro hflat
    cases segs with
    | nil => rfl
    | cons seg segs =>
        rw [List.flatten_cons] at hflat
        exact absurd (List.append_eq_nil_iff.mp hflat).1 (hpos seg List.mem_cons_self)
  · rintro rfl
    rfl

theorem fillUntil_reached {done : List α → Bool} {fuel : Nat} {segs : List (List α)}
    (hcap : 0 < cap) (hpos : ∀ seg ∈ segs, seg ≠ []) (hfuel : segs.flatten.length ≤ fuel) :
    Reached done buf segs (fillUntil cap done fuel buf segs) := by
  induction fuel generalizing buf segs with
  | zero =>
      have hnil : segs = [] :=
        (flatten_eq_nil_iff hpos).mp (List.length_eq_zero_iff.mp (Nat.le_zero.mp hfuel))
      refine ⟨rfl, hpos, ?_, fun _ => hnil⟩
      show done buf = !!done buf
      rw [Bool.not_not]
  | succ fuel ih =>
      unfold fillUntil
      by_cases hdone : done buf = true
      · rw [if_pos hdone]
        exact ⟨rfl, hpos, hdone, fun h => absurd h Bool.false_ne_true⟩
      · rw [if_neg hdone]
        cases segs with
        | nil => exact ⟨rfl, hpos, Bool.eq_false_iff.mpr hdone, fun _ => rfl⟩
        | cons seg segs =>
            obtain ⟨x, got, rest, hread, htaken⟩ :=
              read_append [] hcap (Nat.le_refl cap) hpos (List.cons_ne_nil seg segs)
            rw [List.append_nil, List.append_nil] at hread
            rw [hread]
            have hdata := htaken.data buf
            have hlength : (seg :: segs).flatten.length = got.length + 1 + rest.flatten.length := by
              rw [← htaken.flatten, List.length_append, List.length_cons]
            have hreached : Reached done (buf ++ x :: got) rest
                (fillUntil cap done fuel (buf ++ x :: got) rest) := ih htaken.pos (by omega)
            exact ⟨hreached.data.trans hdata, hreached.pos, hreached.done, hreached.ended⟩

theorem fill_reached (done : List α → Bool) (buf : List α) {segs : List (List α)}
    (hcap : 0 < cap) (hpos : ∀ seg ∈ segs, seg ≠ []) :
    Reached done buf segs (fill cap done buf segs) :=
  fillUntil_reached hcap hpos (Nat.le_succ _)

/-! ## A reader with a limit

It gives up when it has read more than `limit` symbols and the `N`-th is not among them. -/

/-- Where the reads of a stream end, counted from `n`. -/
def readEnds (cap : Nat) : (fuel n : Nat) → List (List α) → List Nat
  | 0, _, _ => []
  | fuel + 1, n, segs =>
      match read cap segs with
      | ([], _) => []
      | (_ :: got, rest) => (n + got.length + 1) :: readEnds cap fuel (n + got.length + 1) rest

theorem lt_of_mem_readEnds {fuel n k : Nat} {segs : List (List α)}
    (h : k ∈ readEnds cap fuel n segs) : n < k := by
  induction fuel generalizing n segs with
  | zero => cases h
  | succ fuel ih =>
      unfold readEnds at h
      split at h
      · cases h
      · rcases List.mem_cons.mp h with rfl | h
        · omega
        · have := ih h
          omega

theorem fillUntil_of_done {done : List α → Bool} {segs : List (List α)} (fuel : Nat)
    (h : done buf = true) : (fillUntil cap done fuel buf segs).buf = buf := by
  cases fuel with
  | zero => rfl
  | succ fuel =>
      unfold fillUntil
      rw [if_pos h]

theorem fillUntil_succ {done : List α → Bool} {segs : List (List α)} {x : α} (fuel : Nat)
    (h : done buf = false) (hread : read cap segs = (x :: got, rest)) :
    fillUntil cap done (fuel + 1) buf segs = fillUntil cap done fuel (buf ++ x :: got) rest := by
  rw [fillUntil, h, if_neg Bool.false_ne_true, hread]

/-- The reader comes to the `N`-th symbol unless one of the reads before ends beyond the limit. -/
theorem fillUntil_limit {done : List α → Bool} {limit N fuel : Nat} {segs : List (List α)}
    (hcap : 0 < cap) (hpos : ∀ seg ∈ segs, seg ≠ []) (hN : N ≤ (buf ++ segs.flatten).length)
    (hdone : ∀ n ≤ (buf ++ segs.flatten).length,
      done ((buf ++ segs.flatten).take n) = (decide (N ≤ n) || decide (limit < n)))
    (hstart : buf.length ≤ limit) (hfuel : segs.flatten.length ≤ fuel) :
    N ≤ (fillUntil cap done fuel buf segs).buf.length ↔
      N ≤ buf.length ∨ ∀ n ∈ readEnds cap fuel buf.length segs, limit < n → N ≤ n := by
  induction fuel generalizing buf segs with
  | zero =>
      have hflat : segs.flatten = [] := List.length_eq_zero_iff.mp (Nat.le_zero.mp hfuel)
      rw [hflat, List.append_nil] at hN
      exact ⟨fun _ => Or.inl hN, fun _ => hN⟩
  | succ fuel ih =>
      -- on what has been read of the data, the test looks at the length only
      have hbuf : ∀ b, b <+: buf ++ segs.flatten →
          done b = (decide (N ≤ b.length) || decide (limit < b.length)) := by
        intro b hb
        rw [← hdone b.length hb.length_le, ← List.prefix_iff_eq_take.mp hb]
      have hnow := hbuf buf (List.prefix_append _ _)
      by_cases hle : N ≤ buf.length
      · rw [decide_eq_true hle, Bool.true_or] at hnow
        rw [fillUntil_of_done _ hnow]
        exact ⟨Or.inl, fun _ => hle⟩
      · rw [decide_eq_false hle, decide_eq_false (by omega), Bool.or_false] at hnow
        -- the symbol has not been read, so there is something left to read
        have hne : segs ≠ [] := by
          rintro rfl
          rw [List.flatten_nil, List.append_nil] at hN
          exact hle hN
        obtain ⟨x, got, rest, hread, htaken⟩ :=
          read_append [] hcap (Nat.le_refl cap) hpos hne
        rw [List.append_nil, List.append_nil] at hread
        have hdata := htaken.data buf
        have hlength : segs.flatten.length = got.length + 1 + rest.flatten.length := by
          rw [← htaken.flatten, List.length_append, List.length_cons]
        have hnew : (buf ++ x :: got).length = buf.length + got.length + 1 := by
          rw [List.length_append, List.length_cons]
          omega
        -- the first read ends behind `got`, the others are those of `rest`
        have hends : readEnds cap (fuel + 1) buf.length segs =
            (buf ++ x :: got).length :: readEnds cap fuel (buf ++ x :: got).length rest := by
          rw [hnew, readEnds, hread]
        have hnext := hbuf (buf ++ x :: got) ⟨rest.flatten, hdata⟩
        rw [fillUntil_succ fuel hnow hread, hends, List.forall_mem_cons]
        by_cases hover : limit < (buf ++ x :: got).length
        · -- the reader stops here
          rw [decide_eq_true hover, Bool.or_true] at hnext
          rw [fillUntil_of_done _ hnext]
          constructor
          · intro hthere
            refine Or.inr ⟨fun _ => hthere, fun n hn _ => ?_⟩
            have := lt_of_mem_readEnds hn
            omega
          · rintro (h | h)
            · exact absurd h hle
            · exact h.1 hover
        · rw [← hdata] at hN hdone
          have hrest := ih htaken.pos hN hdone (Nat.le_of_not_lt hover) (by omega)
          rw [hrest]
          constructor
          · rintro (h | h)
            · refine Or.inr ⟨fun hlt => absurd hlt hover, fun n hn _ => ?_⟩
              have := lt_of_mem_readEnds hn
              omega
            · exact Or.inr ⟨fun hlt => absurd hlt hover, h⟩
          · rintro (h | h)
            · exact absurd h hle
            · exact Or.inr h.2

/-! ## The buffers on the way -/

/-- What the reader has in its buffer, from the beginning on and after each read. -/
def buffers (cap : Nat) (done : List α → Bool) :
    (fuel : Nat) → List α → List (List α) → List (List α)
  | 0, buf, _ => [buf]
  | fuel + 1, buf, segs =>
      if done buf then [buf]
      else
        match read cap segs with
        | ([], _) => [buf]
        | (x :: got, rest) => buf :: buffers cap done fuel (buf ++ x :: got) rest

theorem read_spec (cap : Nat) (segs : List (List α)) :
    (read cap segs).1 ++ (read cap segs).2.flatten = segs.flatten ∧
      (read cap segs).1.length ≤ cap := by
  cases segs with
  | nil => exact ⟨rfl, Nat.zero_le _⟩
  | cons seg segs =>
      by_cases hfits : seg.length ≤ cap
      · rw [read, if_pos hfits]
        exact ⟨rfl, hfits⟩
      · rw [read, if_neg hfits]
        constructor
        · show seg.take cap ++ (seg.drop cap ++ segs.flatten) = seg ++ segs.flatten
          rw [← List.append_assoc, List.take_append_drop]
        · exact List.length_take_le _ _

theorem fillUntil_mem_buffers (cap : Nat) (done : List α → Bool) (fuel : Nat) (buf : List α)
    (segs : List (List α)) :
    (fillUntil cap done fuel buf segs).buf ∈ buffers cap done fuel buf segs := by
  induction fuel generalizing buf segs with
  | zero => exact List.mem_singleton_self buf
  | succ fuel ih =>
      unfold fillUntil buffers
      by_cases hdone : done buf = true
      · rw [if_pos hdone, if_pos hdone]
        exact List.mem_singleton_self buf
      · rw [if_neg hdone, if_neg hdone]
        cases hread : read cap segs with
        | mk got rest =>
            cases got with
            | nil => exact List.mem_singleton_self buf
            | cons x got => exact List.mem_cons_of_mem buf (ih _ _)

/-- A buffer holds a part of the stream; it is the first, or one read more than a buffer that does
not meet the condition. -/
theorem mem_buffers {done : List α → Bool} {fuel : Nat} {segs : List (List α)} {b : List α}
    (h : b ∈ buffers cap done fuel buf segs) :
    b <+: buf ++ segs.flatten ∧
      (b = buf ∨ ∃ b', done b' = false ∧ b' <+: buf ++ segs.flatten ∧
        b.length ≤ b'.length + cap) := by
  induction fuel generalizing buf segs with
  | zero =>
      rw [List.mem_singleton.mp h]
      exact ⟨List.prefix_append _ _, Or.inl rfl⟩
  | succ fuel ih =>
      unfold buffers at h
      by_cases hdone : done buf = true
      · rw [if_pos hdone] at h
        rw [List.mem_singleton.mp h]
        exact ⟨List.prefix_append _ _, Or.inl rfl⟩
      · rw [if_neg hdone] at h
        obtain ⟨hdata, hcap⟩ := read_spec cap segs
        cases hread : read cap segs with
        | mk got rest =>
            rw [hread] at h hdata hcap
            cases got with
            | nil =>
                rw [List.mem_singleton.mp h]
                exact ⟨List.prefix_append _ _, Or.inl rfl⟩
            | cons x got =>
                obtain rfl | hlater := List.mem_cons.mp h
                · exact ⟨List.prefix_append _ _, Or.inl rfl⟩
                · have hstream : buf ++ x :: got ++ rest.flatten = buf ++ segs.flatten := by
                    rw [List.append_assoc, hdata]
                  obtain ⟨hpre, hb⟩ := ih hlater
                  rw [hstream] at hpre hb
                  refine ⟨hpre, Or.inr ?_⟩
                  obtain rfl | hmore := hb
                  · refine ⟨buf, Bool.eq_false_iff.mpr hdone, List.prefix_append _ _, ?_⟩
                    rw [List.length_append]
                    exact Nat.add_le_add_left hcap _
                  · exact hmore

/-! ## Reading no more than is missing -/

/-- At most `fuel` reads, each for what is missing of `n` symbols, until they are there. -/
def fillTo (n cap : Nat) : (fuel : Nat) → List α → List (List α) → Filled α
  | 0, buf, segs => ⟨buf, segs, decide (buf.length < n)⟩
  | fuel + 1, buf, segs =>
      if n ≤ buf.length then ⟨buf, segs, false⟩
      else
        match read (min (n - buf.length) cap) segs with
        | ([], rest) => ⟨buf, rest, true⟩
        | (x :: got, rest) => fillTo n cap fuel (buf ++ x :: got) rest

/-- A stream of as many symbols as are missing is read to its end. -/
theorem fillTo_eq {n fuel : Nat} {segs : List (List α)} (hcap : 0 < cap)
    (hpos : ∀ seg ∈ segs, seg ≠ []) (hn : (buf ++ segs.flatten).length = n)
    (hfuel : segs.flatten.length ≤ fuel) :
    fillTo n cap fuel buf segs = ⟨buf ++ segs.flatten, [], false⟩ := by
  induction fuel generalizing buf segs with
  | zero =>
      have hnil : segs = [] :=
        (flatten_eq_nil_iff hpos).mp (List.length_eq_zero_iff.mp (Nat.le_zero.mp hfuel))
      subst hnil
      rw [List.flatten_nil, List.append_nil] at hn ⊢
      unfold fillTo
      rw [decide_eq_false (by omega)]
  | succ fuel ih =>
      unfold fillTo
      by_cases hnil : segs = []
      · subst hnil
        rw [List.flatten_nil, List.append_nil] at hn ⊢
        rw [if_pos (by omega)]
      · have hflat : segs.flatten.length ≠ 0 := by
          intro hzero
          exact hnil ((flatten_eq_nil_iff hpos).mp (List.length_eq_zero_iff.mp hzero))
        rw [List.length_append] at hn
        rw [if_neg (by omega)]
        obtain ⟨x, got, rest, hread, htaken⟩ := read_append []
          (show 0 < min (n - buf.length) cap by omega) (Nat.le_refl _) hpos hnil
        rw [List.append_nil, List.append_nil] at hread
        rw [hread]
        have hdata := htaken.data buf
        have hlength : segs.flatten.length = got.length + 1 + rest.flatten.length := by
          rw [← htaken.flatten, List.length_append, List.length_cons]
        dsimp only
        rw [ih htaken.pos (by rw [hdata, List.length_append, hn]) (by omega), hdata]

/-! ## Searching -/

section

variable [DecidableEq α]

/-- Where the pattern first occurs. -/
def position (pat : List α) : List α → Option Nat
  | [] => none
  | x :: xs => if pat.isPrefixOf (x :: xs) then some 0 else (position pat xs).map (· + 1)

variable {pat : List α} {i : Nat}

theorem position_of_length_lt {l : List α} (h : l.length < pat.length) : position pat l = none := by
  induction l with
  | nil => rfl
  | cons x xs ih =>
      have hnot : ¬ pat.isPrefixOf (x :: xs) = true := by
        intro hpre
        have := (List.isPrefixOf_iff_prefix.mp hpre).length_le
        omega
      unfold position
      rw [if_neg hnot, ih (by rw [List.length_cons] at h; omega)]
      rfl

/-- The first occurrence is found as soon as all of it is there. -/
theorem position_take {l : List α} (hpat : pat ≠ []) (h : position pat l = some i) (n : Nat) :
    position pat (l.take n) = if i + pat.length ≤ n then some i else none := by
  have hlen : 0 < pat.length := List.length_pos_iff.mpr hpat
  induction l generalizing i n with
  | nil => cases h
  | cons x xs ih =>
      cases n with
      | zero =>
          rw [if_neg (by omega)]
          rfl
      | succ n =>
          rw [List.take_succ_cons]
          unfold position at h ⊢
          by_cases hpre : pat.isPrefixOf (x :: xs) = true
          · rw [if_pos hpre] at h
            cases h
            rw [Nat.zero_add]
            by_cases hle : pat.length ≤ n + 1
            · have hpre' : pat.isPrefixOf (x :: xs.take n) = true := by
                rw [← List.take_succ_cons, List.isPrefixOf_iff_prefix, List.prefix_take_iff]
                exact ⟨List.isPrefixOf_iff_prefix.mp hpre, hle⟩
              rw [if_pos hpre', if_pos hle]
            · have hshort : (x :: xs.take n).length < pat.length := by
                rw [List.length_cons, List.length_take]
                omega
              rw [if_neg hle]
              exact position_of_length_lt hshort
          · rw [if_neg hpre] at h
            obtain ⟨j, hj, rfl⟩ := Option.map_eq_some_iff.mp h
            have hpre' : ¬ pat.isPrefixOf (x :: xs.take n) = true := by
              rw [← List.take_succ_cons, List.isPrefixOf_iff_prefix, List.prefix_take_iff]
              exact fun hboth => hpre (List.isPrefixOf_iff_prefix.mpr hboth.1)
            rw [if_neg hpre', ih hj n]
            by_cases hle : j + pat.length ≤ n
            · rw [if_pos hle, if_pos (by omega)]
              rfl
            · rw [if_neg hle, if_neg (by omega)]
              rfl

theorem position_le {l : List α} (h : position pat l = some i) : i + pat.length ≤ l.length := by
  induction l generalizing i with
  | nil => cases h
  | cons x xs ih =>
      unfold position at h
      by_cases hpre : pat.isPrefixOf (x :: xs) = true
      · rw [if_pos hpre] at h
        cases h
        rw [Nat.zero_add]
        exact (List.isPrefixOf_iff_prefix.mp hpre).length_le
      · rw [if_neg hpre] at h
        obtain ⟨j, hj, rfl⟩ := Option.map_eq_some_iff.mp h
        have := ih hj
        rw [List.length_cons]
        omega

theorem position_append {l : List α} (h : position pat l = some i) (l' : List α) :
    position pat (l ++ l') = some i := by
  induction l generalizing i with
  | nil => cases h
  | cons x xs ih =>
      rw [List.cons_append]
      unfold position at h ⊢
      by_cases hpre : pat.isPrefixOf (x :: xs) = true
      · rw [if_pos hpre] at h
        have hpre' : pat.isPrefixOf (x :: (xs ++ l')) = true :=
          List.isPrefixOf_iff_prefix.mpr
            ((List.isPrefixOf_iff_prefix.mp hpre).trans (List.prefix_append (x :: xs) l'))
        rw [if_pos hpre']
        exact h
      · rw [if_neg hpre] at h
        obtain ⟨j, hj, rfl⟩ := Option.map_eq_some_iff.mp h
        have hlength := position_le hj
        have hpre' : ¬ pat.isPrefixOf (x :: (xs ++ l')) = true := by
          intro hboth
          refine hpre (List.isPrefixOf_iff_prefix.mpr ?_)
          refine List.prefix_of_prefix_length_le (List.isPrefixOf_iff_prefix.mp hboth)
            (List.prefix_append (x :: xs) l') ?_
          rw [List.length_cons]
          omega
        rw [if_neg hpre', ih hj]
        rfl

/-- A line ends at the first separator after it. -/
theorem position_separator {a b : α} (hab : a ≠ b) {line : List α}
    (h : position [a, b] line = none) (l' : List α) :
    position [a, b] (line ++ a :: b :: l') = some line.length := by
  induction line with
  | nil =>
      show (if [a, b].isPrefixOf ([a, b] ++ l') = true then some 0 else _) = some 0
      rw [if_pos (List.isPrefixOf_iff_prefix.mpr (List.prefix_append [a, b] l'))]
  | cons x line ih =>
      rw [List.cons_append]
      unfold position at h ⊢
      obtain ⟨hpre, hline⟩ :
          ¬ [a, b].isPrefixOf (x :: line) = true ∧ position [a, b] line = none := by
        split at h
        · cases h
        · rename_i hpre
          exact ⟨hpre, Option.map_eq_none_iff.mp h⟩
      have hpre' : ¬ [a, b].isPrefixOf (x :: (line ++ a :: b :: l')) = true := by
        intro hboth
        obtain ⟨rfl, hnext⟩ := List.cons_prefix_cons.mp (List.isPrefixOf_iff_prefix.mp hboth)
        cases line with
        | nil => exact hab (List.cons_prefix_cons.mp hnext).1.symm
        | cons y line =>
            obtain ⟨rfl, -⟩ := List.cons_prefix_cons.mp hnext
            exact hpre (List.isPrefixOf_iff_prefix.mpr (List.prefix_append [a, b] line))
      rw [if_neg hpre', ih hline]
      rfl

theorem position_eq_some {l : List α} (h : position pat l = some i) :
    l = l.take i ++ (pat ++ l.drop (i + pat.length)) := by
  induction l generalizing i with
  | nil => cases h
  | cons x xs ih =>
      unfold position at h
      by_cases hpre : pat.isPrefixOf (x :: xs) = true
      · rw [if_pos hpre] at h
        cases h
        rw [List.take_zero, List.nil_append, Nat.zero_add]
        exact List.prefix_append_drop (List.isPrefixOf_iff_prefix.mp hpre)
      · rw [if_neg hpre] at h
        obtain ⟨j, hj, rfl⟩ := Option.map_eq_some_iff.mp h
        have hdrop : j + 1 + pat.length = j + pat.length + 1 := by omega
        rw [List.take_succ_cons, hdrop, List.drop_succ_cons, List.cons_append, ← ih hj]

/-- Before its first occurrence there is none. -/
theorem position_take_self {l : List α} (hpat : pat ≠ []) (h : position pat l = some i) :
    position pat (l.take i) = none := by
  have hlen : 0 < pat.length := List.length_pos_iff.mpr hpat
  rw [position_take hpat h, if_neg (by omega)]

/-- What cannot begin the pattern is passed over. -/
theorem position_append_left {line : List α} (hpat : pat ≠ [])
    (hline : ∀ x ∈ line, pat.head? ≠ some x) (l : List α) :
    position pat (line ++ l) = (position pat l).map (· + line.length) := by
  induction line with
  | nil =>
      show position pat l = (position pat l).map (· + 0)
      rw [show (· + 0 : Nat → Nat) = id from rfl, Option.map_id, id_eq]
  | cons x line ih =>
      obtain ⟨hx, hline⟩ := List.forall_mem_cons.mp hline
      have hpre : ¬ pat.isPrefixOf (x :: (line ++ l)) = true := by
        intro hpre
        obtain ⟨y, ys, rfl⟩ := List.exists_cons_of_ne_nil hpat
        exact hx (congrArg some (List.cons_prefix_cons.mp (List.isPrefixOf_iff_prefix.mp hpre)).1)
      rw [List.cons_append, position, if_neg hpre, ih hline, Option.map_map]
      rfl

/-- Reading until a pattern is there finds it where it first occurs in the stream. -/
theorem fill_position (cap : Nat) (done : List α → Bool) (buf : List α) (later : List (List α))
    (hcap : 0 < cap) (hm : m ≤ cap) (hpos : ∀ seg ∈ mine, seg ≠ []) (hpat : pat ≠ [])
    (hfirst : position pat (buf ++ mine.flatten) = some i)
    (hdone : ∀ b, b <+: buf ++ mine.flatten → done b = (position pat b).isSome) :
    ∃ got rest, fill cap done buf (mine ++ later) = ⟨buf ++ got, rest ++ later, false⟩ ∧
      position pat (buf ++ got) = some i ∧ i + pat.length ≤ (buf ++ got).length ∧
      Taken m mine got rest := by
  have hparts : ∀ n ≤ (buf ++ mine.flatten).length,
      done ((buf ++ mine.flatten).take n) = decide (i + pat.length ≤ n) := by
    intro n _
    rw [hdone _ (List.take_prefix n _), position_take hpat hfirst n]
    by_cases hn : i + pat.length ≤ n
    · rw [if_pos hn, decide_eq_true hn]
      rfl
    · rw [if_neg hn, decide_eq_false hn]
      rfl
  obtain ⟨got, rest, hfill, hle, htaken⟩ :=
    fill_append cap done buf later hcap hm hpos (position_le hfirst) hparts
  refine ⟨got, rest, hfill, ?_, hle, htaken⟩
  have htake : buf ++ got = (buf ++ mine.flatten).take (buf ++ got).length := by
    rw [← htaken.data buf, List.take_left]
  rw [htake, position_take hpat hfirst]
  exact if_pos hle

end

end Segments
