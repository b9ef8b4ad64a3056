import Mathlib.Tactic

set_option autoImplicit false

/-! # Text as a sequence of records

A reader recognises the record at the front of a text from the record alone, whatever follows.
Every text is then a sequence of records and a tail at which the reader fails, in one way only; and
records that are left out leave the others as they are.
-/

namespace Records

variable {α γ : Type*}

/-- What the record at the front is, and its length. -/
structure Reader (α γ : Type*) where
  read : List α → Option (γ × Nat)
  pos : ∀ {t r n}, read t = some (r, n) → 0 < n
  le : ∀ {t r n}, read t = some (r, n) → n ≤ t.length
  append : ∀ {t r n} (x : List α), read t = some (r, n) → read (t ++ x) = some (r, n)
  of_append : ∀ {t r n} (x : List α), read (t ++ x) = some (r, n) → n ≤ t.length →
    read t = some (r, n)

/-- A record with its symbols, and nothing else. -/
def Whole (c : Reader α γ) (r : γ × List α) : Prop := c.read r.2 = some (r.1, r.2.length)

/-- The symbols of a sequence of records. -/
def symbols (rs : List (γ × List α)) : List α := rs.flatMap Prod.snd

@[simp] theorem symbols_nil : symbols ([] : List (γ × List α)) = [] := rfl

@[simp] theorem symbols_cons (r : γ × List α) (rs : List (γ × List α)) :
    symbols (r :: rs) = r.2 ++ symbols rs := rfl

/-- The text is these records and a tail that the reader fails at. -/
structure Parsed (c : Reader α γ) (t : List α) (rs : List (γ × List α)) (tail : List α) :
    Prop where
  text : t = symbols rs ++ tail
  whole : ∀ r ∈ rs, Whole c r
  ends : c.read tail = none

variable {c : Reader α γ} {t tail : List α} {rs : List (γ × List α)} {r : γ × List α}

theorem Whole.ne_nil (h : Whole c r) : r.2 ≠ [] := by
  intro hnil
  have := c.pos h
  rw [hnil] at this
  exact absurd this (Nat.lt_irrefl 0)

theorem Whole.read_append (h : Whole c r) (x : List α) :
    c.read (r.2 ++ x) = some (r.1, r.2.length) := c.append x h

theorem Parsed.rest (h : Parsed c (r.2 ++ t) (r :: rs) tail) : Parsed c t rs tail :=
  ⟨List.append_cancel_left (h.text.trans (List.append_assoc ..)),
    fun r' hr' => h.whole r' (List.mem_cons_of_mem _ hr'), h.ends⟩

theorem exists_parsed (c : Reader α γ) (t : List α) : ∃ rs tail, Parsed c t rs tail := by
  -- on the length, as every record has some
  induction hlen : t.length using Nat.strong_induction_on generalizing t with
  | _ n ih =>
      cases hread : c.read t with
      | none => exact ⟨[], t, rfl, by simp, hread⟩
      | some p =>
          obtain ⟨num, k⟩ := p
          have hpos := c.pos hread
          have hle := c.le hread
          obtain ⟨rs, tail, htext, hwhole, hends⟩ := ih (t.drop k).length
            (by rw [List.length_drop]; omega) (t.drop k) rfl
          have htake : (t.take k).length = k := List.length_take_of_le hle
          have hfirst : Whole c (num, t.take k) := by
            unfold Whole
            dsimp only
            rw [htake]
            refine c.of_append (t.drop k) ?_ (by rw [htake])
            rwa [List.take_append_drop]
          refine ⟨(num, t.take k) :: rs, tail, ?_, ?_, hends⟩
          · rw [symbols_cons, List.append_assoc, ← htext, List.take_append_drop]
          · intro r hr
            rcases List.mem_cons.mp hr with rfl | hr
            · exact hfirst
            · exact hwhole r hr

/-- Leaving out records. -/
theorem Parsed.sublist {rs' : List (γ × List α)} (h : Parsed c t rs tail)
    (hsub : ∀ r ∈ rs', r ∈ rs) : Parsed c (symbols rs' ++ tail) rs' tail :=
  ⟨rfl, fun r hr => h.whole r (hsub r hr), h.ends⟩

/-! ## All but the later ones of a kind -/

section

variable {β : Type*} {p : β → Bool}

/-- Only the first of those that are `p` is kept. -/
def keepFirst (p : β → Bool) : List β → List β
  | [] => []
  | x :: xs => x :: if p x then xs.filter fun y => !p y else keepFirst p xs

theorem mem_of_mem_keepFirst {l : List β} {x : β} (h : x ∈ keepFirst p l) : x ∈ l := by
  induction l with
  | nil => cases h
  | cons y l ih =>
      unfold keepFirst at h
      rcases List.mem_cons.mp h with rfl | h
      · exact List.mem_cons_self
      · split_ifs at h
        · exact List.mem_cons_of_mem _ (List.mem_of_mem_filter h)
        · exact List.mem_cons_of_mem _ (ih h)

theorem countP_keepFirst_le (p : β → Bool) (l : List β) : (keepFirst p l).countP p ≤ 1 := by
  induction l with
  | nil => exact Nat.zero_le _
  | cons x l ih =>
      unfold keepFirst
      rw [List.countP_cons]
      split_ifs with hx
      · rw [List.countP_eq_zero.mpr]
        intro y hy
        simpa using (List.mem_filter.mp hy).2
      · exact ih

theorem keepFirst_map {δ : Type*} {q : δ → Bool} (f : β → δ) (hf : ∀ x, q (f x) = p x)
    (l : List β) : keepFirst q (l.map f) = (keepFirst p l).map f := by
  induction l with
  | nil => rfl
  | cons x l ih =>
      rw [List.map_cons]
      unfold keepFirst
      rw [hf, List.map_cons]
      split_ifs
      · rw [List.filter_map]
        congr 2
        exact List.filter_congr fun y _ => by simp [hf]
      · rw [ih]

end

end Records
