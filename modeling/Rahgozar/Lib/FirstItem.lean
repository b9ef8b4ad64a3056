import Mathlib.Tactic

set_option autoImplicit false

/-! # The first wanted item

Items stand behind one another in a block, each as its own bytes, and a scan looks for the first
one that is wanted. A scan is known by what it does at the head of a block: where no complete item
stands there it ends, where an unwanted one does it goes on behind it, and a wanted one is what it
was looking for. From these three rules follows what it finds in every block.
-/

namespace FirstItem

variable {ι α β : Type*}

/-- A complete item stands at the head of the block. -/
def Starts (bytes : ι → List α) (fits : ι → Prop) (block : List α) : Prop :=
  ∃ it more, fits it ∧ block = bytes it ++ more

/-- The item `it` is the first wanted one of the block, and stands behind `before`. -/
structure First (bytes : ι → List α) (fits wanted : ι → Prop) (block : List α) (before : List ι)
    (it : ι) : Prop where
  data : ∃ more, block = before.flatMap bytes ++ (bytes it ++ more)
  before_fits : ∀ b ∈ before, fits b
  unwanted : ∀ b ∈ before, ¬ wanted b
  item_fits : fits it
  item_wanted : wanted it

/-- A scan of the block `whole`, from behind a front that has been read. -/
structure Rules (bytes : ι → List α) (fits wanted : ι → Prop) (whole : List α)
    (scan : List α → β) (ended : β) (found : List α → ι → β) : Prop where
  short : ∀ front block, front ++ block = whole → ¬ Starts bytes fits block → scan front = ended
  next : ∀ front it more, front ++ (bytes it ++ more) = whole → fits it → ¬ wanted it →
    scan front = scan (front ++ bytes it)
  found : ∀ front it more, front ++ (bytes it ++ more) = whole → fits it → wanted it →
    scan front = found front it

variable {bytes : ι → List α} {fits wanted : ι → Prop} {whole front block : List α}
  {scan : List α → β} {ended : β} {found : List α → ι → β}

theorem not_starts_nil (hne : ∀ it, bytes it ≠ []) : ¬ Starts bytes fits [] := by
  rintro ⟨it, more, -, hnil⟩
  exact hne it (List.append_eq_nil_iff.mp hnil.symm).1

section

variable (h : Rules bytes fits wanted whole scan ended found)

include h

/-- Unwanted items are passed over. -/
theorem Rules.skip {items : List ι} {more : List α}
    (hwhole : front ++ (items.flatMap bytes ++ more) = whole) (hfits : ∀ it ∈ items, fits it)
    (hnot : ∀ it ∈ items, ¬ wanted it) : scan front = scan (front ++ items.flatMap bytes) := by
  induction items generalizing front with
  | nil => rw [List.flatMap_nil, List.append_nil]
  | cons it items ih =>
    rw [List.flatMap_cons, List.append_assoc] at hwhole
    have hnext := h.next front it _ hwhole (hfits it List.mem_cons_self)
      (hnot it List.mem_cons_self)
    rw [hnext, List.flatMap_cons, ← List.append_assoc]
    refine ih ?_ (fun b hb => hfits b (List.mem_cons_of_mem it hb)) fun b hb =>
      hnot b (List.mem_cons_of_mem it hb)
    rw [← hwhole, List.append_assoc]

theorem Rules.first {before : List ι} {it : ι} (hwhole : front ++ block = whole)
    (hfirst : First bytes fits wanted block before it) :
    scan front = found (front ++ before.flatMap bytes) it := by
  obtain ⟨more, rfl⟩ := hfirst.data
  rw [h.skip hwhole hfirst.before_fits hfirst.unwanted]
  exact h.found _ it more (by rw [List.append_assoc, hwhole]) hfirst.item_fits hfirst.item_wanted

/-- A scan ends, or has found the first wanted item. -/
theorem Rules.ended_or_first (hne : ∀ it, bytes it ≠ []) (hwhole : front ++ block = whole) :
    scan front = ended ∨ ∃ before it, First bytes fits wanted block before it ∧
      scan front = found (front ++ before.flatMap bytes) it := by
  induction hlen : block.length using Nat.strong_induction_on generalizing front block with
  | _ n ih =>
    by_cases hstarts : Starts bytes fits block
    · obtain ⟨it, more, hit, rfl⟩ := hstarts
      by_cases hwanted : wanted it
      · have hfirst : First bytes fits wanted (bytes it ++ more) [] it :=
          ⟨⟨more, rfl⟩, fun b hb => absurd hb List.not_mem_nil,
            fun b hb => absurd hb List.not_mem_nil, hit, hwanted⟩
        exact Or.inr ⟨[], it, hfirst, h.first hwhole hfirst⟩
      · have hpos : 0 < (bytes it).length := List.length_pos_iff.mpr (hne it)
        have hlt : more.length < n := by
          rw [← hlen, List.length_append]
          omega
        have hwhole' : front ++ bytes it ++ more = whole := by rw [List.append_assoc, hwhole]
        rw [h.next front it more hwhole hit hwanted]
        rcases ih more.length hlt hwhole' rfl with hended | ⟨before, x, hx, hscan⟩
        · exact Or.inl hended
        · obtain ⟨behind, hdata⟩ := hx.data
          have hfirst : First bytes fits wanted (bytes it ++ more) (it :: before) x := by
            refine ⟨⟨behind, ?_⟩, ?_, ?_, hx.item_fits, hx.item_wanted⟩
            · rw [hdata, List.flatMap_cons, List.append_assoc]
            · exact List.forall_mem_cons.mpr ⟨hit, hx.before_fits⟩
            · exact List.forall_mem_cons.mpr ⟨hwanted, hx.unwanted⟩
          refine Or.inr ⟨it :: before, x, hfirst, ?_⟩
          rw [hscan, List.flatMap_cons, List.append_assoc]
    · exact Or.inl (h.short front block hwhole hstarts)

end

end FirstItem
