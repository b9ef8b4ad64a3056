import Mathlib.Tactic

set_option autoImplicit false

/-! # Counting in a fixed window

A counter that is to notice `n` events within a time `width` may keep one window: the time of its
first event and how many it has counted. An event after the end of the window opens a new one. The
file compares it with the rule it stands for, that the last `n` events are at most `width` apart:
what the counter reports is such a burst, and it misses those bursts that are not inside its
window.
-/

namespace Window

/-- The window, if there is one: its first event and its count. -/
abbrev Open := Option (Nat × Nat)

/-- The window after an event at `now`. -/
def tick (width : Nat) (w : Open) (now : Nat) : Nat × Nat :=
  match w with
  | none => (now, 1)
  | some (first, count) => if width < now - first then (now, 1) else (first, count + 1)

/-- The event at `now` and the `n - 1` before it, newest first in `earlier`, are a burst. -/
def burst (n width now : Nat) (earlier : List Nat) : Bool :=
  (now :: earlier)[n - 1]?.any fun first => decide (now - first ≤ width)

/-- The window does not begin after the burst, and has not ended before it is complete. -/
def Covers (n width now : Nat) (earlier : List Nat) (w : Open) : Prop :=
  ∀ start ∈ w.map Prod.fst, now - start ≤ width ∧
    ∀ first ∈ (now :: earlier)[n - 1]?, start ≤ first

instance (n width now : Nat) (earlier : List Nat) (w : Open) :
    Decidable (Covers n width now earlier w) :=
  inferInstanceAs (Decidable (∀ start ∈ w.map Prod.fst, now - start ≤ width ∧
    ∀ first ∈ (now :: earlier)[n - 1]?, start ≤ first))

/-- The window has counted the newest of the events, and the others are from before it. -/
def Counts (width : Nat) : Open → List Nat → Prop
  | none, times => times = []
  | some (start, count), times => ∃ recent older, times = recent ++ older ∧
      recent.length = count ∧ recent ≠ [] ∧ (∀ t ∈ recent, start ≤ t ∧ t ≤ start + width) ∧
      ∀ t ∈ older, t < start

variable {n width now : Nat} {w : Open} {times : List Nat}

theorem Counts.nil : Counts width none [] := rfl

theorem Counts.tick (h : Counts width w times) (hnow : ∀ t ∈ times, t ≤ now) :
    Counts width (some (tick width w now)) (now :: times) := by
  cases w with
  | none =>
      rw [show times = [] from h]
      exact ⟨[now], [], rfl, rfl, by simp, by simp, by simp⟩
  | some e =>
      obtain ⟨start, count⟩ := e
      obtain ⟨recent, older, rfl, hlength, hne, hrecent, holder⟩ := h
      have hstart : start ≤ now := by
        obtain ⟨t, ht⟩ := List.exists_mem_of_ne_nil recent hne
        exact le_trans (hrecent t ht).1 (hnow t (List.mem_append_left _ ht))
      unfold Window.tick
      dsimp only
      split_ifs with hend
      · -- all that was counted is older than the new window
        refine ⟨[now], recent ++ older, rfl, rfl, by simp, by simp, fun t ht => ?_⟩
        rcases List.mem_append.mp ht with ht | ht
        · have := (hrecent t ht).2
          omega
        · have := holder t ht
          omega
      · refine ⟨now :: recent, older, rfl, by simp [hlength], by simp, fun t ht => ?_, holder⟩
        rcases List.mem_cons.mp ht with rfl | ht
        · omega
        · exact hrecent t ht

theorem getElem?_of_two_le (hn : 2 ≤ n) : (now :: times)[n - 1]? = times[n - 2]? := by
  rw [show n - 1 = n - 2 + 1 by omega, List.getElem?_cons_succ]

/-- What is counted in one window is a burst. -/
theorem burst_of_le_count (h : Counts width w times) (hn : 0 < n)
    (hcount : n ≤ (tick width w now).2) : burst n width now times = true := by
  rcases Nat.lt_or_ge 1 n with htwo | hone
  · cases w with
    | none => exact absurd hcount (by simp only [tick]; omega)
    | some e =>
        obtain ⟨start, count⟩ := e
        obtain ⟨recent, older, rfl, hlength, -, hrecent, -⟩ := h
        unfold tick at hcount
        dsimp only at hcount
        split_ifs at hcount with hend <;> dsimp only at hcount
        · omega
        · have hi : n - 2 < recent.length := by omega
          have hfirst := (hrecent _ (List.getElem_mem hi)).1
          unfold burst
          rw [getElem?_of_two_le htwo, List.getElem?_append_left hi, List.getElem?_eq_getElem hi,
            Option.any_some, decide_eq_true_iff]
          omega
  · obtain rfl : n = 1 := by omega
    simp [burst]

/-- A burst is counted if the window covers it, and missed otherwise. -/
theorem le_count_iff_of_burst (h : Counts width w times) (hlt : ∀ e ∈ w, e.2 < n)
    (hburst : burst n width now times = true) :
    n ≤ (tick width w now).2 ↔ Covers n width now times w := by
  obtain ⟨first, hfirst, -⟩ :
      ∃ first, (now :: times)[n - 1]? = some first ∧ now - first ≤ width := by
    simpa [burst, Option.any_eq_true] using hburst
  cases w with
  | none =>
      rw [show times = [] from h] at hfirst
      have hle : n - 1 < [now].length := (List.getElem?_eq_some_iff.mp hfirst).1
      have hn : n ≤ 1 := by
        rw [List.length_singleton] at hle
        omega
      refine ⟨fun _ => ?_, fun _ => hn⟩
      intro start hstart
      cases hstart
  | some e =>
      obtain ⟨start, count⟩ := e
      have hcount : count < n := hlt _ rfl
      obtain ⟨recent, older, rfl, hlength, hne, hrecent, holder⟩ := h
      have htwo : 2 ≤ n := by
        have := List.length_pos_iff.mpr hne
        omega
      rw [getElem?_of_two_le htwo] at hfirst
      -- with two events or more, the window has to reach back to the first of them
      have hcovers : Covers n width now (recent ++ older) (some (start, count)) ↔
          now - start ≤ width ∧ start ≤ first := by
        simp [Covers, getElem?_of_two_le htwo, hfirst]
      rw [hcovers]
      unfold tick
      dsimp only
      split_ifs with hend
      · exact ⟨fun hle => absurd hle (by dsimp only; omega), fun hle => absurd hle.1 (by omega)⟩
      · refine ⟨fun hle => ⟨by omega, ?_⟩, fun hle => ?_⟩
        · have hi : n - 2 < recent.length := by
            dsimp only at hle
            omega
          rw [List.getElem?_append_left hi, List.getElem?_eq_getElem hi] at hfirst
          cases hfirst
          exact (hrecent _ (List.getElem_mem hi)).1
        · -- the first event of the burst is not one from before the window
          by_contra hmany
          have hi : recent.length ≤ n - 2 := by
            dsimp only at hmany
            omega
          rw [List.getElem?_append_right hi] at hfirst
          have := holder first (List.mem_of_getElem? hfirst)
          omega

end Window
