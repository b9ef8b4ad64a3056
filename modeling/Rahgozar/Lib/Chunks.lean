import Rahgozar.Lib.Segments

set_option autoImplicit false

/-! # Streams in chunks

A body may be sent in chunks: a line that says how long the chunk is, its data, and the separator
that also ends the lines. A line that says zero ends the body; lines behind it are read over up to
an empty one. `decode` puts the body together from the whole stream. How a line says the length is
a parameter, and a line may be blank, or say nothing.
-/

namespace Chunks

open Segments (position)

inductive LineSize where
  | bad
  | blank
  | size (n : Nat)
deriving DecidableEq

variable {α : Type*} [DecidableEq α] (sep : List α) (lineSize : List α → LineSize)
  (fits : Nat → Nat → Bool)

/-- There is an empty line, behind some others. -/
def skipTrailers : (fuel : Nat) → List α → Bool
  | 0, _ => false
  | fuel + 1, bytes =>
      match position sep bytes with
      | none => false
      | some i => (bytes.take i).isEmpty || skipTrailers fuel (bytes.drop (i + sep.length))

/-- The body, put together behind `out`; `fits` is asked with the length so far and the next. -/
def decode : (fuel : Nat) → (out bytes : List α) → Option (List α)
  | 0, _, _ => none
  | fuel + 1, out, bytes =>
      match position sep bytes with
      | none => none
      | some i =>
          let rest := bytes.drop (i + sep.length)
          match lineSize (bytes.take i) with
          | .bad => none
          | .blank => decode fuel out rest
          | .size n =>
              if n = 0 then if skipTrailers sep fuel rest then some out else none
              else if fits out.length n then
                if (rest.drop n).take sep.length = sep then
                  decode fuel (out ++ rest.take n) (rest.drop (n + sep.length))
                else none
              else none

variable {sep lineSize fits} {line data rest out : List α} {fuel n : Nat}

/-! ## The steps -/

/-- The first line of a stream. -/
structure FirstLine (sep line : List α) (rest bytes : List α) : Prop where
  data : bytes = line ++ (sep ++ rest)
  first : position sep bytes = some line.length

theorem FirstLine.take {bytes : List α} (h : FirstLine sep line rest bytes) :
    bytes.take line.length = line := by rw [h.data, List.take_left]

theorem FirstLine.drop {bytes : List α} (h : FirstLine sep line rest bytes) :
    bytes.drop (line.length + sep.length) = rest := by
  rw [h.data, ← List.drop_drop, List.drop_left, List.drop_left]

theorem firstLine_of_position {bytes : List α} {i : Nat} (h : position sep bytes = some i) :
    FirstLine sep (bytes.take i) (bytes.drop (i + sep.length)) bytes := by
  have hle := Segments.position_le h
  have hlength : (bytes.take i).length = i := by
    rw [List.length_take]
    omega
  exact ⟨Segments.position_eq_some h, by rw [hlength, h]⟩

theorem skipTrailers_line {bytes : List α} (h : FirstLine sep line rest bytes) :
    skipTrailers sep (fuel + 1) bytes = (line.isEmpty || skipTrailers sep fuel rest) := by
  rw [skipTrailers, h.first]
  dsimp only
  rw [h.take, h.drop]

theorem skipTrailers_none {bytes : List α} (h : position sep bytes = none) :
    skipTrailers sep fuel bytes = false := by
  cases fuel with
  | zero => rfl
  | succ fuel => rw [skipTrailers, h]

theorem decode_succ (bytes : List α) :
    decode sep lineSize fits (fuel + 1) out bytes =
      match position sep bytes with
      | none => none
      | some i =>
          let rest := bytes.drop (i + sep.length)
          match lineSize (bytes.take i) with
          | .bad => none
          | .blank => decode sep lineSize fits fuel out rest
          | .size n =>
              if n = 0 then if skipTrailers sep fuel rest then some out else none
              else if fits out.length n then
                if (rest.drop n).take sep.length = sep then
                  decode sep lineSize fits fuel (out ++ rest.take n) (rest.drop (n + sep.length))
                else none
              else none :=
  rfl

theorem decode_none {bytes : List α} (h : position sep bytes = none) :
    decode sep lineSize fits fuel out bytes = none := by
  cases fuel with
  | zero => rfl
  | succ fuel => rw [decode_succ, h]

theorem decode_bad {bytes : List α} (h : FirstLine sep line rest bytes)
    (hsize : lineSize line = .bad) : decode sep lineSize fits fuel out bytes = none := by
  cases fuel with
  | zero => rfl
  | succ fuel =>
    rw [decode_succ, h.first]
    dsimp only
    rw [h.take, hsize]

theorem decode_blank {bytes : List α} (h : FirstLine sep line rest bytes)
    (hsize : lineSize line = .blank) : decode sep lineSize fits (fuel + 1) out bytes =
      decode sep lineSize fits fuel out rest := by
  rw [decode_succ, h.first]
  dsimp only
  rw [h.take, hsize, h.drop]

theorem decode_last {bytes : List α} (h : FirstLine sep line rest bytes)
    (hsize : lineSize line = .size 0) : decode sep lineSize fits (fuel + 1) out bytes =
      if skipTrailers sep fuel rest then some out else none := by
  rw [decode_succ, h.first]
  dsimp only
  rw [h.take, hsize, h.drop]
  rfl

theorem decode_size {bytes : List α} (h : FirstLine sep line rest bytes)
    (hsize : lineSize line = .size n) (hn : n ≠ 0) :
    decode sep lineSize fits (fuel + 1) out bytes =
      if fits out.length n then
        if (rest.drop n).take sep.length = sep then
          decode sep lineSize fits fuel (out ++ rest.take n) (rest.drop (n + sep.length))
        else none
      else none := by
  rw [decode_succ, h.first]
  dsimp only
  rw [h.take, hsize, h.drop]
  dsimp only
  rw [if_neg hn]

/-- A chunk that is followed by the separator. -/
theorem decode_chunk {bytes tail : List α}
    (h : FirstLine sep line (data ++ (sep ++ tail)) bytes)
    (hsize : lineSize line = .size data.length) (hdata : data ≠ [])
    (hfits : fits out.length data.length = true) :
    decode sep lineSize fits (fuel + 1) out bytes =
      decode sep lineSize fits fuel (out ++ data) tail := by
  have hn : data.length ≠ 0 := fun hn => hdata (List.length_eq_zero_iff.mp hn)
  rw [decode_size h hsize hn, if_pos hfits, List.drop_left, List.take_left, if_pos rfl,
    List.take_left, ← List.drop_drop, List.drop_left, List.drop_left]

/-- A chunk that is not. -/
theorem decode_broken {bytes tail : List α} (h : FirstLine sep line (data ++ tail) bytes)
    (hsize : lineSize line = .size data.length) (hdata : data ≠ []) (htail : ¬ sep <+: tail) :
    decode sep lineSize fits fuel out bytes = none := by
  cases fuel with
  | zero => rfl
  | succ fuel =>
    have hn : data.length ≠ 0 := fun hn => hdata (List.length_eq_zero_iff.mp hn)
    have hnot : ¬ tail.take sep.length = sep :=
      fun heq => htail (heq ▸ List.take_prefix sep.length tail)
    rw [decode_size h hsize hn, List.drop_left, if_neg hnot, ite_self]

/-- Lines that are not empty, and the empty one. -/
theorem skipTrailers_lines {trailers : List (List α)} {fuel : Nat}
    (hfirst : ∀ line ∈ trailers,
      line ≠ [] ∧ ∀ rest, FirstLine sep line rest (line ++ (sep ++ rest)))
    (hempty : ∀ rest, FirstLine sep [] rest (sep ++ rest)) (hfuel : trailers.length < fuel)
    (rest : List α) :
    skipTrailers sep fuel (trailers.flatMap (fun t => t ++ sep) ++ (sep ++ rest)) = true := by
  induction trailers generalizing fuel with
  | nil =>
    obtain ⟨fuel, rfl⟩ : ∃ f, fuel = f + 1 := ⟨fuel - 1, by omega⟩
    exact skipTrailers_line (hempty rest)
  | cons t trailers ih =>
    obtain ⟨fuel, rfl⟩ : ∃ f, fuel = f + 1 := ⟨fuel - 1, by omega⟩
    obtain ⟨⟨-, hline⟩, hfirst⟩ := List.forall_mem_cons.mp hfirst
    rw [List.flatMap_cons, List.append_assoc, List.append_assoc, skipTrailers_line (hline _),
      ih hfirst (by simpa using hfuel), Bool.or_true]

/-- A body is shorter than the stream it is decoded from. -/
theorem length_decode (hsep : 0 < sep.length) {bytes b : List α}
    (h : decode sep lineSize fits fuel out bytes = some b) :
    b.length < out.length + bytes.length := by
  induction fuel generalizing out bytes with
  | zero => cases h
  | succ fuel ih =>
    cases hpos : position sep bytes with
    | none =>
      rw [decode_none hpos] at h
      cases h
    | some i =>
      have hfirst := firstLine_of_position hpos
      have hlen := congrArg List.length hfirst.data
      simp only [List.length_append] at hlen
      cases hsize : lineSize (bytes.take i) with
      | bad =>
        rw [decode_bad hfirst hsize] at h
        cases h
      | blank =>
        rw [decode_blank hfirst hsize] at h
        have hrest := ih h
        omega
      | size n =>
        by_cases hn : n = 0
        · subst hn
          rw [decode_last hfirst hsize] at h
          split_ifs at h
          cases h
          omega
        · rw [decode_size hfirst hsize hn] at h
          split_ifs at h
          have hrest := ih h
          simp only [List.length_append, List.length_take, List.length_drop] at hrest hlen
          omega

end Chunks
