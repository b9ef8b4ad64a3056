import Rahgozar.Fronter.Ranges
import Rahgozar.Fronter.RawResponse

set_option autoImplicit false

/-! # Heads that are made of a probe's headers

The headers of a response that was taken apart are trimmed and have no line feed, so a head that is
made of them is taken apart as it was meant: a `200` with one `Content-Length`.
-/

namespace Rahgozar.Fronter.Range

open Drive (splitOnce utf8 isWhitespace)
open Proxy (toAsciiLowercase)
open Proxy.Mitm (Headers crlf fromUtf8 parseHeaderLine eqIgnoreAsciiCase)
open Udpgw (utf8CharWidth isContinuation validSecond validSecond_iff)
open Segments (position)
open Http Envelope

/-! ## Headers that were taken apart -/

theorem eq_of_ofNat_eq_lf {n : Nat} (h : Char.ofNat n = '\n') : n = 10 := by
  by_cases hvalid : n.isValidChar
  · have hlf : (Char.ofNat n).toNat = 10 := by
      rw [h]
      rfl
    rw [Char.ofNat, dif_pos hvalid] at hlf
    have hn : (Char.ofNatAux n hvalid).toNat = n := rfl
    omega
  · rw [Char.ofNat, dif_neg hvalid] at h
    cases h

/-- The first character is one byte, or it is longer and not in ASCII. -/
theorem fromUtf8_first {b : UInt8} {bytes : List UInt8} {text : List Char}
    (h : fromUtf8 (b :: bytes) = some text) :
    ∃ k c tail, text = c :: tail ∧ fromUtf8 (bytes.drop k) = some tail ∧
      (c = Char.ofNat b.toNat ∨ ∃ n, 128 ≤ n ∧ c = Char.ofNat n) := by
  have hwidth : ∀ n, utf8CharWidth b = n → 2 ≤ n →
      n = 2 ∧ 0xC2 ≤ b.toNat ∧ b.toNat < 0xE0 ∨ n = 3 ∧ 0xE0 ≤ b.toNat ∧ b.toNat < 0xF0 ∨
        n = 4 ∧ 0xF0 ≤ b.toNat ∧ b.toNat < 0xF5 := by
    rintro n rfl hn
    unfold utf8CharWidth at hn ⊢
    split_ifs at hn ⊢ <;> omega
  unfold fromUtf8 at h
  split at h
  · obtain ⟨tail, htail, rfl⟩ := Option.map_eq_some_iff.mp h
    exact ⟨0, _, tail, rfl, htail, Or.inl rfl⟩
  · rename_i b1 r1 hw
    obtain ⟨-, h⟩ := Option.ite_none_right_eq_some.mp h
    obtain ⟨tail, htail, rfl⟩ := Option.map_eq_some_iff.mp h
    refine ⟨1, _, tail, rfl, htail, Or.inr ⟨_, ?_, rfl⟩⟩
    have := hwidth 2 hw (by omega)
    omega
  · rename_i b1 b2 r2 hw
    obtain ⟨hcont, h⟩ := Option.ite_none_right_eq_some.mp h
    obtain ⟨tail, htail, rfl⟩ := Option.map_eq_some_iff.mp h
    refine ⟨2, _, tail, rfl, htail, Or.inr ⟨_, ?_, rfl⟩⟩
    have hlead := hwidth 3 hw (by omega)
    obtain ⟨hsecond, hlong, -⟩ := (validSecond_iff b b1).mp ((Bool.and_eq_true _ _).mp hcont).1
    have hb1 := of_decide_eq_true ((Bool.and_eq_true _ _).mp hsecond).2
    omega
  · rename_i b1 b2 b3 r3 hw
    obtain ⟨hcont, h⟩ := Option.ite_none_right_eq_some.mp h
    obtain ⟨tail, htail, rfl⟩ := Option.map_eq_some_iff.mp h
    refine ⟨3, _, tail, rfl, htail, Or.inr ⟨_, ?_, rfl⟩⟩
    have hlead := hwidth 4 hw (by omega)
    obtain ⟨hsecond, -, -, hlong, -⟩ := (validSecond_iff b b1).mp
      ((Bool.and_eq_true _ _).mp ((Bool.and_eq_true _ _).mp hcont).1).1
    have hb1 := of_decide_eq_true ((Bool.and_eq_true _ _).mp hsecond).2
    omega
  · cases h

/-- A line feed is one byte. -/
theorem lf_mem_of_fromUtf8 {bytes : List UInt8} {text : List Char}
    (h : fromUtf8 bytes = some text) (hlf : '\n' ∈ text) : (10 : UInt8) ∈ bytes := by
  induction hn : bytes.length using Nat.strong_induction_on generalizing bytes text with
  | _ n ih =>
      cases bytes with
      | nil =>
          cases h
          cases hlf
      | cons b bytes =>
          obtain ⟨k, c, tail, rfl, htail, hc⟩ := fromUtf8_first h
          rw [List.length_cons] at hn
          rcases List.mem_cons.mp hlf with rfl | hlf
          · rcases hc with hb | ⟨n, hn, hc⟩
            · have hten : b.toNat = (10 : UInt8).toNat := eq_of_ofNat_eq_lf hb.symm
              rw [UInt8.toNat_inj.mp hten]
              exact List.mem_cons_self
            · have := eq_of_ofNat_eq_lf hc.symm
              omega
          · have hmem := ih _ (by rw [List.length_drop]; omega) htail hlf rfl
            exact List.mem_cons_of_mem b (List.mem_of_mem_drop hmem)

theorem not_mem_of_mem_splitOn {x : UInt8} {l piece : List UInt8} (h : piece ∈ l.splitOn x) :
    x ∉ piece := by
  induction l generalizing piece with
  | nil =>
      rw [List.splitOn_nil, List.mem_singleton] at h
      rw [h]
      exact List.not_mem_nil
  | cons y l ih =>
      rw [List.splitOn_cons_eq_if_modifyHead] at h
      split_ifs at h with hy
      · rcases List.mem_cons.mp h with rfl | h
        · exact List.not_mem_nil
        · exact ih h
      · obtain ⟨first, more, hsplit⟩ := List.exists_cons_of_ne_nil (List.splitOn_ne_nil x l)
        rw [hsplit, List.modifyHead_cons] at h
        rw [hsplit] at ih
        rcases List.mem_cons.mp h with rfl | h
        · have hfirst := ih List.mem_cons_self
          intro hmem
          rcases List.mem_cons.mp hmem with rfl | hmem
          · exact hy (beq_self_eq_true x)
          · exact hfirst hmem
        · exact ih (List.mem_cons_of_mem first h)

theorem splitOnce_eq_some {c : Char} {text k v : List Char}
    (h : splitOnce [c] text = some (k, v)) : c ∉ k ∧ text = k ++ c :: v := by
  induction text generalizing k with
  | nil => cases h
  | cons x text ih =>
      unfold splitOnce at h
      split_ifs at h with hpre
      · cases h
        have hx := (List.cons_prefix_cons.mp (List.isPrefixOf_iff_prefix.mp hpre)).1
        exact ⟨List.not_mem_nil, by rw [hx]; rfl⟩
      · obtain ⟨⟨k', v'⟩, hrest, heq⟩ := Option.map_eq_some_iff.mp h
        cases heq
        obtain ⟨hk, rfl⟩ := ih hrest
        refine ⟨fun hmem => ?_, rfl⟩
        rcases List.mem_cons.mp hmem with rfl | hmem
        · exact hpre (List.isPrefixOf_iff_prefix.mpr (List.prefix_append [c] _))
        · exact hk hmem

/-- A header of a response that was taken apart. -/
structure Carried (kv : List Char × List Char) : Prop where
  name : Drive.trim kv.1 = kv.1
  value : Drive.trim kv.2 = kv.2
  colon : ':' ∉ kv.1
  name_lf : '\n' ∉ kv.1
  value_lf : '\n' ∉ kv.2

theorem carried_of_parseHeaderLine {line : List Char} {kv : List Char × List Char}
    (hlf : '\n' ∉ line) (h : parseHeaderLine line = some kv) : Carried kv := by
  obtain ⟨⟨k, v⟩, hsplit, rfl⟩ := Option.map_eq_some_iff.mp h
  obtain ⟨hcolon, rfl⟩ := splitOnce_eq_some hsplit
  have hmem : ∀ {c : Char} {l : List Char}, c ∈ Drive.trim l → c ∈ l :=
    fun h => Trim.mem_of_mem_trim h
  refine ⟨Trim.trim_idem k, Trim.trim_idem v, fun h => hcolon (hmem h), fun h => ?_, fun h => ?_⟩
  · exact hlf (List.mem_append_left _ (hmem h))
  · exact hlf (List.mem_append_right _ (List.mem_cons_of_mem ':' (hmem h)))

theorem carried_of_splitResponse {raw body : List UInt8} {status : Nat} {headers : Headers}
    (h : splitResponse raw = some (status, headers, body)) : ∀ kv ∈ headers, Carried kv := by
  unfold splitResponse at h
  obtain ⟨sepPos, -, h⟩ := Option.bind_eq_some_iff.mp h
  split at h
  · cases h
  · rename_i statusLine lines hlines
    obtain ⟨first, -, h⟩ := Option.bind_eq_some_iff.mp h
    obtain ⟨code, -, h⟩ := Option.bind_eq_some_iff.mp h
    obtain ⟨texts, htexts, h⟩ := Option.map_eq_some_iff.mp h
    cases h
    intro kv hkv
    obtain ⟨line, hline, hparse⟩ := List.mem_filterMap.mp hkv
    obtain ⟨text, htext, rfl⟩ := List.mem_map.mp hline
    split_ifs at hparse
    have hlf : '\n' ∉ text := by
      intro hmem
      obtain ⟨bytes, hbytes, hfrom⟩ := Traverse.exists_of_mem_mapM htexts htext
      have hin : bytes ∈ (raw.take sepPos).splitOn 10 := hlines ▸ List.mem_cons_of_mem _ hbytes
      exact not_mem_of_mem_splitOn hin (lf_mem_of_fromUtf8 hfrom hmem)
    refine carried_of_parseHeaderLine (fun hmem => hlf ?_) hparse
    have hin := List.dropWhile_sublist _ |>.subset (List.mem_reverse.mp hmem)
    exact List.mem_reverse.mp hin

theorem Carried.splittable {kv : List Char × List Char} (h : Carried kv) :
    Splittable (spaced kv) := by
  obtain ⟨k, v⟩ := kv
  have hline : headerLine (spaced (k, v)) = k ++ ':' :: ' ' :: v := rfl
  have hspace : isWhitespace '\r' = true := by decide
  refine ⟨⟨fun hmem => ?_, ?_⟩, ?_, h.colon⟩
  · rw [hline] at hmem
    rcases List.mem_append.mp hmem with hmem | hmem
    · exact h.name_lf hmem
    · rcases List.mem_cons.mp hmem with heq | hmem
      · exact absurd heq (by decide)
      · rcases List.mem_cons.mp hmem with heq | hmem
        · exact absurd heq (by decide)
        · exact h.value_lf hmem
  · rw [hline]
    cases k with
    | nil => exact ⟨':', _, rfl, by decide⟩
    | cons c k =>
        refine ⟨c, _, rfl, ?_⟩
        rintro rfl
        have hhead : ∀ c ∈ (Drive.trim ('\r' :: k)).head?, isWhitespace c = false :=
          Trim.head?_trim ('\r' :: k)
        have hname : Drive.trim ('\r' :: k) = '\r' :: k := h.name
        rw [hname] at hhead
        rw [hhead '\r' rfl] at hspace
        cases hspace
  · rw [hline]
    rcases List.eq_nil_or_concat' v with rfl | ⟨v, c, rfl⟩
    · have hassoc : k ++ [':', ' '] = (k ++ [':']) ++ [' '] := by simp
      have hc : ' ' ≠ '\r' := by decide
      rw [hassoc]
      exact trimEndCr_concat _ hc
    · have hlast : ∀ c' ∈ (Drive.trim (v ++ [c])).getLast?, isWhitespace c' = false :=
        Trim.getLast?_trim (v ++ [c])
      have hvalue : Drive.trim (v ++ [c]) = v ++ [c] := h.value
      rw [hvalue, List.getLast?_concat] at hlast
      have hc : c ≠ '\r' := by
        rintro rfl
        rw [hlast '\r' rfl] at hspace
        cases hspace
      have hassoc : k ++ ':' :: ' ' :: (v ++ [c]) = (k ++ ':' :: ' ' :: v) ++ [c] := by simp
      rw [hassoc]
      exact trimEndCr_concat _ hc

/-! ## The head of a `200` -/

theorem assemble200Head_eq (headers : Headers) (n : Nat) :
    assemble200Head headers n =
      utf8 (joinLines (statusLine 200 "OK".toList)
        (((forwarded headers ++ [lengthHeader n]).map spaced).map headerLine)) ++
        (crlf ++ crlf) := by
  have hraw := rawResponse_eq 200 "OK" (forwarded headers) (List.replicate n 0)
  have hline : "HTTP/1.1 ".toList ++ Nat.toDigits 10 200 ++ ' ' :: "OK".toList ++ "\r\n".toList =
      "HTTP/1.1 200 OK\r\n".toList := by decide
  unfold rawResponse at hraw
  rw [hline, List.length_replicate, ← List.append_assoc _ (crlf ++ crlf)] at hraw
  exact List.append_cancel_right hraw

def isContentLength (kv : List Char × List Char) : Bool :=
  eqIgnoreAsciiCase kv.1 "content-length".toList

theorem isContentLength_forwarded {headers : Headers} {kv : List Char × List Char}
    (h : kv ∈ forwarded headers) : isContentLength kv = false := by
  have hlower : toAsciiLowercase "content-length".toList = "content-length".toList := by decide
  have hkept := (List.mem_filter.mp h).2
  refine Bool.eq_false_iff.mpr fun hname => ?_
  have hname : toAsciiLowercase kv.1 = "content-length".toList :=
    (of_decide_eq_true hname).trans hlower
  have hany : skippedIn200.any (fun s => s.toList = toAsciiLowercase kv.1) = true :=
    List.any_eq_true.mpr ⟨"content-length", by decide, decide_eq_true hname.symm⟩
  have hkept : (!skippedIn200.any fun s => s.toList = toAsciiLowercase kv.1) = true := hkept
  rw [hany] at hkept
  cases hkept

/-- The head of a `200` that announces a body of `n` bytes, in one header. -/
def Announces (head : List UInt8) (n : Nat) : Prop :=
  ∃ headers, (∀ body, splitResponse (head ++ body) = some (200, headers, body)) ∧
    headers.filter isContentLength = [lengthHeader n]

section

variable {headers : Headers} (hcarried : ∀ kv ∈ headers, Carried kv) (n : Nat)
include hcarried

theorem splittable_forwarded :
    ∀ kv ∈ (forwarded headers ++ [lengthHeader n]).map spaced, Splittable kv := by
  intro kv' hkv'
  obtain ⟨kv, hkv, rfl⟩ := List.mem_map.mp hkv'
  rcases List.mem_append.mp hkv with hkv | hkv
  · exact (hcarried kv (List.mem_filter.mp hkv).1).splittable
  · rw [List.mem_singleton.mp hkv]
    exact spaced_splittable (sendable_lengthHeader n)

theorem announces_assemble200Head : Announces (assemble200Head headers n) n := by
  have hok : OneLine "OK".toList := ⟨by decide, by decide⟩
  refine ⟨forwarded headers ++ [lengthHeader n], fun body => ?_, ?_⟩
  · have hsplit := splitResponse_joinLines (by decide : 200 < 2 ^ 16) hok
      (splittable_forwarded hcarried n) body
    have htrim : trimHeaders (forwarded headers) = forwarded headers := by
      refine (List.map_congr_left fun kv hkv => ?_).trans (List.map_id _)
      have hkept := hcarried kv (List.mem_filter.mp hkv).1
      exact Prod.ext hkept.name hkept.value
    rw [assemble200Head_eq, List.append_assoc, hsplit, trimHeaders_spaced, htrim]
  · have hname : eqIgnoreAsciiCase "Content-Length".toList "content-length".toList = true := by
      decide
    change isContentLength (lengthHeader n) = true at hname
    rw [List.filter_append, List.filter_eq_nil_iff.mpr, List.nil_append,
      List.filter_cons_of_pos hname, List.filter_nil]
    intro kv hkv
    rw [isContentLength_forwarded hkv]
    exact Bool.false_ne_true

/-- The head ends where it is meant to. -/
theorem position_assemble200Head (body : List UInt8) :
    (position (crlf ++ crlf) (assemble200Head headers n ++ body)).map (· + 4) =
      some (assemble200Head headers n).length := by
  have hok : OneLine "OK".toList := ⟨by decide, by decide⟩
  have hlines : ∀ line ∈ ((forwarded headers ++ [lengthHeader n]).map spaced).map headerLine,
      HeadLine line := by
    intro line hline
    obtain ⟨kv, hkv, rfl⟩ := List.mem_map.mp hline
    exact (splittable_forwarded hcarried n kv hkv).line
  have hpos := position_joinLines (oneLine_statusLine 200 hok).lf hlines body
  rw [assemble200Head_eq, List.append_assoc, hpos, List.length_append]
  rfl

end

end Rahgozar.Fronter.Range
