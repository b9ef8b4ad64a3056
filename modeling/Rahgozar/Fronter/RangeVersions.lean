import Rahgozar.Fronter.RangeExact

set_option autoImplicit false

/-! # Versions in a download

An entity may change while it is downloaded. Each answer is right for the version that is current
when it is given; a chunk is accepted for its range and for the total alone. So a complete download
is a version exactly if every version that was current at one of its answers agrees with it there.
-/

namespace Rahgozar.Fronter.Range

open Proxy.Mitm (Headers)
open Http hiding slice
open Envelope
open Tiling (Tiles slice width)

/-- Each `206` is a slice of the version that is current at its call, and says so. -/
def FromVersions (version : Nat → List UInt8) (etag : List UInt8 → List Char)
    (calls : List Call) : Prop :=
  ∀ n call headers body, calls[n]? = some call →
    splitResponse call.reply = some (206, headers, body) →
    ("ETag".toList, etag (version n)) ∈ headers ∧
    ∃ range, parseContentRange headers = some range ∧ range.total = (version n).length ∧
      body = slice (range.start, range.stop) (version n)

/-- The ranges of a download, each with the number of the call it is from. -/
structure Sources (version : Nat → List UInt8) (req : Request) (calls : List Call)
    (total : Nat) (body : List UInt8) (sources : List ((Nat × Nat) × Nat)) : Prop where
  tiles : Tiles 0 (sources.map Prod.fst) total
  calls : ∀ p ∈ sources, ∃ call, calls[p.2]? = some call ∧
    (call.request = probeRequest req ∨ call.request = chunkRequest req p.1)
  totals : ∀ p ∈ sources, (version p.2).length = total
  body : body = sources.flatMap fun p => slice p.1 (version p.2)

section

variable {version : Nat → List UInt8} {etag : List UInt8 → List Char} {req : Request}
  {calls : List Call} {probe : Probe} {pieces : List Piece} {total : Nat} {body : List UInt8}
  {sources : List ((Nat × Nat) × Nat)}

/-- The body is a version exactly if all its sources agree with that version. -/
theorem Sources.eq_iff (h : Sources version req calls total body sources) (v : List UInt8) :
    body = v ↔ v.length = total ∧ ∀ p ∈ sources, slice p.1 (version p.2) = slice p.1 v := by
  have hmap : (sources.map fun p => (p.1, slice p.1 (version p.2))).map Prod.fst =
      sources.map Prod.fst := by
    rw [List.map_map]
    rfl
  have htiles := h.tiles
  rw [← hmap] at htiles
  have hlengths : ∀ p ∈ sources.map fun p => (p.1, slice p.1 (version p.2)),
      p.2.length = width p.1 := by
    intro q hq
    obtain ⟨p, hp, rfl⟩ := List.mem_map.mp hq
    have hlt := h.tiles.lt_of_mem (List.mem_map_of_mem hp)
    exact Tiling.length_slice (by rw [h.totals p hp]; exact hlt)
  have hbody : body = (sources.map fun p => (p.1, slice p.1 (version p.2))).flatMap Prod.snd := by
    rw [List.flatMap_map]
    exact h.body
  have hiff : v.length = total → (body = v ↔
      ∀ p ∈ sources, slice p.1 (version p.2) = slice p.1 v) := by
    rintro rfl
    have hsame := htiles.flatMap_eq_iff hlengths (le_refl v.length)
    rw [List.drop_zero, Nat.sub_zero, List.take_length, ← hbody, List.forall_mem_map] at hsame
    exact hsame
  constructor
  · rintro rfl
    have hlength : body.length = total := by
      have hsum := htiles.length_flatMap hlengths
      rwa [← hbody, Nat.zero_add] at hsum
    exact ⟨hlength, (hiff hlength).mp rfl⟩
  · rintro ⟨hlength, hagree⟩
    exact (hiff hlength).mpr hagree

/-- The call that a piece is from. -/
theorem Accepted.source {p : Piece} (h : Accepted req calls total p)
    (hversions : FromVersions version etag calls) :
    ∃ n call, calls[n]? = some call ∧ call.request = chunkRequest req p.1 ∧
      (version n).length = total ∧ p.2 = slice p.1 (version n) := by
  obtain ⟨call, hcall, hrequest, hbody⟩ := h
  obtain ⟨n, hn⟩ := List.mem_iff_getElem?.mp hcall
  obtain ⟨headers, range, hsplit, hrange, hstart, hstop, htotal, -⟩ :=
    extractExactRangeBody_eq_ok_iff.mp hbody
  obtain ⟨-, range', hrange', htotal', hslice⟩ := hversions n call headers p.2 hn hsplit
  rw [hrange] at hrange'
  obtain rfl := Option.some.inj hrange'
  rw [hstart, hstop] at hslice
  exact ⟨n, call, hn, hrequest, htotal'.symm.trans htotal, hslice⟩

theorem Probed.source (h : Probed req calls probe) (hversions : FromVersions version etag calls) :
    ∃ n call, calls[n]? = some call ∧ call.request = probeRequest req ∧
      (version n).length = probe.range.total ∧
      probe.body = slice (0, probe.range.stop) (version n) := by
  obtain ⟨call, hcall, hrequest, hsplit⟩ := h.call
  obtain ⟨n, hn⟩ := List.mem_iff_getElem?.mp hcall
  obtain ⟨-, range', hrange', htotal', hslice⟩ := hversions n call _ _ hn hsplit
  rw [h.range] at hrange'
  obtain rfl := Option.some.inj hrange'
  rw [h.start] at hslice
  exact ⟨n, call, hn, hrequest, htotal'.symm, hslice⟩

/-- Where the pieces of a download are from. -/
theorem Download.exists_sources (h : Download req calls probe pieces)
    (hall : pieces.map Prod.fst = probe.plan) (hversions : FromVersions version etag calls) :
    ∃ sources, Sources version req calls probe.range.total (probe.file pieces) sources := by
  obtain ⟨n, call, hcall, hrequest, htotal, hbody⟩ := h.probed.source hversions
  have hsource : ∀ p ∈ pieces, ∃ n, (version n).length = probe.range.total ∧
      p.2 = slice p.1 (version n) ∧
      ∃ call, calls[n]? = some call ∧ call.request = chunkRequest req p.1 := by
    intro p hp
    obtain ⟨n, call, hcall, hrequest, htotal, hslice⟩ := (h.accepted p hp).source hversions
    exact ⟨n, htotal, hslice, call, hcall, hrequest⟩
  choose! number hnumber using hsource
  refine ⟨((0, probe.range.stop), n) :: pieces.map fun p => (p.1, number p), ?_, ?_, ?_, ?_⟩
  · have hranges : (pieces.map fun p => (p.1, number p)).map Prod.fst = probe.plan := by
      rw [← hall, List.map_map]
      rfl
    rw [List.map_cons, hranges]
    exact h.tiles
  · rw [List.forall_mem_cons, List.forall_mem_map]
    refine ⟨⟨call, hcall, Or.inl hrequest⟩, fun p hp => ?_⟩
    obtain ⟨-, -, call, hcall, hrequest⟩ := hnumber p hp
    exact ⟨call, hcall, Or.inr hrequest⟩
  · rw [List.forall_mem_cons, List.forall_mem_map]
    exact ⟨htotal, fun p hp => (hnumber p hp).1⟩
  · rw [List.flatMap_cons, List.flatMap_map, ← hbody]
    unfold Probe.file
    rw [List.flatMap_congr fun p hp => (hnumber p hp).2.1]

/-- Where the bytes that were written are from: one call, or several whose versions may differ. Of
several, the body is one version exactly if all of them agree with it. -/
inductive Provenance (transformHead : List UInt8 → List UInt8) (version : Nat → List UInt8)
    (req : Request) (calls : List Call) (w : Writer) (written : List UInt8) : Prop where
  | unchanged (call : Call) (hcall : call ∈ calls)
      (hwritten : written = w.written ++ withHead transformHead call.reply)
  | refused (hwritten : written =
      w.written ++ withHead transformHead (errorResponse 502 tooLarge.toList))
  | probeOnly (call : Call) (hcall : call ∈ calls) (headers : Headers) (body head : List UInt8)
      (hsplit : splitResponse call.reply = some (206, headers, body))
      (hhead : Announces head body.length)
      (hwritten : written = w.written ++ (transformHead head ++ body))
  | ranges (head body : List UInt8) (sources : List ((Nat × Nat) × Nat))
      (hhead : Announces head body.length)
      (hwritten : written = w.written ++ (transformHead head ++ body))
      (hsources : Sources version req calls body.length body sources)
      (hiff : ∀ v, body = v ↔ v.length = body.length ∧
        ∀ p ∈ sources, slice p.1 (version p.2) = slice p.1 v)

theorem Download.provenance {transformHead : List UInt8 → List UInt8} {w : Writer}
    {written : List UInt8} (h : Download req calls probe pieces)
    (hall : pieces.map Prod.fst = probe.plan)
    (hwritten : written = w.written ++ (transformHead probe.head ++ probe.file pieces))
    (hversions : FromVersions version etag calls) :
    Provenance transformHead version req calls w written := by
  have hhead := h.head
  obtain ⟨sources, hsources⟩ := h.exists_sources hall hversions
  rw [← h.length hall] at hhead hsources
  exact .ranges probe.head (probe.file pieces) sources hhead hwritten hsources hsources.eq_iff

/-- A complete download in several ranges is, range by range, a slice of the version that was
current at the call it is from. -/
theorem download_version_iff (transformHead : List UInt8 → List UInt8) (streamingAllowed : Bool)
    (req : Request) (w : Writer) (version : Nat → List UInt8) (etag : List UInt8 → List Char)
    (events : List Event) (s : State)
    (hrun : StepRun.run (step transformHead streamingAllowed req) (begin req w) events = some s)
    (hdone : s.phase = .done (.ok ())) (hversions : FromVersions version etag s.calls) :
    Provenance transformHead version req s.calls w s.writer.written := by
  cases outcome_of_run hrun hdone with
  | unchanged call hcall hrequest hwrote => exact .unchanged call hcall (hwrote.all rfl)
  | refused hallowed hwrote => exact .refused (hwrote.all rfl)
  | probeOnly call hcall hrequest headers body head hsplit hhead hwrote =>
      exact .probeOnly call hcall headers body head hsplit hhead (hwrote.all rfl)
  | stitched probe pieces hdownload hall hlength hwrote =>
      exact hdownload.provenance hall (hwrote.all rfl) hversions
  | streamed hallowed probe pieces hdownload hpart hall =>
      obtain ⟨hplan, -, hwritten⟩ := hall rfl
      exact hdownload.provenance hplan hwritten hversions

end

/-! ## A change between two ranges -/

section

variable {transformHead : List UInt8 → List UInt8} {streamingAllowed : Bool} {req : Request}
  {w : Writer} {calls : List Call} {first second body chunk : List UInt8} {headers : Headers}
  {range : ContentRange} {probe : Probe} {items : List Item} {r : Nat × Nat} {next : Nat}

theorem validateProbeRange_of_match {requestedEnd : Nat}
    (hparse : parseContentRange headers = some range) (hstart : range.start = 0)
    (hstop : range.stop ≤ requestedEnd) (hlength : range.stop + 1 = body.length) :
    validateProbeRange 206 headers body requestedEnd = some range := by
  have hmatch : contentRangeMatchesBody range body.length = true :=
    contentRangeMatchesBody_iff.mpr (by omega)
  unfold validateProbeRange
  rw [if_neg (not_not.mpr rfl), hparse, Option.bind_some, if_neg (by omega),
    if_pos (Or.inl hmatch)]

/-- The first bytes of a larger entity are stitched to the others. -/
theorem step_probed (hfirst : splitResponse first = some (206, headers, body))
    (hparse : parseContentRange headers = some range) (hstart : range.start = 0)
    (hstop : range.stop + 1 = rangeParallelChunkBytes) (hlength : range.stop + 1 = body.length)
    (hmore : range.stop + 1 < range.total)
    (hbuffered : dispatchRangeResponse range.total streamingAllowed = .buffered) :
    step transformHead streamingAllowed req ⟨.probing, w, calls⟩ (.replied first) =
      some ⟨.fetching ⟨headers, body, range⟩ ⟨range.stop + 1, []⟩ (.stitch []), w,
        calls ++ [⟨probeRequest req, first⟩]⟩ := by
  have hnext : saturatingAdd range.stop 1 = range.stop + 1 := by
    have hsmall := range.small
    unfold saturatingAdd
    omega
  have hvalid : validateProbeRange 206 headers body (rangeParallelChunkBytes - 1) = some range :=
    validateProbeRange_of_match hparse hstart (by omega) hlength
  show some (State.probed _ _ _ _) = _
  unfold State.probed
  rw [hfirst]
  dsimp only
  rw [if_neg (not_not.mpr rfl), hvalid]
  dsimp only
  rw [if_neg (by omega), hbuffered]
  dsimp only [State.fetch]
  rw [hnext]
  rfl

theorem step_started (hplan : planRemainingRange rangeParallelChunkBytes probe.range.total
    (probe.range.stop + 1) = some (r, next)) :
    step transformHead streamingAllowed req
      ⟨.fetching probe ⟨probe.range.stop + 1, []⟩ (.stitch items), w, calls⟩ .started =
      some ⟨.fetching probe ⟨next, [⟨r, 0, none⟩]⟩ (.stitch items), w, calls⟩ := by
  unfold step
  dsimp only
  rw [if_pos (by decide), hplan]
  rfl

theorem step_accepted
    (hsecond : extractExactRangeBody second r.1 r.2 probe.range.total = .ok chunk) :
    step transformHead streamingAllowed req
      ⟨.fetching probe ⟨next, [⟨r, 0, none⟩]⟩ (.stitch items), w, calls⟩
      (.chunkReplied 0 second) =
      some ⟨.fetching probe ⟨next, [⟨r, 1, some (.ok chunk)⟩]⟩ (.stitch items), w,
        calls ++ [⟨chunkRequest req r, second⟩]⟩ := by
  have hanswer : Fetch.replied probe.range.total second ⟨r, 0, none⟩ =
      ⟨r, 1, some (.ok chunk)⟩ := by
    unfold Fetch.replied
    rw [hsecond]
  rw [← hanswer]
  rfl

theorem step_item : step transformHead streamingAllowed req
    ⟨.fetching probe ⟨next, [⟨r, 1, some (.ok chunk)⟩]⟩ (.stitch []), w, calls⟩ .next =
      some ⟨.fetching probe ⟨next, []⟩ (.stitch [(r, .ok chunk)]), w, calls⟩ := rfl

theorem step_exhausted (hlength : (probe.body ++ chunk).length = probe.range.total) :
    step transformHead streamingAllowed req
      ⟨.fetching probe ⟨probe.range.total, []⟩ (.stitch [(r, .ok chunk)]), w, calls⟩ .next =
      some (State.respond transformHead ⟨.single, w, calls⟩
        (assembleFull200 probe.headers (probe.body ++ chunk))) := by
  have hplan : planRemainingRange rangeParallelChunkBytes probe.range.total probe.range.total =
      none := planRemainingRange_eq_none_iff.mpr (le_refl _)
  unfold step
  dsimp only
  rw [hplan]
  dsimp only [State.exhausted, stitch]
  rw [if_neg (not_not.mpr hlength)]
  rfl

/-- The answers that a download in two ranges takes, and what it then delivers. -/
theorem run_two_ranges (hfirst : splitResponse first = some (206, headers, body))
    (hparse : parseContentRange headers = some range) (hstart : range.start = 0)
    (hstop : range.stop + 1 = rangeParallelChunkBytes) (hlength : range.stop + 1 = body.length)
    (hplan : planRemainingRange rangeParallelChunkBytes range.total (range.stop + 1) =
      some ((range.stop + 1, range.stop + 1), range.total))
    (hbuffered : dispatchRangeResponse range.total streamingAllowed = .buffered)
    (hsecond : extractExactRangeBody second (range.stop + 1) (range.stop + 1) range.total =
      .ok chunk) :
    StepRun.run (step transformHead streamingAllowed req) ⟨.probing, w, []⟩
        [.replied first, .started, .chunkReplied 0 second, .next, .next] =
      some (State.respond transformHead ⟨.single, w, [⟨probeRequest req, first⟩,
        ⟨chunkRequest req (range.stop + 1, range.stop + 1), second⟩]⟩
        (assembleFull200 headers (body ++ chunk))) := by
  have hmore : range.stop + 1 < range.total := by
    by_contra hle
    rw [planRemainingRange_eq_none_iff.mpr (by omega)] at hplan
    cases hplan
  have htotal : (body ++ chunk).length = range.total := by
    obtain ⟨-, -, -, -, -, -, -, hchunk⟩ := extractExactRangeBody_eq_ok_iff.mp hsecond
    obtain ⟨stop, hplan', -, -⟩ := planRemainingRange_of_lt hmore range.small
    rw [hplan] at hplan'
    obtain ⟨hsame, htotal⟩ := Prod.mk.inj (Option.some.inj hplan')
    have hsame := (Prod.mk.inj hsame).2
    rw [List.length_append]
    omega
  rw [StepRun.run_cons, step_probed hfirst hparse hstart hstop hlength hmore hbuffered,
    Option.bind_some, StepRun.run_cons, step_started hplan, Option.bind_some, StepRun.run_cons,
    step_accepted hsecond, Option.bind_some, StepRun.run_cons, step_item, Option.bind_some,
    StepRun.run_cons, step_exhausted htotal, Option.bind_some]
  rfl

end

/-- An entity of one byte more than a range, that changes behind the first call. -/
def changing : Nat → List UInt8
  | 0 => List.replicate 262145 97
  | _ + 1 => List.replicate 262145 98

/-- Its tag is its first byte. -/
def firstByte (v : List UInt8) : List Char := (v.head?.map fun b => Char.ofNat b.toNat).toList

def partialContent (contentRange etag : String) (body : List UInt8) : List UInt8 :=
  rawResponse 206 "Partial Content"
    [("Content-Range".toList, contentRange.toList), ("ETag".toList, etag.toList)] body

/-- The bytes that are the same in both ranges, and the one that is not. -/
def beforeChange : List UInt8 := List.replicate 262144 97

def getRequest : Request := ⟨"GET", "https://example.com/".toList, [], []⟩

theorem splitResponse_partialContent (contentRange etag : String)
    (hrange : OneLine contentRange.toList) (hetag : OneLine etag.toList)
    (hrangeTrim : Drive.trim contentRange.toList = contentRange.toList)
    (hetagTrim : Drive.trim etag.toList = etag.toList) (body : List UInt8) :
    splitResponse (partialContent contentRange etag body) =
      some (206, [("Content-Range".toList, contentRange.toList), ("ETag".toList, etag.toList),
        lengthHeader body.length], body) := by
  have hreason : OneLine "Partial Content".toList := ⟨by decide, by decide⟩
  have hname : OneLine "Content-Range".toList ∧ ':' ∉ "Content-Range".toList ∧
      Drive.trim "Content-Range".toList = "Content-Range".toList :=
    ⟨⟨by decide, by decide⟩, by decide, by decide⟩
  have htag : OneLine "ETag".toList ∧ ':' ∉ "ETag".toList ∧
      Drive.trim "ETag".toList = "ETag".toList :=
    ⟨⟨by decide, by decide⟩, by decide, by decide⟩
  unfold partialContent
  rw [splitResponse_rawResponse (by decide) hreason]
  · unfold trimHeaders
    rw [List.map_cons, List.map_cons, List.map_nil]
    dsimp only
    rw [hname.2.2, htag.2.2, hrangeTrim, hetagTrim]
    rfl
  · intro kv hkv
    rcases List.mem_cons.mp hkv with rfl | hkv
    · exact spaced_splittable ⟨hname.1, hrange, hname.2.1⟩
    · rw [List.mem_singleton.mp hkv]
      exact spaced_splittable ⟨htag.1, hetag, htag.2.1⟩

theorem beforeChange_ne (n : Nat) : beforeChange ++ [98] ≠ changing n := by
  intro heq
  cases n with
  | zero =>
      have hmem : (98 : UInt8) ∈ changing 0 := heq ▸ List.mem_append_right _ List.mem_cons_self
      exact absurd (List.eq_of_mem_replicate hmem) (by decide)
  | succ n =>
      have hfirst : (97 : UInt8) ∈ beforeChange := List.mem_replicate.mpr ⟨by decide, rfl⟩
      have hmem : (97 : UInt8) ∈ changing (n + 1) := heq ▸ List.mem_append_left _ hfirst
      exact absurd (List.eq_of_mem_replicate hmem) (by decide)

theorem slice_replicate (r : Nat × Nat) (n : Nat) (b : UInt8) :
    slice r (List.replicate n b) = List.replicate (min (width r) (n - r.1)) b := by
  unfold slice
  rw [List.drop_replicate, List.take_replicate]

theorem firstByte_replicate {n : Nat} (hn : n ≠ 0) (b : UInt8) :
    firstByte (List.replicate n b) = [Char.ofNat b.toNat] := by
  unfold firstByte
  rw [List.head?_replicate, if_neg hn]
  rfl

/-- A writer that does not fail gets the response. -/
theorem respond_sound {s : State} (h : s.writer = ⟨[], []⟩) (raw : List UInt8) :
    (s.respond id raw).phase = .done (.ok ()) ∧ (s.respond id raw).writer.written = raw := by
  have hwrote := wrote_response id s.writer raw
  rw [withHead_id] at hwrote
  have hok := (hwrote.sound (congrArg Writer.faults h)).1
  refine ⟨congrArg Phase.done hok, (hwrote.all hok).trans ?_⟩
  rw [h, List.nil_append]

/-- The entity changes between the probe and the chunk. -/
theorem exists_changing_run :
    ∃ events s, StepRun.run (step id false getRequest) (begin getRequest ⟨[], []⟩) events = some s ∧
      s.phase = .done (.ok ()) ∧ FromVersions changing firstByte s.calls ∧
      ∃ head, s.writer.written = head ++ (beforeChange ++ [98]) ∧
        Announces head (beforeChange ++ [98]).length := by
  have hlength : beforeChange.length = 262144 := List.length_replicate
  have hfirst := splitResponse_partialContent "bytes 0-262143/262145" "a"
    ⟨by decide, by decide⟩ ⟨by decide, by decide⟩ (by decide) (by decide) beforeChange
  have hsecond := splitResponse_partialContent "bytes 262144-262144/262145" "b"
    ⟨by decide, by decide⟩ ⟨by decide, by decide⟩ (by decide) (by decide) [98]
  rw [hlength] at hfirst
  have hrange : parseContentRange [("Content-Range".toList, "bytes 0-262143/262145".toList),
      ("ETag".toList, "a".toList), lengthHeader 262144] =
      some ⟨0, 262143, 262145, by decide, by decide, by decide⟩ := by decide +kernel
  have hrange' : parseContentRange [("Content-Range".toList, "bytes 262144-262144/262145".toList),
      ("ETag".toList, "b".toList), lengthHeader 1] =
      some ⟨262144, 262144, 262145, by decide, by decide, by decide⟩ := by decide +kernel
  -- the chunk fits the probe, whatever its tag
  have haccepted : extractExactRangeBody
      (partialContent "bytes 262144-262144/262145" "b" [98]) 262144 262144 262145 = .ok [98] :=
    extractExactRangeBody_eq_ok_iff.mpr ⟨_, _, hsecond, hrange', rfl, rfl, rfl, rfl⟩
  have hplan : planRemainingRange rangeParallelChunkBytes 262145 262144 =
      some ((262144, 262144), 262145) := by decide +kernel
  have hbuffered : dispatchRangeResponse 262145 false = .buffered := by decide +kernel
  have hrun : StepRun.run (step id false getRequest) (begin getRequest ⟨[], []⟩) _ = some _ :=
    run_two_ranges hfirst hrange rfl rfl hlength.symm hplan hbuffered haccepted
  obtain ⟨hdone, hwritten⟩ := respond_sound (s := ⟨.single, ⟨[], []⟩, _⟩) rfl _
  refine ⟨_, _, hrun, hdone, ?_, ?_⟩
  · -- the first call was answered from the one version, the second from the other
    intro n call headers body hcall hsplit
    cases n with
    | zero =>
        cases hcall
        rw [hfirst] at hsplit
        cases hsplit
        have htag : firstByte (changing 0) = "a".toList := firstByte_replicate (by decide) 97
        have hslice : slice (0, 262143) (changing 0) = beforeChange := slice_replicate _ _ _
        rw [htag]
        refine ⟨List.mem_cons_of_mem _ List.mem_cons_self, _, hrange, ?_, hslice.symm⟩
        exact List.length_replicate.symm
    | succ n =>
        cases n with
        | zero =>
            cases hcall
            rw [hsecond] at hsplit
            cases hsplit
            have htag : firstByte (changing 1) = "b".toList := firstByte_replicate (by decide) 98
            have hslice : slice (262144, 262144) (changing 1) = [98] := slice_replicate _ _ _
            rw [htag]
            refine ⟨List.mem_cons_of_mem _ List.mem_cons_self, _, hrange', ?_, hslice.symm⟩
            exact List.length_replicate.symm
        | succ n => cases hcall
  · have hannounces := announces_assemble200Head (carried_of_splitResponse hfirst)
      (beforeChange ++ [98]).length
    rw [hwritten, assembleFull200]
    exact ⟨_, rfl, hannounces⟩

theorem download_version_iff_changing :
    ∃ events s, StepRun.run (step id false getRequest) (begin getRequest ⟨[], []⟩) events = some s ∧
      Provenance id changing getRequest s.calls ⟨[], []⟩ s.writer.written := by
  obtain ⟨events, s, hrun, hdone, hversions, -⟩ := exists_changing_run
  exact ⟨events, s, hrun, download_version_iff id false getRequest ⟨[], []⟩ changing firstByte
    events s hrun hdone hversions⟩

/-- What is delivered then, complete and as one `200`, is neither version. -/
theorem changing_mixed :
    ∃ events s, StepRun.run (step id false getRequest) (begin getRequest ⟨[], []⟩) events = some s ∧
      s.phase = .done (.ok ()) ∧ FromVersions changing firstByte s.calls ∧
      ∃ head body, s.writer.written = head ++ body ∧ Announces head body.length ∧
        ∀ n, body ≠ changing n := by
  obtain ⟨events, s, hrun, hdone, hversions, head, hwritten, hhead⟩ := exists_changing_run
  exact ⟨events, s, hrun, hdone, hversions, head, _, hwritten, hhead, beforeChange_ne⟩

end Rahgozar.Fronter.Range
