import Rahgozar.Fronter.RangeRelay

set_option autoImplicit false

/-! # Downloads in ranges are exact

Whatever `relay` answers, and in whatever order, a download ends in one of five ways: what a call
returned is delivered unchanged, or a refusal, or the probe alone as a `200`, or the probe and all
the chunks, stitched or streamed. A streamed download that ends early ends in an error.
-/

namespace Rahgozar.Fronter.Range

open Segments (position)
open Proxy.Mitm (Headers crlf)
open Http Envelope
open Tiling (Tiles width)

/-! ## Writers -/

/-- A call that writes bytes has written all of them, or, if it has failed, a part of them. Calls
fail only if the writer does. -/
structure Wrote (bytes : List UInt8) (w : Writer) (r : Written) : Prop where
  part : ∃ part, part <+: bytes ∧ r.1.written = w.written ++ part
  all : r.2 = .ok () → r.1.written = w.written ++ bytes
  sound : w.faults = [] → r.2 = .ok () ∧ r.1.faults = []

theorem wrote_writeAll (w : Writer) (bytes : List UInt8) : Wrote bytes w (w.writeAll bytes) := by
  unfold Writer.writeAll
  cases hfaults : w.faults with
  | nil => exact ⟨⟨bytes, List.prefix_refl bytes, rfl⟩, fun _ => rfl, fun _ => ⟨rfl, rfl⟩⟩
  | cons fault faults =>
      cases fault with
      | none =>
          refine ⟨⟨bytes, List.prefix_refl bytes, rfl⟩, fun _ => rfl, fun h => ?_⟩
          rw [hfaults] at h
          cases h
      | some n =>
          refine ⟨⟨bytes.take n, List.take_prefix n bytes, rfl⟩, fun h => ?_, fun h => ?_⟩
          · cases h
          · rw [hfaults] at h
            cases h

theorem Wrote.andThen {a b : List UInt8} {w : Writer} {first : Written} {next : Writer → Written}
    (ha : Wrote a w first) (hb : ∀ w, Wrote b w (next w)) :
    Wrote (a ++ b) w (first.andThen next) := by
  obtain ⟨w', result⟩ := first
  have hb := hb w'
  cases result with
  | ok u =>
      have hall : w'.written = w.written ++ a := ha.all rfl
      refine ⟨?_, fun h => ?_, fun h => hb.sound (ha.sound h).2⟩
      · obtain ⟨part, hpart, hwritten⟩ := hb.part
        refine ⟨a ++ part, (List.prefix_append_right_inj a).mpr hpart, ?_⟩
        rw [← List.append_assoc, ← hall]
        exact hwritten
      · rw [← List.append_assoc, ← hall]
        exact hb.all h
  | error e =>
      refine ⟨?_, fun h => ?_, fun h => ?_⟩
      · obtain ⟨part, hpart, hwritten⟩ := ha.part
        exact ⟨part, hpart.trans (List.prefix_append a b), hwritten⟩
      · cases h
      · cases (ha.sound h).1

/-- A response with its head transformed. -/
def withHead (transformHead : List UInt8 → List UInt8) (response : List UInt8) : List UInt8 :=
  match position (crlf ++ crlf) response with
  | none => response
  | some idx => transformHead (response.take (idx + 4)) ++ response.drop (idx + 4)

theorem wrote_response (transformHead : List UInt8 → List UInt8) (w : Writer)
    (response : List UInt8) : Wrote (withHead transformHead response) w
      (writeResponseWithHeadTransform transformHead w response) := by
  unfold withHead writeResponseWithHeadTransform
  cases position (crlf ++ crlf) response with
  | none => exact wrote_writeAll w response
  | some idx => exact (wrote_writeAll w _).andThen fun w => wrote_writeAll w _

theorem withHead_id (response : List UInt8) : withHead id response = response := by
  unfold withHead
  cases position (crlf ++ crlf) response with
  | none => rfl
  | some idx => exact List.take_append_drop _ _

theorem withHead_assembled (transformHead : List UInt8 → List UInt8) {headers : Headers}
    (hcarried : ∀ kv ∈ headers, Carried kv) (n : Nat) (body : List UInt8) :
    withHead transformHead (assemble200Head headers n ++ body) =
      transformHead (assemble200Head headers n) ++ body := by
  obtain ⟨idx, hidx, hlength⟩ :=
    Option.map_eq_some_iff.mp (position_assemble200Head hcarried n body)
  unfold withHead
  rw [hidx]
  dsimp only
  rw [hlength, List.take_left, List.drop_left]

/-! ## Downloads -/

abbrev Piece := (Nat × Nat) × List UInt8

/-- A call for this range was answered with exactly these bytes of it. -/
def Accepted (req : Request) (calls : List Call) (total : Nat) (p : Piece) : Prop :=
  ∃ call ∈ calls, call.request = chunkRequest req p.1 ∧
    extractExactRangeBody call.reply p.1.1 p.1.2 total = .ok p.2

/-- The probe was answered with the first bytes of a larger entity. -/
structure Probed (req : Request) (calls : List Call) (probe : Probe) : Prop where
  call : ∃ call ∈ calls, call.request = probeRequest req ∧
    splitResponse call.reply = some (206, probe.headers, probe.body)
  range : parseContentRange probe.headers = some probe.range
  start : probe.range.start = 0
  length : probe.body.length = probe.range.stop + 1
  more : probe.range.stop + 1 < probe.range.total

/-- The ranges behind the probe. -/
def Probe.plan (probe : Probe) : List (Nat × Nat) :=
  planRemainingRanges probe.range.total (probe.range.stop + 1)

def Probe.file (probe : Probe) (pieces : List Piece) : List UInt8 :=
  probe.body ++ pieces.flatMap Prod.snd

def Probe.head (probe : Probe) : List UInt8 :=
  assemble200Head probe.headers probe.range.total

/-- Pieces of an entity: its ranges follow on each other from the first byte to the last, and each
piece is as long as its range. -/
structure Download (req : Request) (calls : List Call) (probe : Probe) (pieces : List Piece) :
    Prop where
  probed : Probed req calls probe
  tiles : Tiles 0 ((0, probe.range.stop) :: probe.plan) probe.range.total
  begun : pieces.map Prod.fst <+: probe.plan
  accepted : ∀ p ∈ pieces, Accepted req calls probe.range.total p
  lengths : ∀ p ∈ pieces, p.2.length = width p.1
  head : Announces probe.head probe.range.total

/-- How a download ends. -/
inductive Outcome (transformHead : List UInt8 → List UInt8) (streamingAllowed : Bool)
    (req : Request) (calls : List Call) (w : Writer) (r : Written) : Prop where
  | unchanged (call : Call) (hcall : call ∈ calls)
      (hrequest : call.request = req ∨ call.request = probeRequest req ∧
        ∀ headers body, splitResponse call.reply ≠ some (206, headers, body))
      (hwrote : Wrote (withHead transformHead call.reply) w r)
  | refused (hallowed : streamingAllowed = true)
      (hwrote : Wrote (withHead transformHead (errorResponse 502 tooLarge.toList)) w r)
  | probeOnly (call : Call) (hcall : call ∈ calls) (hrequest : call.request = probeRequest req)
      (headers : Headers) (body head : List UInt8)
      (hsplit : splitResponse call.reply = some (206, headers, body))
      (hhead : Announces head body.length) (hwrote : Wrote (transformHead head ++ body) w r)
  | stitched (probe : Probe) (pieces : List Piece) (hdownload : Download req calls probe pieces)
      (hall : pieces.map Prod.fst = probe.plan)
      (hlength : (probe.file pieces).length = probe.range.total)
      (hwrote : Wrote (transformHead probe.head ++ probe.file pieces) w r)
  | streamed (hallowed : streamingAllowed = true) (probe : Probe) (pieces : List Piece)
      (hdownload : Download req calls probe pieces)
      (hpart : ∃ part, part <+: transformHead probe.head ++ probe.file pieces ∧
        r.1.written = w.written ++ part)
      (hall : r.2 = .ok () → pieces.map Prod.fst = probe.plan ∧
        (probe.file pieces).length = probe.range.total ∧
        r.1.written = w.written ++ (transformHead probe.head ++ probe.file pieces))

section

variable {req : Request} {calls calls' : List Call} {probe : Probe} {pieces : List Piece}

theorem Accepted.mono {total : Nat} {p : Piece} (hsub : calls ⊆ calls')
    (h : Accepted req calls total p) : Accepted req calls' total p := by
  obtain ⟨call, hcall, hboth⟩ := h
  exact ⟨call, hsub hcall, hboth⟩

theorem Accepted.length {total : Nat} {p : Piece} (h : Accepted req calls total p) :
    p.2.length = width p.1 := by
  obtain ⟨call, -, -, hbody⟩ := h
  obtain ⟨headers, range, -, -, hstart, hstop, -, hlength⟩ :=
    extractExactRangeBody_eq_ok_iff.mp hbody
  have hle := range.le
  unfold width
  omega

theorem Probed.mono (hsub : calls ⊆ calls') (h : Probed req calls probe) :
    Probed req calls' probe := by
  obtain ⟨call, hcall, hboth⟩ := h.call
  exact ⟨⟨call, hsub hcall, hboth⟩, h.range, h.start, h.length, h.more⟩

theorem Probed.carried (h : Probed req calls probe) : ∀ kv ∈ probe.headers, Carried kv := by
  obtain ⟨call, -, -, hsplit⟩ := h.call
  exact carried_of_splitResponse hsplit

theorem Probed.download (h : Probed req calls probe) (hbegun : pieces.map Prod.fst <+: probe.plan)
    (haccepted : ∀ p ∈ pieces, Accepted req calls probe.range.total p) :
    Download req calls probe pieces where
  probed := h
  tiles := ⟨rfl, Nat.zero_le _, tiles_planRemainingRanges h.more.le probe.range.small⟩
  begun := hbegun
  accepted := haccepted
  lengths := fun p hp => (haccepted p hp).length
  head := announces_assemble200Head h.carried _

/-- All the pieces are the whole entity. -/
theorem Download.length (h : Download req calls probe pieces)
    (hall : pieces.map Prod.fst = probe.plan) :
    (probe.file pieces).length = probe.range.total := by
  have htiles : Tiles (probe.range.stop + 1) probe.plan probe.range.total :=
    tiles_planRemainingRanges h.probed.more.le probe.range.small
  rw [← hall] at htiles
  have hlength := htiles.length_flatMap h.lengths
  unfold Probe.file
  rw [List.length_append, h.probed.length]
  exact hlength

end

/-! ## The chunks in flight -/

/-- The chunks that came out, those in flight, and those that are still planned are the plan. -/
structure Fetched (req : Request) (calls : List Call) (probe : Probe) (chunks : Chunks)
    (items : List Item) : Prop where
  plan : items.map Prod.fst ++ chunks.inFlight.map Fetch.range ++
    planRemainingRanges probe.range.total chunks.next = probe.plan
  items : ∀ item ∈ items, ∀ body, item.2 = .ok body →
    Accepted req calls probe.range.total (item.1, body)
  flying : ∀ f ∈ chunks.inFlight, ∀ body, f.result = some (.ok body) →
    Accepted req calls probe.range.total (f.range, body)

section

variable {req : Request} {calls calls' : List Call} {probe : Probe} {chunks : Chunks}
  {items : List Item}

theorem fetched_begin (h : Probed req calls probe) :
    Fetched req calls probe ⟨saturatingAdd probe.range.stop 1, []⟩ [] := by
  have hnext : saturatingAdd probe.range.stop 1 = probe.range.stop + 1 := by
    have hmore := h.more
    have hsmall := probe.range.small
    unfold saturatingAdd
    omega
  refine ⟨?_, fun item hitem => ?_, fun f hf => ?_⟩
  · rw [hnext]
    rfl
  · cases hitem
  · cases hf

theorem Fetched.started (h : Fetched req calls probe chunks items) {range : Nat × Nat} {next : Nat}
    (hplan : planRemainingRange rangeParallelChunkBytes probe.range.total chunks.next =
      some (range, next)) :
    Fetched req calls probe ⟨next, chunks.inFlight ++ [⟨range, 0, none⟩]⟩ items := by
  refine ⟨?_, h.items, fun f hf body hbody => ?_⟩
  · rw [← h.plan, planRemainingRanges_cons probe.range.small hplan, List.map_append]
    simp
  · rcases List.mem_append.mp hf with hf | hf
    · exact h.flying f hf body hbody
    · rw [List.mem_singleton.mp hf] at hbody
      cases hbody

theorem Fetch.replied_range (total : Nat) (raw : List UInt8) (f : Fetch) :
    (f.replied total raw).range = f.range := by
  unfold Fetch.replied
  split
  · rfl
  · split_ifs
    · rfl
    · rfl

theorem Fetch.replied_eq_ok {total : Nat} {raw body : List UInt8} {f : Fetch}
    (h : (f.replied total raw).result = some (.ok body)) :
    extractExactRangeBody raw f.range.1 f.range.2 total = .ok body := by
  unfold Fetch.replied at h
  split at h
  · rename_i body' hbody
    cases h
    exact hbody
  · split_ifs at h
    cases h

theorem Fetched.replied (h : Fetched req calls probe chunks items) {i : Nat} {f : Fetch}
    (hf : chunks.inFlight[i]? = some f) (raw : List UInt8) :
    Fetched req (calls ++ [⟨chunkRequest req f.range, raw⟩]) probe
      ⟨chunks.next, chunks.inFlight.set i (f.replied probe.range.total raw)⟩ items := by
  have hsub : calls ⊆ calls ++ [⟨chunkRequest req f.range, raw⟩] := List.subset_append_left _ _
  refine ⟨?_, fun item hitem body hbody => (h.items item hitem body hbody).mono hsub,
    fun g hg body hbody => ?_⟩
  · have hsame : (chunks.inFlight.set i (f.replied probe.range.total raw)).map Fetch.range =
        chunks.inFlight.map Fetch.range := by
      obtain ⟨hi, hget⟩ := List.getElem?_eq_some_iff.mp hf
      have hi' : i < (chunks.inFlight.map Fetch.range).length := by rwa [List.length_map]
      have hrange : f.range = (chunks.inFlight.map Fetch.range)[i] := by
        rw [List.getElem_map, hget]
      rw [List.map_set, Fetch.replied_range, hrange, List.set_getElem_self]
    dsimp only
    rw [hsame]
    exact h.plan
  · rcases List.mem_or_eq_of_mem_set hg with hg | rfl
    · exact (h.flying g hg body hbody).mono hsub
    · rw [Fetch.replied_range]
      exact ⟨_, List.mem_append_right _ List.mem_cons_self, rfl, Fetch.replied_eq_ok hbody⟩

theorem Fetched.item (h : Fetched req calls probe chunks items) {range : Nat × Nat} {attempts : Nat}
    {result : Except String (List UInt8)} {more : List Fetch}
    (hflight : chunks.inFlight = ⟨range, attempts, some result⟩ :: more) :
    Fetched req calls probe ⟨chunks.next, more⟩ (items ++ [(range, result)]) := by
  have hplan := h.plan
  have hflying := h.flying
  rw [hflight] at hplan hflying
  obtain ⟨hfirst, hmore⟩ := List.forall_mem_cons.mp hflying
  refine ⟨?_, fun item hitem body hbody => ?_, hmore⟩
  · rw [← hplan]
    simp
  · rcases List.mem_append.mp hitem with hitem | hitem
    · exact h.items item hitem body hbody
    · rw [List.mem_singleton.mp hitem] at hbody ⊢
      exact hfirst body (congrArg some hbody)

/-- When there is no chunk left, all have come out. -/
theorem Fetched.exhausted (h : Fetched req calls probe chunks items)
    (hflight : chunks.inFlight = [])
    (hplan : planRemainingRange rangeParallelChunkBytes probe.range.total chunks.next = none) :
    items.map Prod.fst = probe.plan := by
  have hall := h.plan
  rw [hflight, planRemainingRanges_nil (planRemainingRange_eq_none_iff.mp hplan)] at hall
  simpa using hall

end

/-! ## Runs -/

def Piece.item (p : Piece) : Item := (p.1, .ok p.2)

section

variable {transformHead : List UInt8 → List UInt8} {streamingAllowed : Bool} {req : Request}
  {w : Writer}

/-- What is known of a state of a download to the writer `w`. -/
def Inv (transformHead : List UInt8 → List UInt8) (streamingAllowed : Bool) (req : Request)
    (w : Writer) (s : State) : Prop :=
  match s.phase with
  | .probing => s.writer = w
  | .single => s.writer = w
  | .fetching probe chunks (.stitch items) =>
      s.writer = w ∧ Probed req s.calls probe ∧ Fetched req s.calls probe chunks items
  | .fetching probe chunks .stream =>
      streamingAllowed = true ∧ Probed req s.calls probe ∧ ∃ pieces : List Piece,
        Fetched req s.calls probe chunks (pieces.map Piece.item) ∧
        s.writer.written = w.written ++ (transformHead probe.head ++ probe.file pieces)
  | .done result => Outcome transformHead streamingAllowed req s.calls w (s.writer, result)

theorem inv_begin : Inv transformHead streamingAllowed req w (begin req w) := by
  unfold begin
  split_ifs
  · rfl
  · rfl

theorem inv_respond {s : State} {raw : List UInt8}
    (h : Outcome transformHead streamingAllowed req s.calls w
      (writeResponseWithHeadTransform transformHead s.writer raw)) :
    Inv transformHead streamingAllowed req w (s.respond transformHead raw) := h

theorem inv_unchanged {s : State} (hw : s.writer = w) {call : Call} (hcall : call ∈ s.calls)
    (hrequest : call.request = req ∨ call.request = probeRequest req ∧
      ∀ headers body, splitResponse call.reply ≠ some (206, headers, body)) :
    Inv transformHead streamingAllowed req w (s.respond transformHead call.reply) := by
  subst hw
  exact inv_respond (.unchanged call hcall hrequest
    (wrote_response transformHead s.writer call.reply))

/-- The pieces that came out are pieces of a download. -/
theorem Fetched.download {calls : List Call} {probe : Probe} {chunks : Chunks}
    {pieces : List Piece} (hprobed : Probed req calls probe)
    (h : Fetched req calls probe chunks (pieces.map Piece.item)) :
    Download req calls probe pieces := by
  have hplan := h.plan
  rw [List.map_map, List.append_assoc] at hplan
  refine hprobed.download ⟨_, hplan⟩ fun p hp => ?_
  exact h.items p.item (List.mem_map_of_mem hp) p.2 rfl

/-- A part of what a streamed download writes. -/
theorem streamed_part {calls : List Call} {probe : Probe} {pieces : List Piece} {r : Written}
    {part : List UInt8} (hallowed : streamingAllowed = true)
    (hdownload : Download req calls probe pieces)
    (hpart : part <+: transformHead probe.head ++ probe.file pieces)
    (hwritten : r.1.written = w.written ++ part) (hfailed : r.2 ≠ .ok ()) :
    Outcome transformHead streamingAllowed req calls w r :=
  .streamed hallowed probe pieces hdownload ⟨part, hpart, hwritten⟩ fun hok => absurd hok hfailed

theorem inv_stream {s : State} {probe : Probe} (hw : s.writer = w)
    (hallowed : streamingAllowed = true) (hprobed : Probed req s.calls probe) :
    Inv transformHead streamingAllowed req w (s.stream transformHead probe) := by
  have hfetched := fetched_begin hprobed
  have hfile : transformHead probe.head ++ probe.body ++ [] =
      transformHead probe.head ++ probe.file [] := by
    unfold Probe.file
    rw [List.append_nil, List.flatMap_nil, List.append_nil]
  have hwrites : ∀ head, head = transformHead probe.head →
      Wrote (transformHead probe.head ++ probe.file []) s.writer
        (((s.writer.writeAll head).andThen fun w => w.writeAll probe.body).andThen
          Writer.flush) := by
    rintro head rfl
    rw [← hfile]
    exact ((wrote_writeAll s.writer _).andThen fun w => wrote_writeAll w probe.body).andThen
      fun w => wrote_writeAll w []
  have hwrote := hwrites (transformHead (assemble200Head probe.headers probe.range.total)) rfl
  subst hw
  unfold State.stream
  dsimp only
  generalize Written.andThen _ Writer.flush = r at hwrote ⊢
  obtain ⟨w', result⟩ := r
  cases result with
  | ok u => exact ⟨hallowed, hprobed, [], hfetched, hwrote.all rfl⟩
  | error e =>
      have hdownload : Download req s.calls probe [] := hfetched.download hprobed
      obtain ⟨part, hpart, hwritten⟩ := hwrote.part
      exact streamed_part hallowed hdownload hpart hwritten (by simp)

theorem allowed_of_dispatch {total : Nat}
    (h : dispatchRangeResponse total streamingAllowed = .stream ∨
      dispatchRangeResponse total streamingAllowed = .rejectTooLarge) :
    streamingAllowed = true := by
  unfold dispatchRangeResponse at h
  split_ifs at h with htoo hstream
  · exact htoo.1
  · exact hstream.1
  · simp at h
  · simp at h

/-- The answer to the probe is taken. -/
theorem inv_probed {s : State} (hw : s.writer = w) {call : Call} (hcall : call ∈ s.calls)
    (hrequest : call.request = probeRequest req) :
    Inv transformHead streamingAllowed req w
      (s.probed transformHead streamingAllowed call.reply) := by
  unfold State.probed
  cases hsplit : splitResponse call.reply with
  | none =>
      refine inv_unchanged hw hcall (Or.inr ⟨hrequest, fun headers body h => ?_⟩)
      rw [hsplit] at h
      cases h
  | some parts =>
      obtain ⟨status, headers, body⟩ := parts
      dsimp only
      by_cases hstatus : status = 206
      · subst hstatus
        rw [if_neg (not_not.mpr rfl)]
        cases hrange : validateProbeRange 206 headers body (rangeParallelChunkBytes - 1) with
        | none => exact hw
        | some range =>
            obtain ⟨hparsed, hstart, hlength⟩ := validateProbeRange_eq_some hrange
            dsimp only
            -- the probe has brought the whole file
            by_cases hwhole : range.total ≤ rangeParallelChunkBytes ∨ range.total ≤ range.stop + 1
            · have hraw : rewrite206To200 call.reply = assembleFull200 headers body := by
                unfold rewrite206To200
                rw [hsplit]
              have hcarried := carried_of_splitResponse hsplit
              have hwrote := wrote_response transformHead s.writer (assembleFull200 headers body)
              rw [if_pos hwhole, hraw]
              rw [assembleFull200, withHead_assembled transformHead hcarried] at hwrote
              subst hw
              exact inv_respond (.probeOnly call hcall hrequest headers body _ hsplit
                (announces_assemble200Head hcarried _) hwrote)
            · rw [if_neg hwhole]
              push Not at hwhole
              -- the probe has brought the first chunk only
              have hprobed : Probed req s.calls ⟨headers, body, range⟩ := by
                refine ⟨⟨call, hcall, hrequest, hsplit⟩, hparsed, hstart, hlength ?_, hwhole.2⟩
                have hchunk : 0 < rangeParallelChunkBytes := by decide
                omega
              cases hdispatch : dispatchRangeResponse range.total streamingAllowed with
              | stream => exact inv_stream hw (allowed_of_dispatch (Or.inl hdispatch)) hprobed
              | fallbackSingleGet => exact hw
              | rejectTooLarge =>
                  subst hw
                  exact inv_respond (.refused (allowed_of_dispatch (Or.inr hdispatch))
                    (wrote_response transformHead s.writer _))
              | buffered => exact ⟨hw, hprobed, fetched_begin hprobed⟩
      · rw [if_pos hstatus]
        refine inv_unchanged hw hcall (Or.inr ⟨hrequest, fun headers' body' h => ?_⟩)
        rw [hsplit] at h
        cases h
        exact hstatus rfl

/-- The bodies of the pieces, in order. -/
theorem stitch_eq_some {full full' : List UInt8} {items : List Item}
    (h : stitch full items = some full') :
    ∃ pieces : List Piece, items = pieces.map Piece.item ∧
      full' = full ++ pieces.flatMap Prod.snd := by
  induction items generalizing full with
  | nil =>
      cases h
      exact ⟨[], rfl, by rw [List.flatMap_nil, List.append_nil]⟩
  | cons item items ih =>
      obtain ⟨range, result⟩ := item
      cases result with
      | error reason => cases h
      | ok chunk =>
          obtain ⟨pieces, rfl, rfl⟩ := ih h
          exact ⟨(range, chunk) :: pieces, rfl, by rw [List.flatMap_cons, List.append_assoc]⟩

/-- All the chunks have come out. -/
theorem inv_exhausted {s : State} {probe : Probe} {chunks : Chunks} {sink : Sink}
    (hphase : s.phase = .fetching probe chunks sink)
    (h : Inv transformHead streamingAllowed req w s) (hflight : chunks.inFlight = [])
    (hplan : planRemainingRange rangeParallelChunkBytes probe.range.total chunks.next = none) :
    Inv transformHead streamingAllowed req w (s.exhausted transformHead probe sink) := by
  unfold Inv at h
  rw [hphase] at h
  cases sink with
  | stitch items =>
      obtain ⟨hw, hprobed, hfetched⟩ := h
      unfold State.exhausted
      dsimp only
      cases hstitch : stitch probe.body items with
      | none => exact hw
      | some full =>
          dsimp only
          by_cases hlength : full.length = probe.range.total
          · rw [if_neg (not_not.mpr hlength)]
            obtain ⟨pieces, rfl, rfl⟩ := stitch_eq_some hstitch
            have hall := hfetched.exhausted hflight hplan
            rw [List.map_map] at hall
            have hwrote := wrote_response transformHead s.writer
              (assembleFull200 probe.headers (probe.file pieces))
            have hdownload := hfetched.download hprobed
            have hlength := hdownload.length hall
            rw [assembleFull200, withHead_assembled transformHead hprobed.carried, hlength]
              at hwrote
            subst hw
            refine inv_respond (.stitched probe pieces hdownload hall hlength ?_)
            rw [assembleFull200]
            change Wrote _ _ (writeResponseWithHeadTransform transformHead s.writer
              (assemble200Head probe.headers (probe.file pieces).length ++ probe.file pieces))
            rw [hlength]
            exact hwrote
          · rw [if_pos hlength]
            exact hw
  | stream =>
      obtain ⟨hallowed, hprobed, pieces, hfetched, hwritten⟩ := h
      have hall := hfetched.exhausted hflight hplan
      rw [List.map_map] at hall
      have hdownload := hfetched.download hprobed
      exact .streamed hallowed probe pieces hdownload ⟨_, List.prefix_refl _, hwritten⟩
        fun _ => ⟨hall, hdownload.length hall, hwritten⟩

/-- The next chunk has come out. -/
theorem inv_item {s : State} {probe : Probe} {chunks : Chunks} {sink : Sink} {range : Nat × Nat}
    {attempts : Nat} {result : Except String (List UInt8)} {more : List Fetch}
    (hphase : s.phase = .fetching probe chunks sink)
    (h : Inv transformHead streamingAllowed req w s)
    (hflight : chunks.inFlight = ⟨range, attempts, some result⟩ :: more) :
    Inv transformHead streamingAllowed req w
      (s.item probe ⟨chunks.next, more⟩ sink (range, result)) := by
  unfold Inv at h
  rw [hphase] at h
  cases sink with
  | stitch items =>
      obtain ⟨hw, hprobed, hfetched⟩ := h
      exact ⟨hw, hprobed, hfetched.item hflight⟩
  | stream =>
      obtain ⟨hallowed, hprobed, pieces, hfetched, hwritten⟩ := h
      have hitem := hfetched.item hflight
      cases result with
      | error reason =>
          -- nothing more is written: the client has the chunks so far
          have hdownload := hfetched.download hprobed
          obtain ⟨part, hpart, hflushed⟩ := (wrote_writeAll s.writer []).part
          obtain rfl := List.prefix_nil.mp hpart
          rw [List.append_nil, hwritten] at hflushed
          exact streamed_part hallowed hdownload (List.prefix_refl _) hflushed (by simp)
      | ok chunk =>
          have hmore : pieces.map Piece.item ++ [(range, .ok chunk)] =
              (pieces ++ [(range, chunk)]).map Piece.item := by
            rw [List.map_append]
            rfl
          have hfile : transformHead probe.head ++ probe.file (pieces ++ [(range, chunk)]) =
              (transformHead probe.head ++ probe.file pieces) ++ chunk := by
            unfold Probe.file
            simp
          rw [hmore] at hitem
          have hwrote := wrote_writeAll s.writer chunk
          unfold State.item
          dsimp only
          generalize s.writer.writeAll chunk = r at hwrote ⊢
          obtain ⟨w', result⟩ := r
          cases result with
          | ok u =>
              refine ⟨hallowed, hprobed, pieces ++ [(range, chunk)], hitem, ?_⟩
              rw [hfile, ← List.append_assoc, ← hwritten]
              exact hwrote.all rfl
          | error e =>
              have hdownload : Download req s.calls probe (pieces ++ [(range, chunk)]) :=
                hitem.download hprobed
              -- a part of the chunk may have been written
              obtain ⟨part, hpart, hpartly⟩ := hwrote.part
              rw [hwritten, List.append_assoc] at hpartly
              refine streamed_part hallowed hdownload ?_ hpartly (by simp)
              rw [hfile]
              exact (List.prefix_append_right_inj _).mpr hpart

theorem inv_step {s t : State} {event : Event} (h : Inv transformHead streamingAllowed req w s)
    (hstep : step transformHead streamingAllowed req s event = some t) :
    Inv transformHead streamingAllowed req w t := by
  obtain ⟨phase, writer, calls⟩ := s
  -- a reply is on record from the step on that takes it
  have hlast : ∀ (s : State) request raw, Call.mk request raw ∈ (s.called request raw).calls :=
    fun s request raw => List.mem_append_right _ List.mem_cons_self
  cases event with
  | replied raw =>
      cases phase with
      | probing =>
          cases hstep
          have hcall := hlast ⟨.probing, writer, calls⟩ (probeRequest req) raw
          have hw : (State.called ⟨.probing, writer, calls⟩ (probeRequest req) raw).writer = w := h
          exact inv_probed hw hcall rfl
      | single =>
          cases hstep
          have hcall := hlast ⟨.single, writer, calls⟩ req raw
          have hw : (State.called ⟨.single, writer, calls⟩ req raw).writer = w := h
          exact inv_unchanged hw hcall (Or.inl rfl)
      | fetching probe chunks sink => cases hstep
      | done result => cases hstep
  | started =>
      cases phase with
      | fetching probe chunks sink =>
          obtain ⟨-, hstep⟩ := Option.ite_none_right_eq_some.mp hstep
          obtain ⟨⟨range, next⟩, hplan, rfl⟩ := Option.map_eq_some_iff.mp hstep
          cases sink with
          | stitch items =>
              obtain ⟨hw, hprobed, hfetched⟩ := h
              exact ⟨hw, hprobed, hfetched.started hplan⟩
          | stream =>
              obtain ⟨hallowed, hprobed, pieces, hfetched, hwritten⟩ := h
              exact ⟨hallowed, hprobed, pieces, hfetched.started hplan, hwritten⟩
      | probing => cases hstep
      | single => cases hstep
      | done result => cases hstep
  | chunkReplied i raw =>
      cases phase with
      | fetching probe chunks sink =>
          unfold step at hstep
          dsimp only at hstep
          split at hstep
          · rename_i range attempts hf
            cases hstep
            -- the calls on record stay there
            have hsub : calls ⊆ calls ++ [⟨chunkRequest req range, raw⟩] :=
              List.subset_append_left _ _
            cases sink with
            | stitch items =>
                obtain ⟨hw, hprobed, hfetched⟩ := h
                exact ⟨hw, hprobed.mono hsub, hfetched.replied hf raw⟩
            | stream =>
                obtain ⟨hallowed, hprobed, pieces, hfetched, hwritten⟩ := h
                exact ⟨hallowed, hprobed.mono hsub, pieces, hfetched.replied hf raw, hwritten⟩
          · cases hstep
      | probing => cases hstep
      | single => cases hstep
      | done result => cases hstep
  | next =>
      cases phase with
      | fetching probe chunks sink =>
          unfold step at hstep
          dsimp only at hstep
          split at hstep
          · rename_i range attempts result more hflight
            cases hstep
            exact inv_item rfl h hflight
          · cases hstep
          · rename_i hflight
            split at hstep
            · cases hstep
            · rename_i hplan
              cases hstep
              exact inv_exhausted rfl h hflight hplan
      | probing => cases hstep
      | single => cases hstep
      | done result => cases hstep

/-- Every run keeps the invariant, and so ends as it says. -/
theorem outcome_of_run {events : List Event} {s : State} {result : Except IoError Unit}
    (hrun : StepRun.run (step transformHead streamingAllowed req) (begin req w) events = some s)
    (hdone : s.phase = .done result) :
    Outcome transformHead streamingAllowed req s.calls w (s.writer, result) := by
  have hinv := StepRun.run_invariant (fun s e t hs _ => inv_step hs) inv_begin
    (StepRun.allSteps_of_forall (fun _ _ => trivial) (begin req w) events) hrun
  unfold Inv at hinv
  rw [hdone] at hinv
  exact hinv

end

end Rahgozar.Fronter.Range
