import Rahgozar.Proxy.HttpRequest

set_option autoImplicit false

/-! # The memory of a request body (`src/proxy_server.rs`)

`read_body` keeps what it has of the body, and in a chunked body also a buffer for what it has read
beyond that. The cap is on the decoded body; the buffer grows until a line has its end. The readers
here are those of the body with a record of the bytes that are held.
-/

namespace Rahgozar.Proxy.Mitm

open Segments (fill position buffers)

/-! ## The readers with a record -/

/-- The buffers of `read_crlf_line`, at its beginning and after each read. -/
def lineBuffers (buf : List UInt8) (conn : Conn) : List (List UInt8) :=
  buffers 8192 (fun buf => (position crlf buf).isSome) (conn.flatten.length + 1) buf conn

/-- The buffers of `fill_buffer`. -/
def fillBuffers (want : Nat) (buf : List UInt8) (conn : Conn) : List (List UInt8) :=
  buffers 8192 (fun buf => decide (want ≤ buf.length)) (conn.flatten.length + 1) buf conn

/-- The bytes that are held with each of these buffers, besides the body so far. -/
def heldWith (out : List UInt8) (bufs : List (List UInt8)) : List Nat :=
  bufs.map fun buf => out.length + buf.length

/-- The loop over the trailers, with the bytes that are held on the way. -/
def meteredTrailers (out : List UInt8) : (fuel : Nat) → List UInt8 → Conn →
    List Nat × Except IoError Conn
  | 0, _, _ => ([], .error eofInChunkedBody)
  | fuel + 1, buf, conn =>
      let held := heldWith out (lineBuffers buf conn)
      match readCrlfLine buf conn with
      | .error e => (held, .error e)
      | .ok (trailer, buf, conn) =>
          if trailer.isEmpty then (held, .ok conn)
          else
            let r := meteredTrailers out fuel buf conn
            (held ++ r.1, r.2)

/-- The loop of `read_chunked_request_body`, with the bytes that are held on the way. A chunk is
held twice between `out.extend_from_slice` and `buf.drain`. -/
def meteredChunks : (fuel : Nat) → (out buf : List UInt8) → Conn →
    List Nat × Except IoError (List UInt8 × Conn)
  | 0, _, _, _ => ([], .error eofInChunkedBody)
  | fuel + 1, out, buf, conn =>
      let held := heldWith out (lineBuffers buf conn)
      match readCrlfLine buf conn with
      | .error e => (held, .error e)
      | .ok (line, buf, conn) =>
          if line.isEmpty then
            let r := meteredChunks fuel out buf conn
            (held ++ r.1, r.2)
          else
            match chunkSize line with
            | .error e => (held, .error e)
            | .ok size =>
                if size = 0 then
                  let r := meteredTrailers out fuel buf conn
                  (held ++ r.1, r.2.map fun conn => (out, conn))
                else if maxRequestBodyBytes < out.length + size then (held, .error .fileTooLarge)
                else
                  let held := held ++ heldWith out (fillBuffers (size + 2) buf conn)
                  match fillBuffer (size + 2) buf conn with
                  | .error e => (held, .error e)
                  | .ok (buf, conn) =>
                      if (buf.drop size).take 2 ≠ crlf then
                        (held, .error (.invalidData "chunk missing trailing CRLF"))
                      else
                        let r :=
                          meteredChunks fuel (out ++ buf.take size) (buf.drop (size + 2)) conn
                        (held ++ ((out ++ buf.take size).length + buf.length) :: r.1, r.2)

/-- `read_body`, with the bytes that are held on the way. A body by length is cut at its length
after each read. -/
def meteredBody (leftover : List UInt8) (headers : Headers) (conn : Conn) :
    List Nat × Except IoError (Body × Conn) :=
  let transferEncoding := headerValue headers "transfer-encoding"
  let isChunked := transferEncoding.any fun v => hasPart v "chunked"
  match contentLengthOf headers with
  | .error e => ([], .error e)
  | .ok contentLength =>
      if transferEncoding.isSome && !isChunked then
        ([], .error (.invalidData
          ("unsupported Transfer-Encoding: " ++ String.ofList (transferEncoding.getD []))))
      else if isChunked && contentLength.isSome then
        ([], .error (.invalidData
          "both Transfer-Encoding: chunked and Content-Length are present"))
      else
        let continued := expects100Continue headers && (isChunked || contentLength.isSome)
        if isChunked then
          let r := meteredChunks (leftover.length + conn.flatten.length + 1) [] leftover conn
          (r.1, r.2.map fun (bytes, conn) => (⟨bytes, continued⟩, conn))
        else
          match contentLength with
          | none => ([], .ok (⟨[], continued⟩, conn))
          | some contentLength =>
              if maxRequestBodyBytes < contentLength then ([], .error .fileTooLarge)
              else
                let done := fun body : List UInt8 => decide (contentLength ≤ body.length)
                let held := (buffers 8192 done (conn.flatten.length + 1)
                  (leftover.take contentLength) conn).map fun body =>
                    (body.take contentLength).length
                let f := fill 8192 done (leftover.take contentLength) conn
                if f.eof then (held, .error (.unexpectedEof "EOF mid-body"))
                else (held, .ok (⟨f.buf.take contentLength, continued⟩, f.rest))

theorem meteredTrailers_snd (out : List UInt8) (fuel : Nat) (buf : List UInt8) (conn : Conn) :
    (meteredTrailers out fuel buf conn).2 = readTrailers fuel buf conn := by
  induction fuel generalizing buf conn with
  | zero => rfl
  | succ fuel ih =>
      unfold meteredTrailers readTrailers
      cases readCrlfLine buf conn with
      | error e => rfl
      | ok r =>
          obtain ⟨trailer, buf, conn⟩ := r
          dsimp only
          split
          · rfl
          · exact ih buf conn

theorem meteredChunks_snd (fuel : Nat) (out buf : List UInt8) (conn : Conn) :
    (meteredChunks fuel out buf conn).2 = readChunks fuel out buf conn := by
  induction fuel generalizing out buf conn with
  | zero => rfl
  | succ fuel ih =>
      unfold meteredChunks readChunks
      cases readCrlfLine buf conn with
      | error e => rfl
      | ok r =>
          obtain ⟨line, buf, conn⟩ := r
          dsimp only
          by_cases hempty : line.isEmpty = true
          · rw [if_pos hempty, if_pos hempty]
            exact ih out buf conn
          rw [if_neg hempty, if_neg hempty]
          cases chunkSize line with
          | error e => rfl
          | ok size =>
              dsimp only
              by_cases hzero : size = 0
              · rw [if_pos hzero, if_pos hzero]
                show Except.map _ (meteredTrailers out fuel buf conn).2 = _
                rw [meteredTrailers_snd]
              rw [if_neg hzero, if_neg hzero]
              by_cases hlarge : maxRequestBodyBytes < out.length + size
              · rw [if_pos hlarge, if_pos hlarge]
              rw [if_neg hlarge, if_neg hlarge]
              cases fillBuffer (size + 2) buf conn with
              | error e => rfl
              | ok r =>
                  obtain ⟨buf, conn⟩ := r
                  dsimp only
                  by_cases hcrlf : (buf.drop size).take 2 ≠ crlf
                  · rw [if_pos hcrlf, if_pos hcrlf]
                  · rw [if_neg hcrlf, if_neg hcrlf]
                    exact ih _ _ conn

/-- The record changes nothing. -/
theorem meteredBody_snd (leftover : List UInt8) (headers : Headers) (conn : Conn) :
    (meteredBody leftover headers conn).2 = readBody leftover headers conn := by
  unfold meteredBody readBody readChunkedRequestBody
  cases contentLengthOf headers with
  | error e => rfl
  | ok contentLength =>
      dsimp only
      split
      · rfl
      split
      · rfl
      split
      · rw [← meteredChunks_snd]
      · cases contentLength with
        | none => rfl
        | some contentLength =>
            dsimp only
            split
            · rfl
            · split
              · rfl
              · rfl

/-! ## The lines of a chunked body -/

/-- There is less of the stream behind a line. -/
theorem length_behind_lt {s : List UInt8} {i : Nat} (h : position crlf s = some i) (n : Nat) :
    ((s.drop (i + 2)).drop n).length < s.length := by
  have hle := Segments.position_le h
  have hcrlf : crlf.length = 2 := rfl
  simp only [List.length_drop]
  omega

/-- The trailers up to an empty line, and the one that has no end. -/
def trailerLines (s : List UInt8) : List (List UInt8) :=
  match h : position crlf s with
  | none => [s]
  | some i => s.take i :: if i = 0 then [] else trailerLines (s.drop (i + 2))
termination_by s.length
decreasing_by exact length_behind_lt h 0

/-- The lines of a chunked body in a stream, behind so many bytes of the body: the first lines of
the chunks, empty lines, the trailers, and the line that has no end. -/
def awaitedLines (outLen : Nat) (s : List UInt8) : List (List UInt8) :=
  match _h : position crlf s with
  | none => [s]
  | some i =>
      s.take i ::
        if i = 0 then awaitedLines outLen (s.drop (i + 2))
        else
          match chunkSize (s.take i) with
          | .error _ => []
          | .ok size =>
              if size = 0 then trailerLines (s.drop (i + 2))
              else if maxRequestBodyBytes < outLen + size then []
              else if ((s.drop (i + 2)).drop size).take 2 ≠ crlf then []
              else awaitedLines (outLen + size) ((s.drop (i + 2)).drop (size + 2))
termination_by s.length
decreasing_by
  · exact length_behind_lt ‹_› 0
  · exact length_behind_lt ‹_› _

theorem trailerLines_none {s : List UInt8} (h : position crlf s = none) : trailerLines s = [s] := by
  unfold trailerLines
  split
  · rfl
  · rename_i i hi
    rw [h] at hi
    cases hi

theorem trailerLines_some {s : List UInt8} {i : Nat} (h : position crlf s = some i) :
    trailerLines s = s.take i :: if i = 0 then [] else trailerLines (s.drop (i + 2)) := by
  rw [trailerLines]
  split
  · rename_i hnone
    rw [h] at hnone
    cases hnone
  · rename_i j hj
    rw [h] at hj
    cases hj
    rfl

theorem awaitedLines_none {s : List UInt8} (outLen : Nat) (h : position crlf s = none) :
    awaitedLines outLen s = [s] := by
  unfold awaitedLines
  split
  · rfl
  · rename_i i hi
    rw [h] at hi
    cases hi

/-- What is awaited behind a line. -/
def linesBehind (outLen : Nat) (line s : List UInt8) : List (List UInt8) :=
  if line.isEmpty then awaitedLines outLen s
  else
    match chunkSize line with
    | .error _ => []
    | .ok size =>
        if size = 0 then trailerLines s
        else if maxRequestBodyBytes < outLen + size then []
        else if (s.drop size).take 2 ≠ crlf then []
        else awaitedLines (outLen + size) (s.drop (size + 2))

theorem isEmpty_take_iff {s : List UInt8} {i : Nat} (h : position crlf s = some i) :
    (s.take i).isEmpty = true ↔ i = 0 := by
  have hle := Segments.position_le h
  have hcrlf : crlf.length = 2 := rfl
  rw [List.isEmpty_iff, ← List.length_eq_zero_iff, List.length_take]
  omega

theorem awaitedLines_some {s : List UInt8} (outLen : Nat) {i : Nat} (h : position crlf s = some i) :
    awaitedLines outLen s =
      s.take i :: linesBehind outLen (s.take i) (s.drop (i + 2)) := by
  rw [awaitedLines]
  split
  · rename_i hnone
    rw [h] at hnone
    cases hnone
  · rename_i j hj
    rw [h] at hj
    cases hj
    unfold linesBehind
    simp only [isEmpty_take_iff h]

/-! ## One line, and one chunk -/

section

variable {buf : List UInt8} {conn : Conn}

/-- What `read_crlf_line` does: it finds the first line of the stream, or comes to its end. -/
inductive LineRead (buf : List UInt8) (conn : Conn) : Prop where
  | found (i : Nat) (buf' : List UInt8) (conn' : Conn)
      (first : position crlf (buf ++ conn.flatten) = some i)
      (result : readCrlfLine buf conn = .ok ((buf ++ conn.flatten).take i, buf', conn'))
      (behind : buf' ++ conn'.flatten = (buf ++ conn.flatten).drop (i + 2))
      (pos : ∀ seg ∈ conn', seg ≠ [])
      (held : ∃ b ∈ lineBuffers buf conn, buf'.length + (i + 2) = b.length)
  | ended (none : position crlf (buf ++ conn.flatten) = none)
      (result : readCrlfLine buf conn = .error eofInChunkedBody)
      (held : buf ++ conn.flatten ∈ lineBuffers buf conn)

theorem readCrlfLine_cases (buf : List UInt8) (hpos : ∀ seg ∈ conn, seg ≠ []) :
    LineRead buf conn := by
  have hreached : Segments.Reached (fun buf => (position crlf buf).isSome) buf conn
      (fill 8192 (fun buf => (position crlf buf).isSome) buf conn) :=
    Segments.fill_reached _ buf (by decide) hpos
  have hmem : (fill 8192 (fun buf => (position crlf buf).isSome) buf conn).buf ∈
      lineBuffers buf conn := Segments.fillUntil_mem_buffers ..
  generalize hfill : fill 8192 (fun buf => (position crlf buf).isSome) buf conn = f at hreached hmem
  obtain ⟨hdata, hrest, hdone, hended⟩ := hreached
  cases heof : f.eof with
  | true =>
      rw [heof] at hdone
      have hnone : position crlf f.buf = none :=
        Option.not_isSome_iff_eq_none.mp (by rw [hdone]; exact Bool.false_ne_true)
      rw [hended heof, List.flatten_nil, List.append_nil] at hdata
      rw [hdata] at hnone hmem
      refine .ended hnone ?_ hmem
      unfold readCrlfLine
      rw [hfill]
      exact if_pos heof
  | false =>
      rw [heof] at hdone
      obtain ⟨i, hi⟩ := Option.isSome_iff_exists.mp hdone
      have hle : i + 2 ≤ f.buf.length := Segments.position_le hi
      refine .found i (f.buf.drop (i + 2)) f.rest ?_ ?_ ?_ hrest ⟨f.buf, hmem, ?_⟩
      · rw [← hdata]
        exact Segments.position_append hi _
      · unfold readCrlfLine
        rw [hfill]
        dsimp only
        rw [if_neg (by rw [heof]; exact Bool.false_ne_true), hi]
        dsimp only
        rw [(take_of_append_eq hdata (show i ≤ f.buf.length by omega)).1]
      · exact (take_of_append_eq hdata hle).2
      · rw [List.length_drop]
        omega

/-- The buffers while a line is awaited. -/
theorem lineBuffers_le {b : List UInt8} (h : b ∈ lineBuffers buf conn) :
    b.length ≤ buf.length ∨
      (∀ i, position crlf (buf ++ conn.flatten) = some i → b.length ≤ i + 8193) ∧
      (position crlf (buf ++ conn.flatten) = none → b.length ≤ (buf ++ conn.flatten).length) := by
  obtain ⟨hgrown, rfl | ⟨b', hdone, hpre, hlen⟩⟩ := Segments.mem_buffers h
  · exact Or.inl (le_refl _)
  · refine Or.inr ⟨fun i hi => ?_, fun _ => hgrown.length_le⟩
    have hnone : position crlf b' = none :=
      Option.not_isSome_iff_eq_none.mp (by rw [hdone]; exact Bool.false_ne_true)
    have htake := Segments.position_take (by decide) hi b'.length
    rw [← List.prefix_iff_eq_take.mp hpre, hnone] at htake
    have hshort : ¬ i + crlf.length ≤ b'.length := by
      intro hle
      rw [if_pos hle] at htake
      cases htake
    have hcrlf : crlf.length = 2 := rfl
    omega

/-- What `fill_buffer` does. -/
inductive FillRead (want : Nat) (buf : List UInt8) (conn : Conn) : Prop where
  | filled (buf' : List UInt8) (conn' : Conn)
      (result : fillBuffer want buf conn = .ok (buf', conn'))
      (enough : want ≤ buf'.length) (data : buf' ++ conn'.flatten = buf ++ conn.flatten)
      (pos : ∀ seg ∈ conn', seg ≠ []) (held : buf' ∈ fillBuffers want buf conn)
  | ended (short : (buf ++ conn.flatten).length < want)
      (result : fillBuffer want buf conn = .error eofInChunkedBody)

theorem fillBuffer_cases (want : Nat) (buf : List UInt8) (hpos : ∀ seg ∈ conn, seg ≠ []) :
    FillRead want buf conn := by
  have hreached : Segments.Reached (fun buf : List UInt8 => decide (want ≤ buf.length)) buf conn
      (fill 8192 (fun buf => decide (want ≤ buf.length)) buf conn) :=
    Segments.fill_reached _ buf (by decide) hpos
  have hmem : (fill 8192 (fun buf => decide (want ≤ buf.length)) buf conn).buf ∈
      fillBuffers want buf conn := Segments.fillUntil_mem_buffers ..
  generalize hfill : fill 8192 (fun buf => decide (want ≤ buf.length)) buf conn = f
    at hreached hmem
  obtain ⟨hdata, hrest, hdone, hended⟩ := hreached
  cases heof : f.eof with
  | true =>
      rw [heof] at hdone
      rw [hended heof, List.flatten_nil, List.append_nil] at hdata
      rw [hdata] at hdone
      refine .ended (not_le.mp (of_decide_eq_false hdone)) ?_
      unfold fillBuffer
      rw [hfill]
      exact if_pos heof
  | false =>
      rw [heof] at hdone
      refine .filled f.buf f.rest ?_ (of_decide_eq_true hdone) hdata hrest hmem
      unfold fillBuffer
      rw [hfill]
      exact if_neg (by rw [heof]; exact Bool.false_ne_true)

theorem fillBuffers_le {want : Nat} {b : List UInt8} (h : b ∈ fillBuffers want buf conn) :
    b.length ≤ buf.length ∨ b.length ≤ want + 8192 := by
  obtain ⟨-, rfl | ⟨b', hdone, -, hlen⟩⟩ := Segments.mem_buffers h
  · exact Or.inl (le_refl _)
  · have hshort := not_le.mp (of_decide_eq_false hdone)
    omega

/-- The bytes that are held behind a line. -/
def heldBehind (fuel : Nat) (out line buf : List UInt8) (conn : Conn) : List Nat :=
  if line.isEmpty then (meteredChunks fuel out buf conn).1
  else
    match chunkSize line with
    | .error _ => []
    | .ok size =>
        if size = 0 then (meteredTrailers out fuel buf conn).1
        else if maxRequestBodyBytes < out.length + size then []
        else
          heldWith out (fillBuffers (size + 2) buf conn) ++
            match fillBuffer (size + 2) buf conn with
            | .error _ => []
            | .ok (buf, conn) =>
                if (buf.drop size).take 2 ≠ crlf then []
                else
                  ((out ++ buf.take size).length + buf.length) ::
                    (meteredChunks fuel (out ++ buf.take size) (buf.drop (size + 2)) conn).1

theorem meteredChunks_found {fuel : Nat} {out line buf' : List UInt8} {conn' : Conn}
    (h : readCrlfLine buf conn = .ok (line, buf', conn')) :
    (meteredChunks (fuel + 1) out buf conn).1 =
      heldWith out (lineBuffers buf conn) ++ heldBehind fuel out line buf' conn' := by
  unfold meteredChunks heldBehind
  rw [h]
  dsimp only
  by_cases hempty : line.isEmpty = true
  · rw [if_pos hempty, if_pos hempty]
  rw [if_neg hempty, if_neg hempty]
  cases chunkSize line with
  | error e => exact (List.append_nil _).symm
  | ok size =>
      dsimp only
      by_cases hzero : size = 0
      · rw [if_pos hzero, if_pos hzero]
      rw [if_neg hzero, if_neg hzero]
      by_cases hlarge : maxRequestBodyBytes < out.length + size
      · rw [if_pos hlarge, if_pos hlarge]
        exact (List.append_nil _).symm
      rw [if_neg hlarge, if_neg hlarge, ← List.append_assoc]
      cases fillBuffer (size + 2) buf' conn' with
      | error e => exact (List.append_nil _).symm
      | ok r =>
          obtain ⟨buf, conn⟩ := r
          dsimp only
          by_cases hcrlf : (buf.drop size).take 2 ≠ crlf
          · rw [if_pos hcrlf, if_pos hcrlf]
            exact (List.append_nil _).symm
          · rw [if_neg hcrlf, if_neg hcrlf]

/-- Behind the bytes of a chunk that are in the buffer. -/
theorem chunk_behind {size : Nat} {b : List UInt8} {rest : Conn} (hle : size + 2 ≤ b.length)
    (hdata : b ++ rest.flatten = buf ++ conn.flatten) :
    (b.drop size).take 2 = ((buf ++ conn.flatten).drop size).take 2 ∧
      b.drop (size + 2) ++ rest.flatten = (buf ++ conn.flatten).drop (size + 2) := by
  refine ⟨?_, (take_of_append_eq hdata hle).2⟩
  have hdrop := (take_of_append_eq hdata (show size ≤ b.length by omega)).2
  exact (take_of_append_eq hdrop (by rw [List.length_drop]; omega)).1

/-- A stream with the end of a chunk is long enough for it. -/
theorem length_of_chunk {size : Nat} {s : List UInt8} (h : (s.drop size).take 2 = crlf) :
    size + 2 ≤ s.length := by
  have hlen := congrArg List.length h
  rw [List.length_take, List.length_drop] at hlen
  have hcrlf : crlf.length = 2 := rfl
  omega

/-- What may be behind a line: the line is empty, ends the body, is the last chunk's, or is the one
of a chunk that fits. -/
inductive Behind (fuel : Nat) (out line buf : List UInt8) (conn : Conn) : Prop where
  | empty
      (lines : linesBehind out.length line (buf ++ conn.flatten) =
        awaitedLines out.length (buf ++ conn.flatten))
      (held : heldBehind fuel out line buf conn = (meteredChunks fuel out buf conn).1)
  | ended
      (lines : linesBehind out.length line (buf ++ conn.flatten) = [])
      (held : heldBehind fuel out line buf conn = [])
  | trailers
      (lines : linesBehind out.length line (buf ++ conn.flatten) =
        trailerLines (buf ++ conn.flatten))
      (held : heldBehind fuel out line buf conn = (meteredTrailers out fuel buf conn).1)
  | chunk (size : Nat) (fits : out.length + size ≤ maxRequestBodyBytes)
      (lines : linesBehind out.length line (buf ++ conn.flatten) =
        if ((buf ++ conn.flatten).drop size).take 2 ≠ crlf then []
        else awaitedLines (out.length + size) ((buf ++ conn.flatten).drop (size + 2)))
      (held : heldBehind fuel out line buf conn =
        heldWith out (fillBuffers (size + 2) buf conn) ++
          match fillBuffer (size + 2) buf conn with
          | .error _ => []
          | .ok (buf, conn) =>
              if (buf.drop size).take 2 ≠ crlf then []
              else
                ((out ++ buf.take size).length + buf.length) ::
                  (meteredChunks fuel (out ++ buf.take size) (buf.drop (size + 2)) conn).1)

theorem behind (fuel : Nat) (out line buf : List UInt8) (conn : Conn) :
    Behind fuel out line buf conn := by
  by_cases hempty : line.isEmpty = true
  · exact .empty (if_pos hempty) (if_pos hempty)
  cases hsize : chunkSize line with
  | error e =>
      refine .ended ?_ ?_
      · unfold linesBehind
        rw [if_neg hempty, hsize]
      · unfold heldBehind
        rw [if_neg hempty, hsize]
  | ok size =>
      by_cases hzero : size = 0
      · refine .trailers ?_ ?_
        · unfold linesBehind
          rw [if_neg hempty, hsize]
          exact if_pos hzero
        · unfold heldBehind
          rw [if_neg hempty, hsize]
          exact if_pos hzero
      by_cases hlarge : maxRequestBodyBytes < out.length + size
      · refine .ended ?_ ?_
        · unfold linesBehind
          rw [if_neg hempty, hsize]
          dsimp only
          rw [if_neg hzero, if_pos hlarge]
        · unfold heldBehind
          rw [if_neg hempty, hsize]
          dsimp only
          rw [if_neg hzero, if_pos hlarge]
      · refine .chunk size (not_lt.mp hlarge) ?_ ?_
        · unfold linesBehind
          rw [if_neg hempty, hsize]
          dsimp only
          rw [if_neg hzero, if_neg hlarge]
        · unfold heldBehind
          rw [if_neg hempty, hsize]
          dsimp only
          rw [if_neg hzero, if_neg hlarge]

/-! ## Every line is held -/

/-- A line was in the buffer when it was found, and so was what there is of a line without an
end. -/
theorem line_held (line out : List UInt8) {b : List UInt8}
    (hb : b ∈ lineBuffers buf conn) (hle : line.length ≤ b.length) :
    ∃ h ∈ heldWith out (lineBuffers buf conn), line.length ≤ h := by
  refine ⟨out.length + b.length, List.mem_map.mpr ⟨b, hb, rfl⟩, ?_⟩
  omega

/-- Among more numbers there is still one as great. -/
theorem held_append_left {xs ys : List Nat} {n : Nat} (h : ∃ k ∈ xs, n ≤ k) :
    ∃ k ∈ xs ++ ys, n ≤ k := by
  obtain ⟨k, hk, hle⟩ := h
  exact ⟨k, List.mem_append_left _ hk, hle⟩

theorem held_append_right {xs ys : List Nat} {n : Nat} (h : ∃ k ∈ ys, n ≤ k) :
    ∃ k ∈ xs ++ ys, n ≤ k := by
  obtain ⟨k, hk, hle⟩ := h
  exact ⟨k, List.mem_append_right _ hk, hle⟩

theorem trailerLines_held (out : List UInt8) {fuel : Nat} (hpos : ∀ seg ∈ conn, seg ≠ [])
    (hfuel : (buf ++ conn.flatten).length < fuel) {line : List UInt8}
    (h : line ∈ trailerLines (buf ++ conn.flatten)) :
    ∃ k ∈ (meteredTrailers out fuel buf conn).1, line.length ≤ k := by
  induction fuel generalizing buf conn with
  | zero => cases hfuel
  | succ fuel ih =>
      unfold meteredTrailers
      obtain ⟨i, buf', conn', hfirst, hresult, hbehind, hpos', b, hb, hlen⟩ |
        ⟨hnone, hresult, hheld⟩ := readCrlfLine_cases buf hpos
      · have hle := Segments.position_le hfirst
        have hcrlf : crlf.length = 2 := rfl
        rw [trailerLines_some hfirst] at h
        rw [hresult]
        dsimp only
        obtain rfl | hlater := List.mem_cons.mp h
        · have hheld := line_held ((buf ++ conn.flatten).take i) out hb
            (by rw [List.length_take]; omega)
          split
          · exact hheld
          · exact held_append_left hheld
        · by_cases hzero : i = 0
          · rw [if_pos hzero] at hlater
            cases hlater
          · rw [if_neg hzero, ← hbehind] at hlater
            rw [if_neg (mt (isEmpty_take_iff hfirst).mp hzero)]
            refine held_append_right (ih hpos' ?_ hlater)
            rw [hbehind, List.length_drop]
            omega
      · rw [trailerLines_none hnone, List.mem_singleton] at h
        rw [hresult, h]
        exact line_held _ out hheld (le_refl _)

/-- The lines behind a line are held, if those behind the next chunk are. -/
theorem linesBehind_held {fuel : Nat} (out first : List UInt8) (hpos : ∀ seg ∈ conn, seg ≠ [])
    (hfuel : (buf ++ conn.flatten).length < fuel)
    (hchunks : ∀ (out' buf' : List UInt8) (conn' : Conn), (∀ seg ∈ conn', seg ≠ []) →
      (buf' ++ conn'.flatten).length < fuel →
      ∀ line ∈ awaitedLines out'.length (buf' ++ conn'.flatten),
        ∃ k ∈ (meteredChunks fuel out' buf' conn').1, line.length ≤ k)
    {line : List UInt8} (h : line ∈ linesBehind out.length first (buf ++ conn.flatten)) :
    ∃ k ∈ heldBehind fuel out first buf conn, line.length ≤ k := by
  cases behind fuel out first buf conn with
  | empty hbehind hheld =>
      rw [hbehind] at h
      rw [hheld]
      exact hchunks out buf conn hpos hfuel line h
  | ended hbehind hheld =>
      rw [hbehind] at h
      cases h
  | trailers hbehind hheld =>
      rw [hbehind] at h
      rw [hheld]
      exact trailerLines_held out hpos hfuel h
  | chunk size hfits hbehind hheld =>
      rw [hbehind] at h
      rw [hheld]
      by_cases hcrlf : ((buf ++ conn.flatten).drop size).take 2 ≠ crlf
      · rw [if_pos hcrlf] at h
        cases h
      rw [if_neg hcrlf] at h
      have hlong := length_of_chunk (not_not.mp hcrlf)
      obtain ⟨b, rest, hresult, henough, hdata, hpos', -⟩ | ⟨hshort, -⟩ :=
        fillBuffer_cases (size + 2) buf hpos
      · obtain ⟨hend, hbehind⟩ := chunk_behind henough hdata
        have htake : (out ++ b.take size).length = out.length + size := by
          rw [List.length_append, List.length_take]
          omega
        rw [hresult]
        dsimp only
        rw [if_neg (by rwa [hend])]
        rw [← hbehind, ← htake] at h
        refine held_append_right ?_
        obtain ⟨k, hk, hle⟩ := hchunks _ _ _ hpos' (by rw [hbehind, List.length_drop]; omega) line h
        exact ⟨k, List.mem_cons_of_mem _ hk, hle⟩
      · exact absurd hlong (not_le.mpr hshort)

/-- **Every awaited line is held** in full. -/
theorem awaitedLines_held {fuel : Nat} (out : List UInt8) (hpos : ∀ seg ∈ conn, seg ≠ [])
    (hfuel : (buf ++ conn.flatten).length < fuel) {line : List UInt8}
    (h : line ∈ awaitedLines out.length (buf ++ conn.flatten)) :
    ∃ k ∈ (meteredChunks fuel out buf conn).1, line.length ≤ k := by
  induction fuel generalizing out buf conn line with
  | zero => cases hfuel
  | succ fuel ih =>
      obtain ⟨i, buf', conn', hfirst, hresult, hbehind, hpos', b, hb, hlen⟩ |
        ⟨hnone, hresult, hheld⟩ := readCrlfLine_cases buf hpos
      · have hle := Segments.position_le hfirst
        have hcrlf : crlf.length = 2 := rfl
        have hshorter : (buf' ++ conn'.flatten).length < fuel := by
          rw [hbehind, List.length_drop]
          omega
        rw [awaitedLines_some out.length hfirst, ← hbehind] at h
        rw [meteredChunks_found hresult]
        obtain rfl | hlater := List.mem_cons.mp h
        · refine held_append_left (line_held _ out hb ?_)
          rw [List.length_take]
          omega
        · exact held_append_right (linesBehind_held out _ hpos' hshorter
            (fun out' _ _ hpos hfuel _ h => ih out' hpos hfuel h) hlater)
      · rw [awaitedLines_none _ hnone, List.mem_singleton] at h
        unfold meteredChunks
        rw [hresult, h]
        exact line_held _ out hheld (le_refl _)

/-! ## No more is held than the lines need -/

variable {L B : Nat}

/-- A buffer for lines of no more than `L` bytes. -/
theorem lineBuffers_bounded (hB : L + 8193 ≤ B) (hbuf : buf.length ≤ B)
    (hfirst : ∀ i, position crlf (buf ++ conn.flatten) = some i →
      ((buf ++ conn.flatten).take i).length ≤ L)
    (hended : position crlf (buf ++ conn.flatten) = none → (buf ++ conn.flatten).length ≤ L)
    {b : List UInt8} (hb : b ∈ lineBuffers buf conn) : b.length ≤ B := by
  obtain hle | ⟨hfound, hnone⟩ := lineBuffers_le hb
  · exact le_trans hle hbuf
  · cases hpos : position crlf (buf ++ conn.flatten) with
    | none =>
        have hlen := hnone hpos
        have hline := hended hpos
        omega
    | some i =>
        have hlen := hfound i hpos
        have hline := hfirst i hpos
        have hle := Segments.position_le hpos
        rw [List.length_take] at hline
        omega

theorem heldWith_le {out : List UInt8} {bufs : List (List UInt8)}
    (h : ∀ b ∈ bufs, b.length ≤ B) {k : Nat} (hk : k ∈ heldWith out bufs) :
    k ≤ out.length + B := by
  obtain ⟨b, hb, rfl⟩ := List.mem_map.mp hk
  exact Nat.add_le_add_left (h b hb) _

theorem meteredTrailers_bounded (out : List UInt8) (fuel : Nat) (hB : L + 8193 ≤ B)
    (hbuf : buf.length ≤ B) (hpos : ∀ seg ∈ conn, seg ≠ [])
    (hlines : ∀ line ∈ trailerLines (buf ++ conn.flatten), line.length ≤ L) {k : Nat}
    (hk : k ∈ (meteredTrailers out fuel buf conn).1) : k ≤ out.length + B := by
  induction fuel generalizing buf conn with
  | zero => cases hk
  | succ fuel ih =>
      have hbufs : ∀ b ∈ lineBuffers buf conn, b.length ≤ B := by
        intro b hb
        refine lineBuffers_bounded hB hbuf (fun i hi => ?_) (fun hnone => ?_) hb
        · rw [trailerLines_some hi] at hlines
          exact hlines _ List.mem_cons_self
        · rw [trailerLines_none hnone] at hlines
          exact hlines _ List.mem_cons_self
      unfold meteredTrailers at hk
      obtain ⟨i, buf', conn', hfirst, hresult, hbehind, hpos', b, hb, hlen⟩ |
        ⟨-, hresult, -⟩ := readCrlfLine_cases buf hpos
      · rw [hresult] at hk
        dsimp only at hk
        have hbuf' : buf'.length ≤ B := by
          have hle := hbufs b hb
          omega
        by_cases hzero : i = 0
        · rw [if_pos ((isEmpty_take_iff hfirst).mpr hzero)] at hk
          exact heldWith_le hbufs hk
        · rw [if_neg (mt (isEmpty_take_iff hfirst).mp hzero)] at hk
          obtain hk | hk := List.mem_append.mp hk
          · exact heldWith_le hbufs hk
          · refine ih hbuf' hpos' (fun line hline => hlines line ?_) hk
            rw [trailerLines_some hfirst, if_neg hzero, ← hbehind]
            exact List.mem_cons_of_mem _ hline
      · rw [hresult] at hk
        exact heldWith_le hbufs hk

/-- The most that is held of a body in chunks whose buffer for lines is of `B` bytes: what there is
of the body, and a chunk in the buffer. -/
def mostHeld (B : Nat) : Nat := maxRequestBodyBytes + (maxRequestBodyBytes + 8194 + B)

theorem le_mostHeld {out : List UInt8} {k : Nat} (hout : out.length ≤ maxRequestBodyBytes)
    (hk : k ≤ out.length + B) : k ≤ mostHeld B := by
  unfold mostHeld
  generalize maxRequestBodyBytes = most at hout ⊢
  omega

theorem le_mostHeld_of_chunk {out : List UInt8} {size k : Nat}
    (hfits : out.length + size ≤ maxRequestBodyBytes)
    (hk : k ≤ out.length + max B (size + 2 + 8192)) : k ≤ mostHeld B := by
  unfold mostHeld
  generalize maxRequestBodyBytes = most at hfits ⊢
  omega

/-- One chunk keeps to the bound, if the chunks behind it do. -/
theorem heldBehind_bounded {fuel : Nat} {out : List UInt8} (first : List UInt8)
    (hB : L + 8193 ≤ B) (hout : out.length ≤ maxRequestBodyBytes) (hbuf : buf.length ≤ B)
    (hpos : ∀ seg ∈ conn, seg ≠ [])
    (hlines : ∀ line ∈ linesBehind out.length first (buf ++ conn.flatten), line.length ≤ L)
    (hchunks : ∀ (out' buf' : List UInt8) (conn' : Conn), out'.length ≤ maxRequestBodyBytes →
      buf'.length ≤ B → (∀ seg ∈ conn', seg ≠ []) →
      (∀ line ∈ awaitedLines out'.length (buf' ++ conn'.flatten), line.length ≤ L) →
      ∀ k ∈ (meteredChunks fuel out' buf' conn').1, k ≤ mostHeld B)
    {k : Nat} (hk : k ∈ heldBehind fuel out first buf conn) : k ≤ mostHeld B := by
  cases behind fuel out first buf conn with
  | empty hbehind hheld =>
      rw [hbehind] at hlines
      rw [hheld] at hk
      exact hchunks out buf conn hout hbuf hpos hlines k hk
  | ended hbehind hheld =>
      rw [hheld] at hk
      cases hk
  | trailers hbehind hheld =>
      rw [hbehind] at hlines
      rw [hheld] at hk
      exact le_mostHeld hout (meteredTrailers_bounded out fuel hB hbuf hpos hlines hk)
  | chunk size hfits hbehind hheld =>
      rw [hbehind] at hlines
      rw [hheld] at hk
      have hbufs : ∀ b ∈ fillBuffers (size + 2) buf conn,
          b.length ≤ max B (size + 2 + 8192) := fun b hb =>
        (fillBuffers_le hb).elim (fun h => le_max_of_le_left (le_trans h hbuf)) le_max_of_le_right
      obtain hk | hk := List.mem_append.mp hk
      · exact le_mostHeld_of_chunk hfits (heldWith_le hbufs hk)
      obtain ⟨b, rest, hresult, henough, hdata, hpos', hb⟩ | ⟨-, hresult⟩ :=
        fillBuffer_cases (size + 2) buf hpos
      · rw [hresult] at hk
        dsimp only at hk
        obtain ⟨hend, hbehind⟩ := chunk_behind henough hdata
        have hlen := hbufs b hb
        have htake : (out ++ b.take size).length = out.length + size := by
          rw [List.length_append, List.length_take]
          omega
        by_cases hcrlf : (b.drop size).take 2 ≠ crlf
        · rw [if_pos hcrlf] at hk
          cases hk
        rw [if_neg hcrlf] at hk
        obtain rfl | hk := List.mem_cons.mp hk
        -- the chunk is in the body and still in the buffer
        · unfold mostHeld
          generalize maxRequestBodyBytes = most at hfits ⊢
          omega
        · refine hchunks _ _ _ ?_ ?_ hpos' ?_ k hk
          · omega
          · rw [List.length_drop]
            omega
          · rw [htake, hbehind]
            rw [if_neg (by rwa [← hend])] at hlines
            exact hlines
      · rw [hresult] at hk
        cases hk

/-- **No more is held** than the body, a chunk, and what the lines need. -/
theorem meteredChunks_bounded (fuel : Nat) {out : List UInt8} (hB : L + 8193 ≤ B)
    (hout : out.length ≤ maxRequestBodyBytes) (hbuf : buf.length ≤ B)
    (hpos : ∀ seg ∈ conn, seg ≠ [])
    (hlines : ∀ line ∈ awaitedLines out.length (buf ++ conn.flatten), line.length ≤ L) {k : Nat}
    (hk : k ∈ (meteredChunks fuel out buf conn).1) : k ≤ mostHeld B := by
  induction fuel generalizing out buf conn k with
  | zero => cases hk
  | succ fuel ih =>
      have hbufs : ∀ b ∈ lineBuffers buf conn, b.length ≤ B := by
        intro b hb
        refine lineBuffers_bounded hB hbuf (fun i hi => ?_) (fun hnone => ?_) hb
        · rw [awaitedLines_some _ hi] at hlines
          exact hlines _ List.mem_cons_self
        · rw [awaitedLines_none _ hnone] at hlines
          exact hlines _ List.mem_cons_self
      obtain ⟨i, buf', conn', hfirst, hresult, hbehind, hpos', b, hb, hlen⟩ |
        ⟨-, hresult, -⟩ := readCrlfLine_cases buf hpos
      · rw [meteredChunks_found hresult] at hk
        obtain hk | hk := List.mem_append.mp hk
        · exact le_mostHeld hout (heldWith_le hbufs hk)
        · have hbuf' : buf'.length ≤ B := by
            have hle := hbufs b hb
            omega
          refine heldBehind_bounded _ hB hout hbuf' hpos' (fun line hline => hlines line ?_)
            (fun out' _ _ hout hbuf hpos hlines _ hk => ih hout hbuf hpos hlines hk) hk
          rw [awaitedLines_some _ hfirst, ← hbehind]
          exact List.mem_cons_of_mem _ hline
      · unfold meteredChunks at hk
        rw [hresult] at hk
        exact le_mostHeld hout (heldWith_le hbufs hk)

/-- The body that is returned is within the cap. -/
theorem readChunks_length {fuel : Nat} {out bytes : List UInt8} {later : Conn}
    (hout : out.length ≤ maxRequestBodyBytes)
    (h : readChunks fuel out buf conn = .ok (bytes, later)) :
    bytes.length ≤ maxRequestBodyBytes := by
  induction fuel generalizing out buf conn with
  | zero => cases h
  | succ fuel ih =>
      unfold readChunks at h
      cases hline : readCrlfLine buf conn with
      | error e =>
          rw [hline] at h
          cases h
      | ok r =>
          obtain ⟨line, buf', conn'⟩ := r
          rw [hline] at h
          dsimp only at h
          by_cases hempty : line.isEmpty = true
          · rw [if_pos hempty] at h
            -- a blank line is passed over
            exact ih hout h
          rw [if_neg hempty] at h
          cases hsize : chunkSize line with
          | error e =>
              rw [hsize] at h
              cases h
          | ok size =>
              rw [hsize] at h
              dsimp only at h
              by_cases hzero : size = 0
              · rw [if_pos hzero] at h
                cases htrailers : readTrailers fuel buf' conn' with
                | error e =>
                    rw [htrailers] at h
                    cases h
                | ok rest =>
                    rw [htrailers] at h
                    cases h
                    exact hout
              rw [if_neg hzero] at h
              -- the limit was checked before the data of the chunk was read
              by_cases hlarge : maxRequestBodyBytes < out.length + size
              · rw [if_pos hlarge] at h
                cases h
              rw [if_neg hlarge] at h
              cases hfill : fillBuffer (size + 2) buf' conn' with
              | error e =>
                  rw [hfill] at h
                  cases h
              | ok r =>
                  obtain ⟨buf'', conn''⟩ := r
                  rw [hfill] at h
                  dsimp only at h
                  by_cases hcrlf : (buf''.drop size).take 2 ≠ crlf
                  · rw [if_pos hcrlf] at h
                    cases h
                  · rw [if_neg hcrlf] at h
                    refine ih ?_ h
                    rw [List.length_append, List.length_take]
                    omega

end

/-! ## The cap -/

/-- What `read_body` is called with: the headers, what was read beyond the head, and the segments
that arrive later. -/
structure BodyInput where
  headers : Headers
  leftover : List UInt8
  conn : Conn
  leftover_le : leftover.length ≤ maxHeaderBytes + 4096
  pos : ∀ seg ∈ conn, seg ≠ []

/-- A reader of heads leaves such an input. -/
theorem readHttpHeadIo_input {conn later : Conn} {head leftover : List UInt8}
    (hpos : ∀ seg ∈ conn, seg ≠ [])
    (h : readHttpHeadIo conn = .ok (.got head leftover, later)) :
    leftover.length ≤ maxHeaderBytes + 4096 ∧ ∀ seg ∈ later, seg ≠ [] := by
  unfold readHttpHeadIo at h
  have hreached : Segments.Reached
      (fun buf => (findHeadersEnd buf).isSome || decide (maxHeaderBytes < buf.length)) [] conn
      (fill 4096 (fun buf =>
        (findHeadersEnd buf).isSome || decide (maxHeaderBytes < buf.length)) [] conn) :=
    Segments.fill_reached _ [] (by decide) hpos
  have hmem : (fill 4096 (fun buf =>
      (findHeadersEnd buf).isSome || decide (maxHeaderBytes < buf.length)) [] conn).buf ∈
      buffers 4096 (fun buf =>
        (findHeadersEnd buf).isSome || decide (maxHeaderBytes < buf.length))
        (conn.flatten.length + 1) [] conn := Segments.fillUntil_mem_buffers ..
  generalize fill 4096 (fun buf =>
    (findHeadersEnd buf).isSome || decide (maxHeaderBytes < buf.length)) [] conn = f
    at h hreached hmem
  have hlen : f.buf.length ≤ maxHeaderBytes + 4096 := by
    obtain ⟨-, hempty | ⟨b, hdone, -, hle⟩⟩ := Segments.mem_buffers hmem
    · rw [hempty]
      exact Nat.zero_le _
    · have hshort := of_decide_eq_false (Bool.or_eq_false_iff.mp hdone).2
      omega
  dsimp only at h
  split at h
  · split at h <;> cases h
  · cases hend : findHeadersEnd f.buf with
    | none =>
        rw [hend] at h
        cases h
    | some pos =>
        rw [hend] at h
        cases h
        refine ⟨?_, hreached.pos⟩
        rw [List.length_drop]
        omega

namespace BodyInput

/-- The bytes that are held while `read_body` runs. -/
def held (x : BodyInput) : List Nat := (meteredBody x.leftover x.headers x.conn).1

/-- The headers ask for a body in chunks. -/
def isChunked (x : BodyInput) : Bool :=
  ((headerValue x.headers "transfer-encoding").any fun v => hasPart v "chunked") &&
    match contentLengthOf x.headers with
    | .ok none => true
    | _ => false

/-- The lines that are awaited in the body. -/
def lines (x : BodyInput) : List (List UInt8) :=
  if x.isChunked then awaitedLines 0 (x.leftover ++ x.conn.flatten) else []

theorem held_chunked {x : BodyInput} (h : x.isChunked = true) :
    x.held =
      (meteredChunks (x.leftover.length + x.conn.flatten.length + 1) [] x.leftover x.conn).1 := by
  obtain ⟨hchunked, hlength⟩ := Bool.and_eq_true_iff.mp h
  unfold held meteredBody
  cases hcontent : contentLengthOf x.headers with
  | error e =>
      rw [hcontent] at hlength
      cases hlength
  | ok contentLength =>
      cases contentLength with
      | some n =>
          rw [hcontent] at hlength
          cases hlength
      | none =>
          dsimp only
          rw [hchunked, Bool.not_true, Bool.and_false, if_neg Bool.false_ne_true,
            Option.isSome_none, Bool.and_false, if_neg Bool.false_ne_true, if_pos rfl]

/-- A body by length is never more than its length. -/
theorem held_le_of_not_chunked {x : BodyInput} (h : x.isChunked = false) {k : Nat}
    (hk : k ∈ x.held) : k ≤ maxRequestBodyBytes := by
  unfold isChunked at h
  unfold held meteredBody at hk
  cases hcontent : contentLengthOf x.headers with
  | error e =>
      rw [hcontent] at hk
      cases hk
  | ok contentLength =>
      rw [hcontent] at h hk
      dsimp only at h hk
      generalize ((headerValue x.headers "transfer-encoding").any fun v => hasPart v "chunked") = c
        at h hk
      by_cases hencoding : ((headerValue x.headers "transfer-encoding").isSome && !c) = true
      · rw [if_pos hencoding] at hk
        cases hk
      rw [if_neg hencoding] at hk
      by_cases hboth : (c && contentLength.isSome) = true
      · rw [if_pos hboth] at hk
        cases hk
      rw [if_neg hboth] at hk
      cases contentLength with
      | none =>
          rw [Bool.and_true] at h
          rw [h, if_neg Bool.false_ne_true] at hk
          cases hk
      | some contentLength =>
          rw [Option.isSome_some, Bool.and_true] at hboth
          rw [if_neg hboth] at hk
          dsimp only at hk
          by_cases hlarge : maxRequestBodyBytes < contentLength
          · rw [if_pos hlarge] at hk
            cases hk
          rw [if_neg hlarge] at hk
          have hheld : ∃ body : List UInt8, (body.take contentLength).length = k := by
            split at hk
            all_goals
              obtain ⟨body, -, hbody⟩ := List.mem_map.mp hk
              exact ⟨body, hbody⟩
          obtain ⟨body, rfl⟩ := hheld
          exact le_trans (List.length_take_le _ _) (not_lt.mp hlarge)

/-- A body that is returned is within the cap. -/
theorem body_le (x : BodyInput) {body : Body} {later : Conn}
    (h : readBody x.leftover x.headers x.conn = .ok (body, later)) :
    body.bytes.length ≤ maxRequestBodyBytes := by
  unfold readBody at h
  cases hcontent : contentLengthOf x.headers with
  | error e =>
      rw [hcontent] at h
      cases h
  | ok contentLength =>
      rw [hcontent] at h
      dsimp only at h
      split at h
      · cases h
      split at h
      · cases h
      split at h
      · unfold readChunkedRequestBody at h
        cases hread : readChunks (x.leftover.length + x.conn.flatten.length + 1) []
            x.leftover x.conn with
        | error e =>
            rw [hread] at h
            cases h
        | ok r =>
            rw [hread] at h
            cases h
            exact readChunks_length (Nat.zero_le _) hread
      · cases contentLength with
        | none =>
            cases h
            exact Nat.zero_le _
        | some contentLength =>
            dsimp only at h
            split at h
            · cases h
            · rename_i hlarge
              split at h
              · cases h
              · cases h
                exact le_trans (List.length_take_le _ _) (not_lt.mp hlarge)

/-- Every line of the body is held. -/
theorem line_held (x : BodyInput) {line : List UInt8} (h : line ∈ x.lines) :
    ∃ k ∈ x.held, line.length ≤ k := by
  unfold lines at h
  cases hchunked : x.isChunked with
  | false =>
      rw [hchunked] at h
      cases h
  | true =>
      rw [hchunked, if_pos rfl] at h
      rw [held_chunked hchunked]
      refine awaitedLines_held [] x.pos ?_ h
      rw [List.length_append]
      exact Nat.lt_succ_self _

/-- What is held, by the longest line. -/
theorem held_le (x : BodyInput) {L : Nat} (hlines : ∀ line ∈ x.lines, line.length ≤ L) {k : Nat}
    (hk : k ∈ x.held) : k ≤ mostHeld (maxHeaderBytes + 4096 + (L + 8193)) := by
  unfold lines at hlines
  cases hchunked : x.isChunked with
  | false =>
      have hle := held_le_of_not_chunked hchunked hk
      exact le_trans hle (Nat.le_add_right _ _)
  | true =>
      rw [hchunked, if_pos rfl] at hlines
      rw [held_chunked hchunked] at hk
      have hout : ([] : List UInt8).length ≤ maxRequestBodyBytes := Nat.zero_le _
      exact meteredChunks_bounded _ (Nat.le_add_left _ _) hout
        (le_trans x.leftover_le (Nat.le_add_right _ _)) x.pos hlines hk

end BodyInput

/-- What is held stays within the cap and a constant, for each of these inputs, and so does what is
returned within the cap. -/
def CapKept (inputs : Set BodyInput) : Prop :=
  ∃ C, ∀ x ∈ inputs, (∀ k ∈ x.held, k ≤ maxRequestBodyBytes + C) ∧
    ∀ body later, readBody x.leftover x.headers x.conn = .ok (body, later) →
      body.bytes.length ≤ maxRequestBodyBytes

/-- **The memory of a request body** stays within the cap and a constant for those inputs whose
lines are bounded. -/
theorem capKept_iff (inputs : Set BodyInput) :
    CapKept inputs ↔ ∃ L, ∀ x ∈ inputs, ∀ line ∈ x.lines, line.length ≤ L := by
  constructor
  · rintro ⟨C, hC⟩
    refine ⟨maxRequestBodyBytes + C, fun x hx line hline => ?_⟩
    obtain ⟨k, hk, hle⟩ := x.line_held hline
    exact le_trans hle ((hC x hx).1 k hk)
  · rintro ⟨L, hL⟩
    refine ⟨maxRequestBodyBytes + 8194 + (maxHeaderBytes + 4096 + (L + 8193)), fun x hx => ⟨?_, ?_⟩⟩
    · exact fun k hk => x.held_le (hL x hx) hk
    · exact fun body later h => x.body_le h

theorem position_replicate (n : Nat) (x : UInt8) (hx : x ≠ 13) :
    position crlf (List.replicate n x) = none := by
  cases h : position crlf (List.replicate n x) with
  | none => rfl
  | some i =>
      have hmem : (13 : UInt8) ∈ List.replicate n x := by
        rw [Segments.position_eq_some h]
        exact List.mem_append_right _ List.mem_cons_self
      exact absurd (List.eq_of_mem_replicate hmem).symm hx

/-- A body in chunks whose first line does not end. -/
def endlessLine (n : Nat) : BodyInput where
  headers := [("Transfer-Encoding".toList, "chunked".toList)]
  leftover := []
  conn := [97 :: List.replicate n 97]
  leftover_le := Nat.zero_le _
  pos := by
    intro seg hseg
    rw [List.mem_singleton.mp hseg]
    exact List.cons_ne_nil _ _

theorem endlessLine_lines (n : Nat) :
    (endlessLine n).lines = [List.replicate (n + 1) 97] := by
  have hchunked : (endlessLine n).isChunked = true := rfl
  have hflatten : (endlessLine n).leftover ++ (endlessLine n).conn.flatten =
      List.replicate (n + 1) 97 := List.append_nil _
  unfold BodyInput.lines
  rw [hchunked, if_pos rfl, hflatten]
  exact awaitedLines_none 0 (position_replicate _ _ (by decide))

/-- The cap is not kept for every body: a line that does not end is held in full. -/
theorem endless_line_held : ¬ CapKept Set.univ := by
  rintro ⟨C, hC⟩
  have hline : List.replicate (maxRequestBodyBytes + C + 1) 97 ∈
      (endlessLine (maxRequestBodyBytes + C)).lines := by
    rw [endlessLine_lines]
    exact List.mem_cons_self
  obtain ⟨k, hk, hle⟩ := (endlessLine (maxRequestBodyBytes + C)).line_held hline
  have hmost := (hC _ (Set.mem_univ _)).1 k hk
  rw [List.length_replicate] at hle
  exact absurd (le_trans hle hmost) (Nat.not_succ_le_self _)

end Rahgozar.Proxy.Mitm
