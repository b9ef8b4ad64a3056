import Rahgozar.Proxy.HttpRequest

set_option autoImplicit false

/-! # The keep-alive loop of a MITM connection

`run_mitm_then_relay` calls `handle_mitm_request` until it returns something else than `Ok(true)`.
Each call reads with buffers of its own, and what it has read beyond its request is gone. So the
requests that are passed on depend on how the client's bytes are cut into reads.
-/

namespace Rahgozar.Proxy.Mitm

open Drive (splitOnce)
open Segments (fill position)
open Udpgw (utf8CharWidth isContinuation)

/-- What is passed on of a request. -/
structure Request where
  method : List Char
  path : List Char
  headers : Headers
  body : List UInt8
  continued : Bool
deriving DecidableEq

/-- What becomes of a request once it is read: the forwarder answers it, or not, and the answer
cannot be written. -/
structure Relay where
  forwards : Request → Bool
  writeError : Request → Option IoError

def isXCom (host : List Char) : Bool :=
  let hostLower := toAsciiLowercase host
  isOrEndsIn hostLower "x.com".toList || isOrEndsIn hostLower "twitter.com".toList

/-- The path without the `features` and `fieldToggles` of a GraphQL query. -/
def fixPath (host path : List Char) : List Char :=
  if isXCom host && "/i/api/graphql/".toList.isPrefixOf path &&
      (position "?variables=".toList path).isSome then
    match splitOnce ['&'] path with
    | some (short, _) => short
    | none => path
  else path

def connectionClose (headers : Headers) : Bool :=
  headers.any fun (k, v) =>
    eqIgnoreAsciiCase k "connection".toList && eqIgnoreAsciiCase v "close".toList

/-- Whether the connection is kept once the request is answered. A preflight is answered at once,
any other request by the forwarder or by the relay. -/
def respond (relay : Relay) (req : Request) : Except IoError Bool :=
  match relay.writeError req with
  | some e => .error e
  | none =>
      if !eqIgnoreAsciiCase req.method "OPTIONS".toList && relay.forwards req then .ok false
      else .ok (!connectionClose req.headers)

/-- The outcome of one call: the request that was passed on, if one was, what the call returns, and
the connection after it. -/
structure Handled where
  request : Option Request
  result : Except IoError Bool
  conn : Conn

section

variable (host : List Char) (relay : Relay)

def handleMitmRequest (conn : Conn) : Handled :=
  match readHttpHeadIo conn with
  | .error e => ⟨none, .error e, []⟩
  | .ok (.closed, conn) => ⟨none, .ok false, conn⟩
  | .ok (.oversized, conn) => ⟨none, .ok false, conn⟩
  | .ok (.got head leftover, conn) =>
      match parseRequestHead head with
      | none => ⟨none, .ok false, conn⟩
      | some h =>
          match readBody leftover h.headers conn with
          | .error .fileTooLarge => ⟨none, .ok false, []⟩
          | .error e => ⟨none, .error e, []⟩
          | .ok (body, conn) =>
              let req : Request :=
                ⟨h.method, fixPath host h.target, h.headers, body.bytes, body.continued⟩
              ⟨some req, respond relay req, conn⟩

/-- The requests that the loop passes on, in at most `fuel` calls. -/
def mitmLoop : (fuel : Nat) → Conn → List Request
  | 0, _ => []
  | fuel + 1, conn =>
      let handled := handleMitmRequest host relay conn
      handled.request.toList ++
        match handled.result with
        | .ok true => mitmLoop fuel handled.conn
        | _ => []

/-- The requests that are passed on of a connection. Every call but the last takes a byte. -/
def served (conn : Conn) : List Request := mitmLoop host relay (conn.flatten.length + 1) conn

/-! ## Cuts -/

/-- The bytes of the requests, cut into reads. -/
structure Cut (rs : List WireRequest) (conn : Conn) : Prop where
  flatten : conn.flatten = rs.flatMap WireRequest.bytes
  pos : ∀ seg ∈ conn, seg ≠ []

/-- No read has bytes of two requests. -/
def Apart : List WireRequest → Conn → Prop
  | [], conn => conn = []
  | r :: rs, conn => ∃ mine later, conn = mine ++ later ∧ mine.flatten = r.bytes ∧ Apart rs later

def WireRequest.request (r : WireRequest) : Request :=
  ⟨r.parsed.method, fixPath host r.parsed.target, r.parsed.headers, r.body,
    continues r.parsed.headers⟩

/-- The connection is kept after the request. -/
def KeepsAlive (r : WireRequest) : Prop := respond relay (r.request host) = .ok true

end

/-! ## One request -/

section

variable (host : List Char) (relay : Relay) {mine : Conn} {rest : List UInt8}

/-- A request at the start of the connection is passed on, however it is cut. -/
theorem handleMitmRequest_append (r : WireRequest) (later : Conn) (hpos : ∀ seg ∈ mine, seg ≠ [])
    (hdata : mine.flatten = r.bytes ++ rest) :
    ∃ got mine', handleMitmRequest host relay (mine ++ later)
        = ⟨some (r.request host), respond relay (r.request host), mine' ++ later⟩ ∧
      mine'.flatten <:+ rest ∧ Segments.Taken 4096 mine got mine' := by
  have hdata : mine.flatten = r.head ++ (r.encoded ++ rest) := by
    rw [hdata, WireRequest.bytes, List.append_assoc]
  obtain ⟨leftover, got, mine₁, hhead, hleft, htaken⟩ :=
    readHttpHeadIo_append later hpos r.ends r.fits hdata
  obtain ⟨got₂, mine₂, hbody, hsuffix, htaken'⟩ := readBody_append later r.framing htaken.pos hleft
  refine ⟨got ++ got₂, mine₂, ?_, hsuffix, htaken.trans htaken'⟩
  unfold handleMitmRequest
  rw [hhead]
  dsimp only
  rw [r.parses]
  dsimp only
  rw [hbody]
  rfl

theorem flatten_eq_nil {segs : Conn} (hpos : ∀ seg ∈ segs, seg ≠ []) (h : segs.flatten = []) :
    segs = [] := by
  cases segs with
  | nil => rfl
  | cons seg segs =>
      rw [List.flatten_cons] at h
      exact absurd (List.append_eq_nil_iff.mp h).1 (hpos seg List.mem_cons_self)

/-- A request whose reads have nothing of another is passed on, and the next one is next. -/
theorem handleMitmRequest_apart (r : WireRequest) (later : Conn) (hpos : ∀ seg ∈ mine, seg ≠ [])
    (hdata : mine.flatten = r.bytes) :
    handleMitmRequest host relay (mine ++ later)
      = ⟨some (r.request host), respond relay (r.request host), later⟩ := by
  obtain ⟨got, mine', hhandled, hsuffix, htaken⟩ := handleMitmRequest_append host relay r
    later hpos (hdata.trans (List.append_nil _).symm)
  have hnil : mine' = [] := flatten_eq_nil htaken.pos (List.suffix_nil.mp hsuffix)
  rw [hhandled, hnil]
  rfl

/-! ### Heads that miss their first byte -/

theorem fromUtf8_of_isContinuation {b : UInt8} (h : isContinuation b = true) (bytes : List UInt8) :
    fromUtf8 (b :: bytes) = none := by
  obtain ⟨hle, hlt⟩ := (Bool.and_eq_true _ _).mp h
  have hwidth : utf8CharWidth b = 0 := by
    unfold utf8CharWidth
    rw [if_neg (by have := of_decide_eq_true hle; omega),
      if_pos (by have := of_decide_eq_true hlt; omega)]
  unfold fromUtf8
  rw [hwidth]
  rfl

/-- Behind the first byte of a text there is a text or no text. -/
theorem fromUtf8_cons {b : UInt8} {bytes : List UInt8} {text : List Char}
    (h : fromUtf8 (b :: bytes) = some text) :
    (∃ tail, fromUtf8 bytes = some tail ∧ text = Char.ofNat b.toNat :: tail) ∨
      fromUtf8 bytes = none := by
  unfold fromUtf8 at h
  split at h
  · obtain ⟨tail, htail, rfl⟩ := Option.map_eq_some_iff.mp h
    exact Or.inl ⟨tail, htail, rfl⟩
  · obtain ⟨hcont, -⟩ := Option.ite_none_right_eq_some.mp h
    exact Or.inr (fromUtf8_of_isContinuation hcont _)
  · obtain ⟨hcont, -⟩ := Option.ite_none_right_eq_some.mp h
    have hsecond := ((Bool.and_eq_true _ _).mp hcont).1
    exact Or.inr (fromUtf8_of_isContinuation ((Bool.and_eq_true _ _).mp hsecond).1 _)
  · obtain ⟨hcont, -⟩ := Option.ite_none_right_eq_some.mp h
    have hsecond := ((Bool.and_eq_true _ _).mp ((Bool.and_eq_true _ _).mp hcont).1).1
    exact Or.inr (fromUtf8_of_isContinuation ((Bool.and_eq_true _ _).mp hsecond).1 _)
  · cases h

theorem splitCrlf_ne_nil (text : List Char) : splitCrlf text ≠ [] := by
  unfold splitCrlf
  split
  · exact List.cons_ne_nil _ _
  · exact List.cons_ne_nil _ _
  · split
    · exact List.cons_ne_nil _ _
    · exact List.cons_ne_nil _ _

/-- The first line of a text is empty, or its tail is the first line of the tail. -/
theorem splitCrlf_cons {c : Char} {text first : List Char} {lines : List (List Char)}
    (h : splitCrlf (c :: text) = first :: lines) :
    first = [] ∨ ∃ tail, first = c :: tail ∧ splitCrlf text = tail :: lines := by
  unfold splitCrlf at h
  split at h
  · rename_i heq
    cases heq
  · exact Or.inl (List.cons.inj h).1.symm
  · rename_i heq
    cases heq
    split at h
    · rename_i hnil
      exact absurd hnil (splitCrlf_ne_nil _)
    · rename_i line lines' hsplit
      obtain ⟨rfl, rfl⟩ := List.cons.inj h
      exact Or.inr ⟨line, rfl, hsplit⟩

theorem requestLine_cons {c : Char} {line m t v : List Char}
    (h : requestLine (c :: line) = some (m, t, v)) :
    m = [] ∨ ∃ m' t' v', m = c :: m' ∧ requestLine line = some (m', t', v') := by
  obtain ⟨⟨method, rest⟩, hsplit, hparts⟩ := Option.map_eq_some_iff.mp h
  have hm : m = method := by
    dsimp only at hparts
    split at hparts
    · exact (Prod.mk.inj hparts).1.symm
    · exact (Prod.mk.inj hparts).1.symm
  subst hm
  unfold splitOnce at hsplit
  split at hsplit
  · exact Or.inl (Prod.mk.inj (Option.some.inj hsplit)).1.symm
  · obtain ⟨⟨m', rest'⟩, hsplit', heq⟩ := Option.map_eq_some_iff.mp hsplit
    obtain ⟨rfl, -⟩ := Prod.mk.inj heq
    have hline : ∃ t' v', requestLine line = some (m', t', v') := by
      unfold requestLine
      rw [hsplit', Option.map_some]
      dsimp only
      split
      · exact ⟨_, _, rfl⟩
      · exact ⟨_, _, rfl⟩
    obtain ⟨t', v', hline⟩ := hline
    exact Or.inr ⟨m', t', v', rfl, hline⟩

/-- No method is another one without its first letter. -/
theorem isValidHttpMethod_tail {c : Char} {m : List Char} (h : isValidHttpMethod (c :: m) = true) :
    isValidHttpMethod m = false := by
  have htails : ∀ s ∈ validHttpMethods, isValidHttpMethod s.toList.tail = false := by decide +kernel
  obtain ⟨s, hs, heq⟩ := List.any_eq_true.mp h
  have := htails s hs
  rwa [of_decide_eq_true heq] at this

theorem parseRequestHead_eq_some {head : List UInt8} {parsed : RequestHead}
    (h : parseRequestHead head = some parsed) :
    ∃ text first lines m t v, fromUtf8 head = some text ∧ splitCrlf text = first :: lines ∧
      requestLine first = some (m, t, v) ∧ isValidHttpMethod m = true := by
  obtain ⟨text, htext, h⟩ := Option.bind_eq_some_iff.mp h
  cases hsplit : splitCrlf text with
  | nil => exact absurd hsplit (splitCrlf_ne_nil text)
  | cons first lines =>
      rw [hsplit] at h
      obtain ⟨⟨m, t, v⟩, hline, h⟩ := Option.bind_eq_some_iff.mp h
      obtain ⟨hvalid, -⟩ := Option.ite_none_left_eq_some.mp h
      exact ⟨text, first, lines, m, t, v, htext, hsplit, hline, by simpa using hvalid⟩

/-- A head with its first byte gone has no valid method. -/
theorem parseRequestHead_tail {b : UInt8} {head : List UInt8} {parsed : RequestHead}
    (hparses : parseRequestHead (b :: head) = some parsed) : parseRequestHead head = none := by
  obtain ⟨text, first, lines, m, t, v, htext, hsplit, hline, hvalid⟩ :=
    parseRequestHead_eq_some hparses
  rcases fromUtf8_cons htext with ⟨tail, htail, rfl⟩ | hnone
  · rcases splitCrlf_cons hsplit with rfl | ⟨line, rfl, hsplit'⟩
    · cases hline
    rcases requestLine_cons hline with rfl | ⟨m', t', v', rfl, hline'⟩
    · exact absurd hvalid (by decide)
    unfold parseRequestHead
    rw [htail, Option.bind_some, hsplit']
    dsimp only
    rw [hline', Option.bind_some, isValidHttpMethod_tail hvalid]
    rfl
  · unfold parseRequestHead
    rw [hnone]
    rfl

/-- It still has its end. -/
theorem findHeadersEnd_tail {b : UInt8} {head : List UInt8} {parsed : RequestHead}
    (hends : findHeadersEnd (b :: head) = some (b :: head).length)
    (hparses : parseRequestHead (b :: head) = some parsed) :
    findHeadersEnd head = some head.length := by
  obtain ⟨i, hi, hlength⟩ := Option.map_eq_some_iff.mp hends
  unfold position at hi
  split at hi
  · -- the head is an empty line
    rename_i hpre
    obtain ⟨rest, hrest⟩ := List.isPrefixOf_iff_prefix.mp hpre
    have hhead : b :: head = 13 :: 10 :: (crlf ++ rest) := hrest.symm
    rw [hhead] at hparses
    obtain ⟨text, first, lines, m, t, v, htext, hsplit, hline, -⟩ :=
      parseRequestHead_eq_some hparses
    have htext : ((fromUtf8 (crlf ++ rest)).map fun text => '\n' :: text).map
      (fun text => '\r' :: text) = some text := htext
    obtain ⟨tail, htail, rfl⟩ := Option.map_eq_some_iff.mp htext
    obtain ⟨tail, -, rfl⟩ := Option.map_eq_some_iff.mp htail
    obtain ⟨rfl, -⟩ := List.cons.inj hsplit
    cases hline
  · obtain ⟨j, hj, rfl⟩ := Option.map_eq_some_iff.mp hi
    unfold findHeadersEnd
    rw [hj, Option.map_some]
    rw [List.length_cons] at hlength
    congr 1
    omega

/-- A request without its first byte is not passed on, and ends the connection. -/
theorem handleMitmRequest_tail (r : WireRequest) {b : UInt8} {tail : List UInt8}
    (hbytes : r.bytes = b :: tail) (hpos : ∀ seg ∈ mine, seg ≠ [])
    (hdata : mine.flatten = tail ++ rest) :
    (handleMitmRequest host relay mine).request = none ∧
      (handleMitmRequest host relay mine).result = .ok false := by
  have hends := r.ends
  have hparses := r.parses
  have hfits := r.fits
  unfold WireRequest.bytes at hbytes
  cases hhead : r.head with
  | nil =>
      rw [hhead] at hends
      cases hends
  | cons b' head =>
      rw [hhead] at hends hparses hfits hbytes
      rw [List.cons_append] at hbytes
      obtain ⟨rfl, htail⟩ := List.cons.inj hbytes
      have hdata : mine.flatten = head ++ (r.encoded ++ rest) := by
        rw [hdata, ← htail, List.append_assoc]
      obtain ⟨leftover, got, mine', hread, -, -⟩ := readHttpHeadIo_append [] hpos
        (findHeadersEnd_tail hends hparses) (Nat.le_of_succ_le hfits) hdata
      rw [List.append_nil] at hread
      unfold handleMitmRequest
      rw [hread]
      dsimp only
      rw [parseRequestHead_tail hparses]
      exact ⟨rfl, rfl⟩

/-! ## The loop -/

theorem WireRequest.bytes_ne_nil (r : WireRequest) : r.bytes ≠ [] := by
  intro hnil
  have hends := r.ends
  rw [(List.append_eq_nil_iff.mp hnil).1] at hends
  cases hends

theorem mitmLoop_apart {rs : List WireRequest} {conn : Conn} {fuel : Nat}
    (hkeep : ∀ r ∈ rs, KeepsAlive host relay r) (hpos : ∀ seg ∈ conn, seg ≠ [])
    (hapart : Apart rs conn) (hfuel : rs.length < fuel) :
    mitmLoop host relay fuel conn = rs.map (WireRequest.request host) := by
  induction rs generalizing conn fuel with
  | nil =>
      obtain ⟨fuel, rfl⟩ : ∃ f, fuel = f + 1 := ⟨fuel - 1, by omega⟩
      cases hapart
      rfl
  | cons r rs ih =>
      obtain ⟨fuel, rfl⟩ : ∃ f, fuel = f + 1 := ⟨fuel - 1, by omega⟩
      obtain ⟨hr, hkeep⟩ := List.forall_mem_cons.mp hkeep
      obtain ⟨mine, later, rfl, hmine, hapart⟩ := hapart
      obtain ⟨hpos, hlater⟩ := List.forall_mem_append.mp hpos
      unfold mitmLoop
      rw [handleMitmRequest_apart host relay r later hpos hmine]
      dsimp only
      unfold KeepsAlive at hr
      rw [hr]
      dsimp only
      rw [ih hkeep hlater hapart (by simpa using hfuel)]
      rfl

theorem length_le_of_apart {rs : List WireRequest} {conn : Conn} (hapart : Apart rs conn) :
    rs.length ≤ conn.flatten.length := by
  induction rs generalizing conn with
  | nil => exact Nat.zero_le _
  | cons r rs ih =>
      obtain ⟨mine, later, rfl, hmine, hapart⟩ := hapart
      have hbytes := List.length_pos_iff.mpr r.bytes_ne_nil
      have hrest := ih hapart
      rw [List.flatten_append, List.length_append, hmine, List.length_cons]
      omega

/-- Requests that share no read are all passed on. -/
theorem served_apart {rs : List WireRequest} {conn : Conn}
    (hkeep : ∀ r ∈ rs, KeepsAlive host relay r) (hpos : ∀ seg ∈ conn, seg ≠ [])
    (hapart : Apart rs conn) : served host relay conn = rs.map (WireRequest.request host) :=
  mitmLoop_apart host relay hkeep hpos hapart (Nat.lt_succ_of_le (length_le_of_apart hapart))

/-- Every cut of one request keeps it apart. -/
theorem Cut.apart_of_length_le_one {rs : List WireRequest} {conn : Conn} (hcut : Cut rs conn)
    (hone : rs.length ≤ 1) : Apart rs conn := by
  match rs, hone with
  | [], _ => exact flatten_eq_nil hcut.pos hcut.flatten
  | [r], _ =>
      refine ⟨conn, [], (List.append_nil _).symm, ?_, rfl⟩
      rw [hcut.flatten, List.flatMap_singleton]

/-- A read for each request keeps them apart. -/
theorem cut_map_bytes (rs : List WireRequest) :
    Cut rs (rs.map WireRequest.bytes) ∧ Apart rs (rs.map WireRequest.bytes) := by
  refine ⟨⟨rfl, fun seg hseg => ?_⟩, ?_⟩
  · obtain ⟨r, -, rfl⟩ := List.mem_map.mp hseg
    exact r.bytes_ne_nil
  · induction rs with
    | nil => rfl
    | cons r rs ih => exact ⟨[r.bytes], _, rfl, List.append_nil _, ih⟩

/-! ## Reads that requests share -/

/-- A read for each byte. -/
def singles (bytes : List UInt8) : Conn := bytes.map fun b => [b]

theorem flatten_singles (bytes : List UInt8) : (singles bytes).flatten = bytes := by
  induction bytes with
  | nil => rfl
  | cons b bytes ih =>
      show b :: (singles bytes).flatten = b :: bytes
      rw [ih]

theorem length_of_mem_singles {bytes seg : List UInt8} (h : seg ∈ singles bytes) :
    seg.length = 1 := by
  obtain ⟨b, -, rfl⟩ := List.mem_map.mp h
  rfl

theorem ne_nil_of_mem_singles {bytes seg : List UInt8} (h : seg ∈ singles bytes) : seg ≠ [] :=
  List.ne_nil_of_length_pos (by rw [length_of_mem_singles h]; exact Nat.one_pos)

theorem ne_nil_of_mem_shared (init : List UInt8) (x y : UInt8) :
    ∀ seg ∈ singles init ++ [[x, y]], seg ≠ [] := by
  refine List.forall_mem_append.mpr ⟨fun seg hseg => ne_nil_of_mem_singles hseg, fun seg hseg => ?_⟩
  rw [List.mem_singleton.mp hseg]
  exact List.cons_ne_nil _ _

/-- A request whose last byte comes in one read with the first byte of the next one: that byte is
gone. -/
theorem handleMitmRequest_shared (r : WireRequest) {init : List UInt8} {x y : UInt8} (later : Conn)
    (hbytes : r.bytes = init ++ [x]) :
    handleMitmRequest host relay (singles init ++ [[x, y]] ++ later)
      = ⟨some (r.request host), respond relay (r.request host), later⟩ := by
  have hpos := ne_nil_of_mem_shared init x y
  have hsmall : ∀ seg ∈ singles init ++ [[x, y]], seg.length ≤ 4096 := by
    refine List.forall_mem_append.mpr ⟨fun seg hseg => ?_, fun seg hseg => ?_⟩
    · rw [length_of_mem_singles hseg]
      decide
    · rw [List.mem_singleton.mp hseg]
      show 2 ≤ 4096
      decide
  have hdata : (singles init ++ [[x, y]]).flatten = r.bytes ++ [y] := by
    rw [List.flatten_append, flatten_singles, hbytes, List.append_assoc]
    rfl
  obtain ⟨got, mine', hhandled, hsuffix, htaken⟩ :=
    handleMitmRequest_append host relay r later hpos hdata
  have hnil : mine' = [] := by
    -- what is left of the reads, if anything, ends in the shared one
    rcases List.eq_nil_or_concat mine' with hnil | ⟨front, last, hlast⟩
    · exact hnil
    · obtain ⟨before, hbefore⟩ := htaken.whole hsmall
      rw [hlast, List.concat_eq_append, ← List.append_assoc] at hbefore
      have hshared : last = [x, y] := List.singleton_inj.mp (List.append_inj_right' hbefore rfl)
      have hlength := hsuffix.length_le
      rw [hlast, hshared, List.concat_eq_append, List.flatten_append, List.length_append] at hlength
      simp at hlength
  rw [hhandled, hnil]
  rfl

/-- Two requests can be cut so that the second one is not passed on. -/
theorem exists_cut_served_one (r r' : WireRequest) (rs : List WireRequest)
    (hkeep : KeepsAlive host relay r) :
    ∃ conn, Cut (r :: r' :: rs) conn ∧ served host relay conn = [r.request host] := by
  obtain ⟨init, x, hx⟩ : ∃ init x, r.bytes = init ++ [x] :=
    ⟨_, _, (List.dropLast_concat_getLast r.bytes_ne_nil).symm⟩
  obtain ⟨y, tail, hy⟩ := List.exists_cons_of_ne_nil r'.bytes_ne_nil
  obtain ⟨later, hlater⟩ : ∃ later, later = singles (tail ++ rs.flatMap WireRequest.bytes) :=
    ⟨_, rfl⟩
  have hpos : ∀ seg ∈ later, seg ≠ [] := by
    rw [hlater]
    exact fun seg hseg => ne_nil_of_mem_singles hseg
  have hflatten : later.flatten = tail ++ rs.flatMap WireRequest.bytes := by
    rw [hlater, flatten_singles]
  refine ⟨singles init ++ [[x, y]] ++ later, ⟨?_, ?_⟩, ?_⟩
  · rw [List.flatten_append, List.flatten_append, flatten_singles, hflatten, List.flatMap_cons,
      List.flatMap_cons, hx, hy]
    simp
  · exact List.forall_mem_append.mpr ⟨ne_nil_of_mem_shared init x y, hpos⟩
  · obtain ⟨fuel, hfuel⟩ : ∃ fuel,
        (singles init ++ [[x, y]] ++ later).flatten.length + 1 = fuel + 2 := by
      refine ⟨init.length + 1 + later.flatten.length, ?_⟩
      rw [List.flatten_append, List.flatten_append, flatten_singles]
      simp only [List.length_append, List.flatten_cons, List.flatten_nil, List.length_cons,
        List.length_nil]
      omega
    unfold served
    rw [hfuel]
    obtain ⟨hrequest, hresult⟩ := handleMitmRequest_tail host relay r' hy hpos hflatten
    unfold mitmLoop
    rw [handleMitmRequest_shared host relay r later hx]
    dsimp only
    unfold KeepsAlive at hkeep
    rw [hkeep]
    dsimp only
    unfold mitmLoop
    dsimp only
    rw [hrequest, hresult]
    rfl

/-- Requests that share no read are passed on as they were sent. Where requests may share reads, the
requests that are passed on are the same for all cuts when there is at most one. -/
theorem served_eq_iff (rs : List WireRequest) (hkeep : ∀ r ∈ rs, KeepsAlive host relay r) :
    (∀ conn, Cut rs conn → Apart rs conn →
      served host relay conn = rs.map (WireRequest.request host)) ∧
    ((∀ conn conn', Cut rs conn → Cut rs conn' → served host relay conn = served host relay conn') ↔
      rs.length ≤ 1) := by
  refine ⟨fun conn hcut hapart => served_apart host relay hkeep hcut.pos hapart, ?_⟩
  constructor
  · intro hsame
    rcases rs with _ | ⟨r, _ | ⟨r', rs⟩⟩
    · exact Nat.zero_le 1
    · exact Nat.le_refl 1
    · obtain ⟨hcut, hapart⟩ := cut_map_bytes (r :: r' :: rs)
      obtain ⟨conn, hcut', hone⟩ :=
        exists_cut_served_one host relay r r' rs (hkeep r List.mem_cons_self)
      have hboth := hsame _ _ hcut hcut'
      rw [served_apart host relay hkeep hcut.pos hapart, hone] at hboth
      cases hboth
  · intro hone conn conn' hcut hcut'
    rw [served_apart host relay hkeep hcut.pos (hcut.apart_of_length_le_one hone),
      served_apart host relay hkeep hcut'.pos (hcut'.apart_of_length_le_one hone)]

end

/-! ## Two requests -/

def ascii (text : String) : List UInt8 := text.toList.map fun c => UInt8.ofNat c.toNat

def getRequest : WireRequest where
  head := ascii "GET / HTTP/1.1\r\nHost: a\r\n\r\n"
  parsed := ⟨"GET".toList, "/".toList, "HTTP/1.1".toList, [("Host".toList, "a".toList)]⟩
  encoded := []
  body := []
  ends := by decide +kernel
  fits := by decide +kernel
  parses := by decide +kernel
  framing := .empty (by decide +kernel) (by decide +kernel)

/-- A chunk with an extension, and a trailer. -/
theorem chunked_abc :
    Chunked (ascii "3;x=y\r\nabc\r\n0\r\nT: v\r\n\r\n") (ascii "abc") := by
  have hzero : position crlf (ascii "0") = none := by decide +kernel
  have htrailers : ∀ t ∈ [ascii "T: v"], position crlf t = none ∧ t ≠ [] := by decide +kernel
  have hline : position crlf (ascii "3;x=y") = none := by decide +kernel
  have hsize : chunkSize (ascii "3;x=y") = .ok (ascii "abc").length := by decide +kernel
  have hlast : Chunked (ascii "0\r\nT: v\r\n\r\n") [] :=
    Chunked.last hzero (by decide +kernel) htrailers
  exact Chunked.chunk hline hsize (by decide +kernel) hlast

def postRequest : WireRequest where
  head := ascii "POST /u HTTP/1.1\r\nTransfer-Encoding: chunked\r\n\r\n"
  parsed := ⟨"POST".toList, "/u".toList, "HTTP/1.1".toList,
    [("Transfer-Encoding".toList, "chunked".toList)]⟩
  encoded := ascii "3;x=y\r\nabc\r\n0\r\nT: v\r\n\r\n"
  body := ascii "abc"
  ends := by decide +kernel
  fits := by decide +kernel
  parses := by decide +kernel
  framing := .chunked (v := "chunked".toList) (by decide +kernel) (by decide +kernel)
    (by decide +kernel) chunked_abc (by decide +kernel)

/-- A relay that answers every request. -/
def Relay.answering : Relay := ⟨fun _ => false, fun _ => none⟩

theorem served_eq_iff_post :
    (∀ r ∈ [postRequest, getRequest], KeepsAlive "a".toList .answering r) ∧
    (∀ conn, Cut [postRequest, getRequest] conn → Apart [postRequest, getRequest] conn →
      served "a".toList .answering conn
        = [postRequest, getRequest].map (WireRequest.request "a".toList)) ∧
    ((∀ conn conn', Cut [postRequest, getRequest] conn → Cut [postRequest, getRequest] conn' →
      served "a".toList .answering conn = served "a".toList .answering conn') ↔ 2 ≤ 1) := by
  have hkeep : ∀ r ∈ [postRequest, getRequest], KeepsAlive "a".toList .answering r := by
    unfold KeepsAlive
    decide +kernel
  exact ⟨hkeep, served_eq_iff "a".toList .answering [postRequest, getRequest] hkeep⟩

/-- Of two requests in one read the second is lost. -/
theorem served_two_gets :
    ¬ ∀ conn conn', Cut [getRequest, getRequest] conn → Cut [getRequest, getRequest] conn' →
      served "a".toList .answering conn = served "a".toList .answering conn' := by
  intro hsame
  have hone : Cut [getRequest, getRequest] [getRequest.bytes ++ getRequest.bytes] :=
    ⟨by decide +kernel, by decide +kernel⟩
  have htwo : Cut [getRequest, getRequest] [getRequest.bytes, getRequest.bytes] :=
    ⟨by decide +kernel, by decide +kernel⟩
  have hlength := congrArg List.length (hsame _ _ hone htwo)
  revert hlength
  decide +kernel

end Rahgozar.Proxy.Mitm
