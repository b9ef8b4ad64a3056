import Rahgozar.Proxy.ChunkedDecoders

set_option autoImplicit false

/-! # Downloads of updates (`src/update_check.rs`)

`https_raw_get` asks a server, reads until the connection ends, and `parse_response` takes the body
or, on a redirect, asks again. The number of requests is up to the servers, and so is where a body
ends. A server answers each request with the reads of a connection and the way it ends, or there is
no connection.
-/

namespace Rahgozar.Update.Download

open Drive (trim isWhitespace splitOnce stripPrefix parseUnsigned)
open Proxy (toAsciiLowercase)
open Proxy.Mitm (crlf fromUtf8 parseHeaderLine eqIgnoreAsciiCase hasPart)
open Segments (position)

/-! ## The functions -/

def apiReadLimitBytes : Nat := 512 * 1024
def binaryReadLimitBytes : Nat := 256 * 1024 * 1024

structure Request where
  host : List Char
  path : List Char
deriving DecidableEq

/-- What becomes of a request. `refused` is an error before it is written, and the end of the reads
is an error where it is not `none`. -/
inductive Hop where
  | refused (e : String)
  | answered (reads : List (List UInt8)) (ending : Option String)

/-- The answer to the `n`-th request. -/
abbrev Server := Nat → Request → Hop

/-- `str::lines` -/
def lines (text : List Char) : List (List Char) :=
  let pieces := text.splitOn '\n'
  let ended := pieces.dropLast.map fun l => if l.getLast? = some '\r' then l.dropLast else l
  match pieces.getLast? with
  | some (c :: last) => ended ++ [c :: last]
  | _ => ended

/-- `split_whitespace` -/
def splitWhitespace (text : List Char) : List (List Char) :=
  (text.splitOnP isWhitespace).filter fun w => !w.isEmpty

def parseUrl (url defaultHost : List Char) : Request :=
  match stripPrefix "https://".toList url with
  | some rest =>
      if '/' ∈ rest then ⟨rest.takeWhile (· ≠ '/'), rest.dropWhile (· ≠ '/')⟩ else ⟨rest, ['/']⟩
  | none => if url.head? = some '/' then ⟨defaultHost, url⟩ else ⟨defaultHost, '/' :: url⟩

def splitUrl (url : List Char) : Option Request :=
  (stripPrefix "https://".toList url).bind fun rest =>
    if '/' ∈ rest then some ⟨rest.takeWhile (· ≠ '/'), rest.dropWhile (· ≠ '/')⟩ else none

/-- The reads, put together up to the end of the connection. -/
def readToEnd (binary : Bool) (ending : Option String) :
    (buf : List UInt8) → (reads : List (List UInt8)) → Except String (List UInt8)
  | buf, [] =>
      match ending with
      | none => .ok buf
      | some e => .error e
  | buf, chunk :: reads =>
      if chunk.isEmpty then .ok buf
      else
        let buf := buf ++ chunk
        if (if binary then binaryReadLimitBytes else apiReadLimitBytes) < buf.length then
          .error ("response too large (>" ++ (if binary then "256 MiB" else "512 KiB") ++ " limit)")
        else readToEnd binary ending buf reads

def statusOf (first : List Char) : Option Nat :=
  ((splitWhitespace first)[1]?).bind (parseUnsigned (2 ^ 16))

def isRedirectStatus (status : Nat) : Bool := [301, 302, 307, 308].contains status

def locationOf (hdr : List Char) : Option (List Char) :=
  ((lines hdr).find? fun l => "location:".toList.isPrefixOf (toAsciiLowercase l)).map fun l =>
    trim ((l.dropWhile (· ≠ ':')).drop 1)

/-- What `parse_response` comes to: a result, or another request. -/
inductive Reply where
  | done (r : Except String (List UInt8))
  | redirect (next : Request)

def parseResponse (buf : List UInt8) (host : List Char) : Reply :=
  match position (crlf ++ crlf) buf with
  | none => .done (.error "no HTTP header terminator")
  | some hdrEnd =>
      match fromUtf8 (buf.take hdrEnd) with
      | none => .done (.error "non-utf8 header")
      | some hdr =>
          let body := buf.drop (hdrEnd + 4)
          let first := (lines hdr).headD []
          match statusOf first with
          | none => .done (.error ("bad status line: " ++ String.ofList first))
          | some status =>
              if status = 200 then .done (.ok body)
              else if isRedirectStatus status then
                match locationOf hdr with
                | none => .done (.error "redirect without Location")
                | some loc => .redirect (parseUrl loc host)
              else
                .done (.error ("HTTP " ++ toString status ++ ": " ++
                  String.ofList ((Udpgw.fromUtf8Lossy body).take 240)))

/-- The requests that are made, the result, when there is one, and the response it is from. -/
structure Exchange where
  requests : List Request
  result : Option (Except String (List UInt8))
  response : List UInt8

/-- `https_raw_get` and `parse_response` call each other; here, `fuel` times at most. -/
def httpsRawGet (server : Server) (binary : Bool) : (fuel n : Nat) → Request → Exchange
  | 0, _, _ => ⟨[], none, []⟩
  | fuel + 1, n, req =>
      match server n req with
      | .refused e => ⟨[], some (.error e), []⟩
      | .answered reads ending =>
          match readToEnd binary ending [] reads with
          | .error e => ⟨[req], some (.error e), []⟩
          | .ok buf =>
              match parseResponse buf req.host with
              | .done r => ⟨[req], some r, buf⟩
              | .redirect next =>
                  let rest := httpsRawGet server binary fuel (n + 1) next
                  ⟨req :: rest.requests, rest.result, rest.response⟩

/-- The file that is written, and its length. -/
def downloadAsset (server : Server) (fuel : Nat) (assetUrl : List Char) :
    Option (Except String (List UInt8 × Nat)) :=
  match splitUrl assetUrl with
  | none => some (.error ("bad asset URL: " ++ String.ofList assetUrl))
  | some req =>
      (httpsRawGet server true fuel 0 req).result.map fun r => r.map fun body => (body, body.length)

/-- A file that is written is the result, all of it. -/
theorem downloadAsset_ok {server : Server} {fuel len : Nat} {assetUrl : List Char}
    {file : List UInt8} (h : downloadAsset server fuel assetUrl = some (.ok (file, len))) :
    len = file.length ∧ ∃ req, splitUrl assetUrl = some req ∧
      (httpsRawGet server true fuel 0 req).result = some (.ok file) := by
  unfold downloadAsset at h
  cases hreq : splitUrl assetUrl with
  | none =>
    rw [hreq] at h
    cases h
  | some req =>
    rw [hreq] at h
    dsimp only at h
    cases hresult : (httpsRawGet server true fuel 0 req).result with
    | none =>
      rw [hresult] at h
      cases h
    | some r =>
      cases r with
      | error e =>
        rw [hresult] at h
        cases h
      | ok body =>
        rw [hresult] at h
        cases h
        exact ⟨rfl, req, rfl, hresult⟩

/-! ## What a response delivers -/

/-- The values of a header field. -/
def fieldValues (hdr : List Char) (name : String) : List (List Char) :=
  (((lines hdr).tail.filterMap parseHeaderLine).filter fun f =>
    eqIgnoreAsciiCase f.1 name.toList).map Prod.snd

def isChunked (hdr : List Char) : Bool :=
  (fieldValues hdr "transfer-encoding").any fun v => hasPart v "chunked"

/-- Every `Content-Length` is the number of bytes. -/
def LengthsAgree (hdr : List Char) (n : Nat) : Prop :=
  ∀ v ∈ fieldValues hdr "content-length", parseUnsigned (2 ^ 64) v = some n

/-- The response is complete, and its body, decoded, is `b`. -/
def Delivers (buf b : List UInt8) : Prop :=
  ∃ hdrEnd hdr, position (crlf ++ crlf) buf = some hdrEnd ∧
    fromUtf8 (buf.take hdrEnd) = some hdr ∧
    if isChunked hdr then
      Chunks.decode crlf Chunked.edgeLine Chunked.edgeFits buf.length [] (buf.drop (hdrEnd + 4)) =
        some b
    else LengthsAgree hdr (buf.length - (hdrEnd + 4)) ∧ b = buf.drop (hdrEnd + 4)

/-- The response is not in chunks, and all of it has come. -/
def Whole (buf : List UInt8) : Prop :=
  ∀ hdrEnd hdr, position (crlf ++ crlf) buf = some hdrEnd →
    fromUtf8 (buf.take hdrEnd) = some hdr →
    isChunked hdr = false ∧ LengthsAgree hdr (buf.length - (hdrEnd + 4))

/-- A result is the body of a response with its head read. -/
theorem parseResponse_done {buf b : List UInt8} {host : List Char}
    (h : parseResponse buf host = .done (.ok b)) :
    ∃ hdrEnd hdr, position (crlf ++ crlf) buf = some hdrEnd ∧
      fromUtf8 (buf.take hdrEnd) = some hdr ∧ b = buf.drop (hdrEnd + 4) := by
  unfold parseResponse at h
  cases hpos : position (crlf ++ crlf) buf with
  | none =>
    rw [hpos] at h
    cases h
  | some hdrEnd =>
    rw [hpos] at h
    dsimp only at h
    cases hhdr : fromUtf8 (buf.take hdrEnd) with
    | none =>
      rw [hhdr] at h
      cases h
    | some hdr =>
      rw [hhdr] at h
      dsimp only at h
      refine ⟨hdrEnd, hdr, rfl, hhdr, ?_⟩
      cases hstatus : statusOf ((lines hdr).headD []) with
      | none =>
        rw [hstatus] at h
        cases h
      | some status =>
        rw [hstatus] at h
        dsimp only at h
        split_ifs at h
        · cases h
          rfl
        · cases hloc : locationOf hdr with
          | none =>
            rw [hloc] at h
            cases h
          | some loc =>
            rw [hloc] at h
            cases h
        · cases h

/-- A body is delivered as it is if and only if the response is whole. -/
theorem delivers_iff_whole {buf b : List UInt8} {host : List Char}
    (h : parseResponse buf host = .done (.ok b)) : Delivers buf b ↔ Whole buf := by
  obtain ⟨hdrEnd, hdr, hpos, hhdr, rfl⟩ := parseResponse_done h
  constructor
  · rintro ⟨hdrEnd', hdr', hpos', hhdr', hbody⟩ i text hi htext
    rw [hpos] at hpos' hi
    cases hpos'
    cases hi
    rw [hhdr] at hhdr' htext
    cases hhdr'
    cases htext
    cases hchunked : isChunked hdr with
    | true =>
      -- chunks are longer than what is in them
      rw [if_pos hchunked] at hbody
      have hlt := Chunks.length_decode (by decide) hbody
      simp at hlt
    | false =>
      rw [hchunked, if_neg Bool.false_ne_true] at hbody
      exact ⟨rfl, hbody.1⟩
  · intro hwhole
    obtain ⟨hchunked, hlengths⟩ := hwhole hdrEnd hdr hpos hhdr
    refine ⟨hdrEnd, hdr, hpos, hhdr, ?_⟩
    rw [hchunked, if_neg Bool.false_ne_true]
    exact ⟨hlengths, rfl⟩

/-! ## Runs -/

section

variable (server : Server) (binary : Bool)

/-- A response that is read to its end, and what `parse_response` makes of it. -/
def replyAt (n : Nat) (req : Request) : Option (List UInt8 × Reply) :=
  match server n req with
  | .refused _ => none
  | .answered reads ending =>
      match readToEnd binary ending [] reads with
      | .error _ => none
      | .ok buf => some (buf, parseResponse buf req.host)

/-- From the `n`-th request on, `k` requests are made at most, there is a result, and what it has is
delivered by the last response. -/
structure Settles (k n : Nat) (req : Request) : Prop where
  ends : ∃ fuel, (httpsRawGet server binary fuel n req).result.isSome
  few : ∀ fuel, (httpsRawGet server binary fuel n req).requests.length ≤ k
  delivered : ∀ fuel b, (httpsRawGet server binary fuel n req).result = some (.ok b) →
    Delivers (httpsRawGet server binary fuel n req).response b

/-- Redirects are behind fewer than `k` requests, or lead to where there is no connection; and a
response with status 200 is whole. -/
def Straight : (k n : Nat) → Request → Prop
  | 0, n, req => ∃ e, server n req = .refused e
  | k + 1, n, req =>
      match replyAt server binary n req with
      | some (buf, .done (.ok _)) => Whole buf
      | some (_, .redirect next) => Straight k (n + 1) next
      | _ => True

end

section

variable {server : Server} {binary : Bool} {n k : Nat} {req next : Request} {buf : List UInt8}

theorem httpsRawGet_succ (fuel : Nat) :
    httpsRawGet server binary (fuel + 1) n req =
      match server n req with
      | .refused e => ⟨[], some (.error e), []⟩
      | .answered reads ending =>
          match readToEnd binary ending [] reads with
          | .error e => ⟨[req], some (.error e), []⟩
          | .ok buf =>
              match parseResponse buf req.host with
              | .done r => ⟨[req], some r, buf⟩
              | .redirect next =>
                  let rest := httpsRawGet server binary fuel (n + 1) next
                  ⟨req :: rest.requests, rest.result, rest.response⟩ :=
  rfl

theorem httpsRawGet_failed (h : replyAt server binary n req = none) (fuel : Nat) :
    ∃ requests e, httpsRawGet server binary (fuel + 1) n req = ⟨requests, some (.error e), []⟩ ∧
      requests.length ≤ 1 := by
  unfold replyAt at h
  rw [httpsRawGet_succ]
  cases hserver : server n req with
  | refused e => exact ⟨[], e, rfl, Nat.zero_le 1⟩
  | answered reads ending =>
    rw [hserver] at h
    dsimp only at h ⊢
    cases hread : readToEnd binary ending [] reads with
    | error e => exact ⟨[req], e, rfl, le_rfl⟩
    | ok buf =>
      rw [hread] at h
      cases h

theorem httpsRawGet_done {r : Except String (List UInt8)}
    (h : replyAt server binary n req = some (buf, .done r)) (fuel : Nat) :
    httpsRawGet server binary (fuel + 1) n req = ⟨[req], some r, buf⟩ := by
  unfold replyAt at h
  rw [httpsRawGet_succ]
  cases hserver : server n req with
  | refused e =>
    rw [hserver] at h
    cases h
  | answered reads ending =>
    rw [hserver] at h
    dsimp only at h ⊢
    cases hread : readToEnd binary ending [] reads with
    | error e =>
      rw [hread] at h
      cases h
    | ok buf' =>
      rw [hread] at h
      obtain ⟨rfl, hparse⟩ := Prod.mk.inj (Option.some.inj h)
      dsimp only
      rw [hparse]

theorem httpsRawGet_redirect (h : replyAt server binary n req = some (buf, .redirect next))
    (fuel : Nat) :
    httpsRawGet server binary (fuel + 1) n req =
      ⟨req :: (httpsRawGet server binary fuel (n + 1) next).requests,
        (httpsRawGet server binary fuel (n + 1) next).result,
        (httpsRawGet server binary fuel (n + 1) next).response⟩ := by
  unfold replyAt at h
  rw [httpsRawGet_succ]
  cases hserver : server n req with
  | refused e =>
    rw [hserver] at h
    cases h
  | answered reads ending =>
    rw [hserver] at h
    dsimp only at h ⊢
    cases hread : readToEnd binary ending [] reads with
    | error e =>
      rw [hread] at h
      cases h
    | ok buf' =>
      rw [hread] at h
      obtain ⟨rfl, hparse⟩ := Prod.mk.inj (Option.some.inj h)
      dsimp only
      rw [hparse]

/-- A request that is answered is made. -/
theorem requests_ne_nil {reads : List (List UInt8)} {ending : Option String}
    (h : server n req = .answered reads ending) :
    (httpsRawGet server binary 1 n req).requests ≠ [] := by
  rw [httpsRawGet_succ]
  rw [h]
  dsimp only
  cases readToEnd binary ending [] reads with
  | error e => exact List.cons_ne_nil _ _
  | ok buf =>
    dsimp only
    cases parseResponse buf req.host with
    | done r => exact List.cons_ne_nil _ _
    | redirect next => exact List.cons_ne_nil _ _

/-- What holds of all fuels holds without fuel and with one more. -/
theorem settles_iff : Settles server binary k n req ↔
    ∃ fuel, (httpsRawGet server binary (fuel + 1) n req).result.isSome ∧ ∀ fuel,
      (httpsRawGet server binary (fuel + 1) n req).requests.length ≤ k ∧
      ∀ b, (httpsRawGet server binary (fuel + 1) n req).result = some (.ok b) →
        Delivers (httpsRawGet server binary (fuel + 1) n req).response b := by
  constructor
  · rintro ⟨⟨fuel, hends⟩, hfew, hdelivered⟩
    cases fuel with
    | zero => cases hends
    | succ fuel => exact ⟨fuel, hends, fun fuel => ⟨hfew _, hdelivered _⟩⟩
  · rintro ⟨fuel, hends, hall⟩
    refine ⟨⟨fuel + 1, hends⟩, fun fuel => ?_, fun fuel b hresult => ?_⟩
    · cases fuel with
      | zero => exact Nat.zero_le k
      | succ fuel => exact (hall fuel).1
    · cases fuel with
      | zero => cases hresult
      | succ fuel => exact (hall fuel).2 b hresult

theorem settles_failed (h : replyAt server binary n req = none) :
    Settles server binary (k + 1) n req := by
  refine settles_iff.mpr ⟨0, ?_, fun fuel => ⟨?_, fun b hresult => ?_⟩⟩
  · obtain ⟨requests, e, hget, -⟩ := httpsRawGet_failed h 0
    rw [hget]
    rfl
  · obtain ⟨requests, e, hget, hlen⟩ := httpsRawGet_failed h fuel
    rw [hget]
    exact hlen.trans (Nat.le_add_left 1 k)
  · obtain ⟨requests, e, hget, -⟩ := httpsRawGet_failed h fuel
    rw [hget] at hresult
    cases hresult

theorem settles_done {r : Except String (List UInt8)}
    (h : replyAt server binary n req = some (buf, .done r)) :
    Settles server binary (k + 1) n req ↔ ∀ b, r = .ok b → Delivers buf b := by
  rw [settles_iff]
  simp only [httpsRawGet_done h, Option.some_inj]
  simp

theorem settles_redirect (h : replyAt server binary n req = some (buf, .redirect next)) :
    Settles server binary (k + 1) n req ↔ Settles server binary k (n + 1) next := by
  rw [settles_iff]
  simp only [httpsRawGet_redirect h, List.length_cons, Nat.add_le_add_iff_right]
  constructor
  · rintro ⟨fuel, hends, hall⟩
    exact ⟨⟨fuel, hends⟩, fun fuel => (hall fuel).1, fun fuel => (hall fuel).2⟩
  · rintro ⟨⟨fuel, hends⟩, hfew, hdelivered⟩
    exact ⟨fuel, hends, fun fuel => ⟨hfew fuel, hdelivered fuel⟩⟩

theorem settles_zero : Settles server binary 0 n req ↔ ∃ e, server n req = .refused e := by
  constructor
  · intro h
    cases hserver : server n req with
    | refused e => exact ⟨e, rfl⟩
    | answered reads ending =>
      have hnone := List.length_eq_zero_iff.mp (Nat.le_zero.mp (h.few 1))
      exact absurd hnone (requests_ne_nil hserver)
  · rintro ⟨e, he⟩
    have hget : ∀ fuel, httpsRawGet server binary (fuel + 1) n req = ⟨[], some (.error e), []⟩ := by
      intro fuel
      rw [httpsRawGet_succ]
      rw [he]
    rw [settles_iff]
    simp [hget]

/-- What `parse_response` returns is parsed from the response. -/
theorem parseResponse_of_replyAt {reply : Reply}
    (h : replyAt server binary n req = some (buf, reply)) : parseResponse buf req.host = reply := by
  unfold replyAt at h
  cases hserver : server n req with
  | refused e =>
    rw [hserver] at h
    cases h
  | answered reads ending =>
    rw [hserver] at h
    dsimp only at h
    cases hread : readToEnd binary ending [] reads with
    | error e =>
      rw [hread] at h
      cases h
    | ok buf' =>
      rw [hread] at h
      obtain ⟨rfl, hparse⟩ := Prod.mk.inj (Option.some.inj h)
      exact hparse

/-- By induction on the requests that are left. -/
theorem settles_iff_straight :
    Settles server binary k n req ↔ Straight server binary k n req := by
  induction k generalizing n req with
  | zero => exact settles_zero
  | succ k ih =>
    unfold Straight
    cases hreply : replyAt server binary n req with
    | none => exact iff_of_true (settles_failed hreply) trivial
    | some r =>
      obtain ⟨buf, reply⟩ := r
      cases reply with
      | redirect next => exact (settles_redirect hreply).trans ih
      | done r =>
        cases r with
        | error e => exact iff_of_true ((settles_done hreply).mpr (by simp)) trivial
        | ok b =>
          refine (settles_done hreply).trans ?_
          simp only [Except.ok.injEq, forall_eq']
          exact delivers_iff_whole (parseResponse_of_replyAt hreply)

end

/-- **Downloads.** `https_raw_get` ends, makes two requests at most and returns the body that the
last response delivers, if and only if there are not two redirects in a row that lead to a
connection, and a response with status 200 is not in chunks and as long as it says. -/
theorem asset_download_exact (server : Server) (binary : Bool) (req : Request) :
    Settles server binary 2 0 req ↔ Straight server binary 2 0 req := settles_iff_straight

/-- A server that sends every request back to itself. -/
def loopResponse : List UInt8 :=
  Drive.utf8 "HTTP/1.1 302 Found\r\nLocation: /\r\n\r\n".toList

def loopServer : Server := fun _ _ => .answered [loopResponse] none

/-- A server that closes the connection after half of the body. -/
def shortResponse : List UInt8 :=
  Drive.utf8 "HTTP/1.1 200 OK\r\nContent-Length: 10\r\n\r\nhello".toList

def shortServer : Server := fun _ _ => .answered [shortResponse] none

def rootRequest : Request := ⟨['h'], ['/']⟩

theorem loopServer_reply (n : Nat) :
    replyAt loopServer true n rootRequest = some (loopResponse, .redirect rootRequest) := rfl

theorem shortServer_reply :
    replyAt shortServer true 0 rootRequest =
      some (shortResponse, .done (.ok (Drive.utf8 "hello".toList))) := rfl

theorem shortResponse_not_whole : ¬ Whole shortResponse := by
  intro h
  have hhead := h 35 "HTTP/1.1 200 OK\r\nContent-Length: 10".toList rfl rfl
  have hlength := hhead.2 "10".toList (by decide)
  exact absurd hlength (by decide)

/-- Redirects are followed without an end, and half a body is a result. -/
theorem download_not_exact :
    (∀ fuel, (httpsRawGet loopServer true fuel 0 rootRequest).requests.length = fuel ∧
      (httpsRawGet loopServer true fuel 0 rootRequest).result = none) ∧
    ¬ Settles loopServer true 2 0 rootRequest ∧
    (httpsRawGet shortServer true 1 0 rootRequest).result =
      some (.ok (Drive.utf8 "hello".toList)) ∧
    ¬ Settles shortServer true 2 0 rootRequest := by
  have hloop : ∀ fuel n, (httpsRawGet loopServer true fuel n rootRequest).requests.length = fuel ∧
      (httpsRawGet loopServer true fuel n rootRequest).result = none := by
    intro fuel
    induction fuel with
    | zero => exact fun n => ⟨rfl, rfl⟩
    | succ fuel ih =>
      intro n
      rw [httpsRawGet_redirect (loopServer_reply n)]
      exact ⟨congrArg Nat.succ (ih (n + 1)).1, (ih (n + 1)).2⟩
  refine ⟨fun fuel => hloop fuel 0, fun h => ?_, ?_, fun h => ?_⟩
  · have hfew := h.few 3
    rw [(hloop 3 0).1] at hfew
    omega
  · rw [httpsRawGet_done shortServer_reply]
  · have hstraight := settles_iff_straight.mp h
    unfold Straight at hstraight
    rw [shortServer_reply] at hstraight
    exact shortResponse_not_whole hstraight

end Rahgozar.Update.Download
