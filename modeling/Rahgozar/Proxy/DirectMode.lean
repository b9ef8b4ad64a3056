import Rahgozar.Lib.Run
import Rahgozar.Lib.BigEndian

set_option autoImplicit false

/-! # Direct mode (`src/direct_mode.rs`)

A TLS client's first record, the ClientHello, is read once, with whatever came along with it, and
sent to several upstreams in fragments. The first one that answers gets the rest of the client's
stream. When none does, the bytes that were read are put back in front of the stream, or are sent
once more without fragments. A client is the list of the bytes it sends; how many of them a read
finds is up to the network.
-/

namespace Rahgozar.Proxy.Direct

/-! ## Profiles -/

inductive SplitStrategy where
  | passthrough
  | equal
  | sni
  | sniPrefixed
deriving DecidableEq

structure Profile where
  id : String
  numChunks : Nat
  delayMillis : Nat
  strategy : SplitStrategy
deriving DecidableEq

def defaultProfileId : String := "p05"

def profiles : List Profile :=
  [⟨"p00", 1, 0, .passthrough⟩, ⟨"p01", 8, 5, .sniPrefixed⟩, ⟨"p02", 16, 1, .equal⟩,
    ⟨"p03", 32, 3, .equal⟩, ⟨"p04", 64, 5, .equal⟩, ⟨"p05", 87, 5, .equal⟩,
    ⟨"p06", 120, 10, .equal⟩, ⟨"p07", 8, 25, .sni⟩]

def profileById (id : String) : Option Profile := profiles.find? fun p => p.id == id

def defaultProfile : Profile := (profileById defaultProfileId).getD ⟨"p00", 1, 0, .passthrough⟩

def isFragmentingProfile (p : Profile) : Bool := p.strategy != .passthrough

/-! ## The server name in a ClientHello -/

/-- The number in two bytes at `i`. -/
def word (data : List UInt8) (i : Nat) : Option Nat :=
  match data.drop i with
  | hi :: lo :: _ => some (hi.toNat * 256 + lo.toNat)
  | _ => none

/-- The loop over the names of the extension; `fuel` bounds the bytes that are left. -/
def sniNames (data : List UInt8) (listEnd : Nat) : (fuel i : Nat) → Option (Nat × Nat)
  | 0, _ => none
  | fuel + 1, i =>
      if listEnd < i + 3 then none
      else
        match data[i]?, word data (i + 1) with
        | some nameType, some nl =>
            if listEnd < i + 3 + nl then none
            else if nameType = 0 then some (i + 3, i + 3 + nl)
            else sniNames data listEnd fuel (i + 3 + nl)
        | _, _ => none

def sniHostRangeInExtension (data : List UInt8) (start stop : Nat) : Option (Nat × Nat) :=
  (word data start).bind fun listLen =>
    if stop < start + 2 + listLen then none
    else sniNames data (start + 2 + listLen) data.length (start + 2)

/-- The loop over the extensions. -/
def sniExtensions (data : List UInt8) (extEnd : Nat) : (fuel i : Nat) → Option (Nat × Nat)
  | 0, _ => none
  | fuel + 1, i =>
      if extEnd < i + 4 then none
      else
        match word data i, word data (i + 2) with
        | some typ, some l =>
            if extEnd < i + 4 + l then none
            else if typ = 0 then sniHostRangeInExtension data (i + 4) (i + 4 + l)
            else sniExtensions data extEnd fuel (i + 4 + l)
        | _, _ => none

def tlsSniHostRange (data : List UInt8) : Option (Nat × Nat) :=
  if data[0]? ≠ some 0x16 ∨ data[5]? ≠ some 0x01 then none
  else
    -- record header, handshake header, version and random
    (data[43]?).bind fun sessionLen =>
      let i := 43 + 1 + sessionLen.toNat
      (word data i).bind fun cipherLen =>
        let i := i + 2 + cipherLen
        (data[i]?).bind fun compLen =>
          let i := i + 1 + compLen.toNat
          (word data i).bind fun extLen =>
            let i := i + 2
            if data.length < i + extLen then none
            else sniExtensions data (i + extLen) data.length i

/-! ## Where to cut -/

/-- `Vec::dedup` -/
def dedup : List Nat → List Nat
  | [] => []
  | [a] => [a]
  | a :: b :: rest => if a = b then dedup (b :: rest) else a :: dedup (b :: rest)

/-- The cut points inside the data, in order. -/
def normalizeSplits (n : Nat) (raw : List Nat) : List Nat :=
  dedup ((raw.filter fun s => 0 < s && s < n).mergeSort fun a b => a ≤ b)

/-- `p_i = (n*i) / num_chunks` -/
def equalSplits (n numChunks : Nat) : List Nat :=
  if numChunks ≤ 1 ∨ n = 0 then []
  else
    ((List.range' 1 (numChunks - 1)).foldl
      (fun (out, prev) i =>
        let p := n * i / numChunks
        if p = 0 ∨ p = n ∨ p = prev then (out, prev) else (out ++ [p], p))
      (([] : List Nat), 0)).1

/-- The rounds of the shuffle; `draws i` is the random number of the round `i`. -/
def shuffle (draws : Nat → Nat) (rounds : List Nat) (idx : Array Nat) : Array Nat :=
  rounds.foldl (fun idx i => idx.swapIfInBounds i (i + draws i % (idx.size - i))) idx

def randomSplits (draws : Nat → Nat) (n count : Nat) : List Nat :=
  if n ≤ 1 ∨ count = 0 then []
  else
    let take := min count (n - 1)
    let idx := shuffle draws (List.range take) (List.range' 1 (n - 1)).toArray
    (idx.toList.take take).mergeSort fun a b => a ≤ b

def sniSplits (data : List UInt8) : Option (List Nat) :=
  (tlsSniHostRange data).bind fun (hostStart, hostEnd) =>
    let out := normalizeSplits data.length
      [1, 5, hostStart - 8, hostStart - 1, hostStart + 1, hostStart + 7, hostEnd]
    if out.isEmpty then none else some out

/-- The cut points of a strategy. -/
def rawSplits (p : Profile) (data : List UInt8) : List Nat :=
  match p.strategy with
  | .passthrough => []
  | .equal => equalSplits data.length p.numChunks
  | .sni => (sniSplits data).getD []
  | .sniPrefixed => [1, 5] ++ (sniSplits data).getD []

def computeSplits (draws : Nat → Nat) (p : Profile) (data : List UInt8) : List Nat :=
  let n := data.length
  if n < 2 ∨ p.strategy = .passthrough then []
  else
    let sorted := normalizeSplits n (rawSplits p data)
    if sorted.isEmpty ∧ p.strategy ≠ .equal then randomSplits draws n (p.numChunks - 1) else sorted

/-- `&data[start..stop]`, which panics out of range. -/
def slice (data : List UInt8) (start stop : Nat) : Option (List UInt8) :=
  if start ≤ stop ∧ stop ≤ data.length then some ((data.take stop).drop start) else none

/-- The writes from `prev` on. -/
def writesFrom (data : List UInt8) : (prev : Nat) → List Nat → Option (List (List UInt8))
  | prev, [] => (slice data prev data.length).map fun chunk => [chunk]
  | prev, s :: splits =>
      (slice data prev s).bind fun chunk => (writesFrom data s splits).map fun more => chunk :: more

/-- The writes that succeed, when all do. -/
def fragmentedWrite (draws : Nat → Nat) (data : List UInt8) (profile : Profile) :
    Option (List (List UInt8)) :=
  let splits := computeSplits draws profile data
  if splits.isEmpty then some [data] else writesFrom data 0 splits

/-! ## The ClientHello -/

inductive ReadError where
  | unexpectedEof
  | notTls
  | tooLarge
  | timedOut
  | io

/-- `read_first_tls_record`, with what it leaves in the socket. Each read finds at most so many
bytes more than one, or fails; when there is no other read the time is up. -/
def readFirstTlsRecord : (buf client : List UInt8) → List (Option Nat) →
    Except ReadError (List UInt8 × List UInt8)
  | _, _, [] => .error .timedOut
  | _, _, none :: _ => .error .io
  | buf, client, some n :: reads =>
      let size := min (n + 1) 4096
      if (client.take size).isEmpty then .error .unexpectedEof
      else
        let buf := buf ++ client.take size
        let client := client.drop size
        if buf.length < 5 then readFirstTlsRecord buf client reads
        else if buf[0]? ≠ some 0x16 then .error .notTls
        else if 5 + BigEndian.get ((buf.drop 3).take 2) ≤ buf.length then .ok (buf, client)
        else if 32 * 1024 < buf.length then .error .tooLarge
        else readFirstTlsRecord buf client reads

/-! ## Dialling -/

/-- What comes of a dial: no connection, a failed write, no reply in time, or a reply. -/
inductive DialResult where
  | refused
  | writeFails
  | silent
  | reply (bytes : List UInt8)

/-- A dial that was answered; `received` is what the upstream has been sent. -/
structure DialWinner where
  front : String
  profile : Profile
  received : List UInt8
  serverBytes : List UInt8

def dialOne (draws : Nat → Nat) (front : String) (profile : Profile) (clientHello : List UInt8)
    (result : DialResult) : Option DialWinner :=
  match result with
  | .refused => none
  | .writeFails => none
  | .silent => none
  | .reply bytes =>
      (fragmentedWrite draws clientHello profile).bind fun chunks =>
        if bytes.head? = some 0x16 then some ⟨front, profile, chunks.flatten, bytes⟩ else none

/-- What the dials of a connection meet: the random numbers of each, the result of the fast path,
and the results of the race in the order in which its tasks end, as far as there is time. -/
structure DialEnv where
  draws : Nat → Nat → Nat
  fast : DialResult
  race : List (Nat × DialResult)

/-- The first winner among the tasks of a race. -/
def raceWinner (env : DialEnv) (tasks : List (String × Profile)) (clientHello : List UInt8) :
    Option DialWinner :=
  env.race.findSome? fun (i, result) =>
    (tasks[i]?).bind fun (front, p) => dialOne (env.draws (i + 1)) front p clientHello result

structure Candidate where
  front : String
  profileId : String

/-- What `try_tunnel` reads of its context. -/
structure DirectModeCtx where
  breakerTripped : Bool
  fronts : List String
  candidate : Option Candidate

/-- The pair of the fast path. -/
def fastPair (ctx : DirectModeCtx) (front : String) : String × Profile :=
  match ctx.candidate with
  | some c =>
      if ctx.fronts.contains c.front then (c.front, (profileById c.profileId).getD defaultProfile)
      else (front, defaultProfile)
  | none => (front, defaultProfile)

def dialWithValidation (ctx : DirectModeCtx) (env : DialEnv) (clientHello : List UInt8) :
    Option DialWinner :=
  match ctx.fronts with
  | [] => none
  | first :: _ =>
      let fast := fastPair ctx first
      match dialOne (env.draws 0) fast.1 fast.2 clientHello env.fast with
      | some win => some win
      | none =>
          let tasks := ctx.fronts.flatMap fun f =>
            (profiles.filter fun p => !(fast.1 == f && fast.2.id == p.id)).map fun p => (f, p)
          raceWinner env tasks clientHello

/-! ## What is made of the client's stream -/

/-- `PrefacedTcpStream` -/
structure Prefaced where
  preface : List UInt8
  pos : Nat
  inner : List UInt8

namespace Prefaced

def new (preface inner : List UInt8) : Prefaced := ⟨preface, 0, inner⟩

/-- A read into a buffer of `cap` bytes; the socket has at most one byte more than `n`. -/
def pollRead (s : Prefaced) (cap n : Nat) : List UInt8 × Prefaced :=
  if s.pos < s.preface.length then
    let size := min (s.preface.length - s.pos) cap
    ((s.preface.take (s.pos + size)).drop s.pos, { s with pos := s.pos + size })
  else
    let size := min (n + 1) cap
    (s.inner.take size, { s with inner := s.inner.drop size })

/-- Reads, one after the other, and all they have read. -/
def readAll (s : Prefaced) : List (Nat × Nat) → List UInt8 × Prefaced
  | [] => ([], s)
  | (cap, n) :: reads =>
      let (bytes, s) := s.pollRead cap n
      let (more, s) := s.readAll reads
      (bytes ++ more, s)

end Prefaced

inductive SplicePhase where
  /-- The first bytes of the upstream go to the client. -/
  | replying
  | copying
  /-- The client has ended its stream. -/
  | finished
  /-- The upstream has ended its stream. -/
  | dropped
  /-- A socket has failed. -/
  | failed
deriving DecidableEq

/-- The way from the client to the upstream: what of the client's stream is still to be read, what
the copy has read and not written, and what the upstream has been sent. -/
structure Splice where
  client : List UInt8
  buffer : List UInt8
  received : List UInt8
  phase : SplicePhase
deriving DecidableEq

namespace Splice

inductive Event where
  | replied (ok : Bool)
  | read (n : Nat)
  | write (n : Nat)
  | eof
  | upstreamEnds
  | fails

/-- `tokio::io::copy` from the client. The `select!` drops it as soon as the copy from the upstream
has come to its end. -/
def step (s : Splice) (e : Event) : Option Splice :=
  match e with
  | .replied ok =>
      if s.phase = .replying then some { s with phase := if ok then .copying else .failed }
      else none
  | .read n =>
      if s.phase = .copying ∧ s.client ≠ [] then
        some { s with client := s.client.drop (n + 1), buffer := s.buffer ++ s.client.take (n + 1) }
      else none
  | .write n =>
      if s.phase = .copying ∧ s.buffer ≠ [] then
        some { s with
          buffer := s.buffer.drop (n + 1), received := s.received ++ s.buffer.take (n + 1) }
      else none
  | .eof =>
      if s.phase = .copying ∧ s.client = [] ∧ s.buffer = [] then some { s with phase := .finished }
      else none
  | .upstreamEnds => if s.phase = .copying then some { s with phase := .dropped } else none
  | .fails => if s.phase = .copying then some { s with phase := .failed } else none

end Splice

def spliceAfterHandshake (client : List UInt8) (win : DialWinner) : Splice :=
  ⟨client, [], win.received, .replying⟩

inductive TunnelOutcome where
  /-- The connection has ended without an upstream. -/
  | done
  /-- An upstream has the connection. -/
  | committed (s : Splice)
  | skip (sock : List UInt8)
  | skipPrefaced (s : Prefaced)

/-- What a connection meets: whether a byte comes in time for the peek, the reads of the
ClientHello, and the dials. -/
structure Network where
  peekArrives : Bool
  reads : List (Option Nat)
  dial : DialEnv

def isTlsPeek (net : Network) (sock : List UInt8) : Bool :=
  net.peekArrives && sock.head? == some 0x16

def tryTunnel (ctx : DirectModeCtx) (net : Network) (sock : List UInt8) : TunnelOutcome :=
  if ctx.breakerTripped then .skip sock
  else if !isTlsPeek net sock then .skip sock
  else
    match readFirstTlsRecord [] sock net.reads with
    | .error _ => .done
    | .ok (clientHello, sock) =>
        match dialWithValidation ctx net.dial clientHello with
        | none => .skipPrefaced (.new clientHello sock)
        | some win => .committed (spliceAfterHandshake sock win)

/-- What `try_local_bypass_tunnel` reads of its tables and its arguments: whether the breaker of the
host has tripped, the profiles in rotation for it, the last winner, and the address to dial. -/
structure LocalBypass where
  breakerTripped : Bool
  allowedIds : List String
  lastWinner : Nat
  target : String

def localBypassPreferredProfile (lastWinner : Nat) : Profile :=
  match profiles[lastWinner]? with
  | some p => if isFragmentingProfile p then p else defaultProfile
  | none => defaultProfile

def preferredProfile (ctx : LocalBypass) : Profile :=
  let global := localBypassPreferredProfile ctx.lastWinner
  if ctx.allowedIds.contains global.id then global
  else if ctx.allowedIds.contains defaultProfile.id then defaultProfile
  else (profiles.find? fun p => ctx.allowedIds.contains p.id).getD defaultProfile

/-- The raw replay of the ClientHello, whose connection and whose write can fail. -/
def localBypassRawFallback (connected written : Bool) (client clientHello : List UInt8) :
    TunnelOutcome :=
  if !connected then .done
  else if !written then .done
  else .committed ⟨client, [], clientHello, .copying⟩

def tryLocalBypassTunnel (ctx : LocalBypass) (net : Network) (connected written : Bool)
    (sock : List UInt8) : TunnelOutcome :=
  if !isTlsPeek net sock then .skip sock
  else
    match readFirstTlsRecord [] sock net.reads with
    | .error _ => .done
    | .ok (clientHello, sock) =>
        if ctx.breakerTripped then localBypassRawFallback connected written sock clientHello
        else
          let preferred := preferredProfile ctx
          match dialOne (net.dial.draws 0) ctx.target preferred clientHello net.dial.fast with
          | some win => .committed (spliceAfterHandshake sock win)
          | none =>
              let tasks := (profiles.filter fun p =>
                p.id != preferred.id && isFragmentingProfile p && ctx.allowedIds.contains p.id).map
                fun p => (ctx.target, p)
              match raceWinner net.dial tasks clientHello with
              | some win => .committed (spliceAfterHandshake sock win)
              | none => localBypassRawFallback connected written sock clientHello

/-! ## Fragments -/

/-- Cut points inside `n` bytes, each behind the one before it. -/
def SplitsInside (n : Nat) (splits : List Nat) : Prop :=
  splits.Pairwise (· < ·) ∧ ∀ s ∈ splits, 0 < s ∧ s < n

theorem mem_of_mem_dedup {l : List Nat} {x : Nat} (h : x ∈ dedup l) : x ∈ l := by
  induction l using dedup.induct with
  | case1 => exact h
  | case2 a => exact h
  | case3 a rest ih =>
      rw [dedup, if_pos rfl] at h
      exact List.mem_cons_of_mem a (ih h)
  | case4 a b rest hne ih =>
      rw [dedup, if_neg hne] at h
      rcases List.mem_cons.mp h with rfl | h
      · exact List.mem_cons_self
      · exact List.mem_cons_of_mem a (ih h)

/-- Without repetitions, a list in order is strictly in order. -/
theorem pairwise_dedup {l : List Nat} (h : l.Pairwise (· ≤ ·)) : (dedup l).Pairwise (· < ·) := by
  induction l using dedup.induct with
  | case1 => exact List.Pairwise.nil
  | case2 a => exact List.pairwise_singleton _ _
  | case3 a rest ih =>
      rw [dedup, if_pos rfl]
      exact ih h.of_cons
  | case4 a b rest hne ih =>
      rw [dedup, if_neg hne]
      obtain ⟨hle, hrest⟩ := List.pairwise_cons.mp h
      refine List.pairwise_cons.mpr ⟨fun x hx => ?_, ih hrest⟩
      have hab : a < b := lt_of_le_of_ne (hle b List.mem_cons_self) hne
      rcases List.mem_cons.mp (mem_of_mem_dedup hx) with rfl | hx
      · exact hab
      · exact hab.trans_le ((List.pairwise_cons.mp hrest).1 x hx)

theorem pairwise_mergeSort_le (l : List Nat) :
    (l.mergeSort fun a b => a ≤ b).Pairwise (· ≤ ·) := by
  have h : (l.mergeSort fun a b => decide (a ≤ b)).Pairwise fun a b => decide (a ≤ b) = true :=
    List.pairwise_mergeSort (by simp only [decide_eq_true_eq]; exact fun _ _ _ => Nat.le_trans)
      (by simp only [Bool.or_eq_true, decide_eq_true_eq]; exact Nat.le_total) l
  exact h.imp of_decide_eq_true

theorem normalizeSplits_inside (n : Nat) (raw : List Nat) :
    SplitsInside n (normalizeSplits n raw) := by
  refine ⟨pairwise_dedup (pairwise_mergeSort_le _), fun s hs => ?_⟩
  have hmem := List.mem_mergeSort.mp (mem_of_mem_dedup hs)
  simpa using (List.mem_filter.mp hmem).2

/-- The shuffle only exchanges cut points. -/
theorem shuffle_perm (draws : Nat → Nat) (rounds : List Nat) (idx : Array Nat) :
    (shuffle draws rounds idx).toList.Perm idx.toList := by
  induction rounds generalizing idx with
  | nil => exact .refl _
  | cons i rounds ih =>
      refine (ih _).trans ?_
      show (idx.swapIfInBounds i (i + draws i % (idx.size - i))).toList.Perm idx.toList
      unfold Array.swapIfInBounds
      split
      · split
        · exact (Array.swap_perm _ _).toList
        · exact .refl _
      · exact .refl _

theorem randomSplits_inside (draws : Nat → Nat) (n count : Nat) :
    SplitsInside n (randomSplits draws n count) := by
  unfold randomSplits
  dsimp only
  split
  · exact ⟨List.Pairwise.nil, fun _ h => (nomatch h)⟩
  · have hperm :=
      shuffle_perm draws (List.range (min count (n - 1))) (List.range' 1 (n - 1)).toArray
    generalize shuffle draws (List.range (min count (n - 1))) _ = idx at hperm
    have hnodup : (idx.toList.take (min count (n - 1))).Nodup :=
      (hperm.nodup_iff.mpr List.nodup_range').sublist (List.take_sublist _ _)
    refine ⟨?_, fun s hs => ?_⟩
    · have hne := (List.mergeSort_perm _ fun a b => decide (a ≤ b)).nodup_iff.mpr hnodup
      exact ((pairwise_mergeSort_le _).and hne).imp fun h => lt_of_le_of_ne h.1 h.2
    · have hmem := hperm.subset (List.mem_of_mem_take (List.mem_mergeSort.mp hs))
      rw [List.mem_range'_1] at hmem
      omega

theorem computeSplits_inside (draws : Nat → Nat) (p : Profile) (data : List UInt8) :
    SplitsInside data.length (computeSplits draws p data) := by
  unfold computeSplits
  dsimp only
  split
  · exact ⟨List.Pairwise.nil, fun _ h => (nomatch h)⟩
  · split
    · exact randomSplits_inside draws _ _
    · exact normalizeSplits_inside _ _

/-- **The writes make up the data**, and no slice is out of range. -/
theorem writesFrom_flatten {data : List UInt8} {prev : Nat} (hprev : prev ≤ data.length)
    {splits : List Nat} (hsorted : splits.Pairwise (· < ·))
    (hinside : ∀ s ∈ splits, prev ≤ s ∧ s < data.length) :
    ∃ chunks, writesFrom data prev splits = some chunks ∧ chunks.flatten = data.drop prev := by
  induction splits generalizing prev with
  | nil =>
      refine ⟨[data.drop prev], ?_, List.flatten_singleton⟩
      unfold writesFrom slice
      rw [if_pos ⟨hprev, le_rfl⟩, List.take_length]
      rfl
  | cons s splits ih =>
      obtain ⟨hle, hlt⟩ := hinside s List.mem_cons_self
      obtain ⟨hbehind, hrest⟩ := List.pairwise_cons.mp hsorted
      obtain ⟨chunks, hchunks, hflatten⟩ := ih hlt.le hrest fun t ht =>
        ⟨(hbehind t ht).le, (hinside t (List.mem_cons_of_mem s ht)).2⟩
      refine ⟨(data.take s).drop prev :: chunks, ?_, ?_⟩
      · unfold writesFrom slice
        rw [if_pos ⟨hle, hlt.le⟩, Option.bind_some, hchunks]
        rfl
      · have htake : prev ≤ (data.take s).length := by
          rw [List.length_take]
          omega
        rw [List.flatten_cons, hflatten, ← List.drop_append_of_le_length htake,
          List.take_append_drop]

theorem fragmentedWrite_flatten (draws : Nat → Nat) (data : List UInt8) (profile : Profile) :
    ∃ chunks, fragmentedWrite draws data profile = some chunks ∧ chunks.flatten = data := by
  obtain ⟨hsorted, hinside⟩ := computeSplits_inside draws profile data
  unfold fragmentedWrite
  dsimp only
  split
  · exact ⟨[data], rfl, List.flatten_singleton⟩
  · exact writesFrom_flatten (Nat.zero_le _) hsorted fun s hs => ⟨Nat.zero_le s, (hinside s hs).2⟩

/-! ## Reads and dials -/

/-- What was read and what is left make up what there was. -/
theorem readFirstTlsRecord_append {buf client : List UInt8} {reads : List (Option Nat)}
    {p : List UInt8 × List UInt8} (h : readFirstTlsRecord buf client reads = .ok p) :
    p.1 ++ p.2 = buf ++ client := by
  induction reads generalizing buf client with
  | nil => cases h
  | cons read reads ih =>
      cases read with
      | none => cases h
      | some n =>
          have hsplit : (buf ++ client.take (min (n + 1) 4096)) ++ client.drop (min (n + 1) 4096)
              = buf ++ client := by
            rw [List.append_assoc, List.take_append_drop]
          unfold readFirstTlsRecord at h
          dsimp only at h
          split at h
          · cases h
          split at h
          · exact (ih h).trans hsplit
          split at h
          · cases h
          split at h
          · cases h
            exact hsplit
          split at h
          · cases h
          · exact (ih h).trans hsplit

theorem dialOne_received {draws : Nat → Nat} {front : String} {profile : Profile}
    {clientHello : List UInt8} {result : DialResult} {win : DialWinner}
    (h : dialOne draws front profile clientHello result = some win) :
    win.received = clientHello := by
  cases result with
  | refused => cases h
  | writeFails => cases h
  | silent => cases h
  | reply bytes =>
      obtain ⟨chunks, hchunks, hflatten⟩ := fragmentedWrite_flatten draws clientHello profile
      unfold dialOne at h
      dsimp only at h
      rw [hchunks, Option.bind_some] at h
      obtain ⟨-, h⟩ := Option.ite_none_right_eq_some.mp h
      cases h
      exact hflatten

theorem raceWinner_received {env : DialEnv} {tasks : List (String × Profile)}
    {clientHello : List UInt8} {win : DialWinner}
    (h : raceWinner env tasks clientHello = some win) :
    win.received = clientHello := by
  obtain ⟨⟨i, result⟩, -, h⟩ := List.exists_of_findSome?_eq_some h
  obtain ⟨⟨front, p⟩, -, h⟩ := Option.bind_eq_some_iff.mp h
  exact dialOne_received h

theorem dialWithValidation_received {ctx : DirectModeCtx} {env : DialEnv} {clientHello : List UInt8}
    {win : DialWinner} (h : dialWithValidation ctx env clientHello = some win) :
    win.received = clientHello := by
  unfold dialWithValidation at h
  split at h
  · cases h
  · dsimp only at h
    split at h
    · rename_i win' hfast
      cases h
      exact dialOne_received hfast
    · exact raceWinner_received h

/-! ## The stream -/

namespace Prefaced

/-- What is still to be read. -/
def rest (s : Prefaced) : List UInt8 := s.preface.drop s.pos ++ s.inner

theorem pollRead_append (s : Prefaced) (cap n : Nat) :
    (s.pollRead cap n).1 ++ (s.pollRead cap n).2.rest = s.rest := by
  unfold pollRead rest
  split
  · rename_i hpos
    have hle : s.pos ≤ (s.preface.take (s.pos + min (s.preface.length - s.pos) cap)).length := by
      rw [List.length_take]
      omega
    dsimp only
    rw [← List.append_assoc, ← List.drop_append_of_le_length hle, List.take_append_drop]
  · rename_i hpos
    dsimp only
    rw [List.drop_eq_nil_of_le (Nat.le_of_not_lt hpos), List.nil_append, List.nil_append,
      List.take_append_drop]

/-- A read into a buffer with room finds nothing only at the end. -/
theorem rest_eq_nil_of_pollRead {s : Prefaced} {cap n : Nat} (hcap : 0 < cap)
    (h : (s.pollRead cap n).1 = []) : s.rest = [] := by
  unfold pollRead at h
  split at h
  · rename_i hpos
    have hlength := congrArg List.length h
    simp only [List.length_drop, List.length_take, List.length_nil] at hlength
    omega
  · rename_i hpos
    unfold rest
    rw [List.drop_eq_nil_of_le (Nat.le_of_not_lt hpos), List.nil_append]
    rcases List.take_eq_nil_iff.mp h with hzero | hnil
    · omega
    · exact hnil

theorem readAll_append (s : Prefaced) (reads : List (Nat × Nat)) :
    (s.readAll reads).1 ++ (s.readAll reads).2.rest = s.rest := by
  induction reads generalizing s with
  | nil => rfl
  | cons read reads ih =>
      show ((s.pollRead read.1 read.2).1 ++ ((s.pollRead read.1 read.2).2.readAll reads).1) ++
        ((s.pollRead read.1 read.2).2.readAll reads).2.rest = s.rest
      rw [List.append_assoc, ih, pollRead_append]

end Prefaced

namespace Splice

/-- The upstream has been sent the client's stream up to what is on the way, and all of it once the
splice has come to an end, unless a socket has failed; the copy goes on until then. -/
structure Exact (stream : List UInt8) (s : Splice) : Prop where
  order : s.received ++ s.buffer ++ s.client = stream
  whole : s.phase = .finished ∨ s.phase = .dropped → s.received = stream
  onward : s.phase = .copying → s.received = stream ∨ (∃ t, s.step (.read 0) = some t) ∨
    ∃ t, s.step (.write 0) = some t

/-- When the upstream ends its stream, the client has sent all of its own, and none of that is left
to be read or to be written. -/
def OutlastsClient (s : Splice) : Event → Prop
  | .upstreamEnds => s.client = [] ∧ s.buffer = []
  | _ => True

theorem Exact.of_order {stream : List UInt8} {s : Splice}
    (horder : s.received ++ s.buffer ++ s.client = stream)
    (hwhole : s.phase = .finished ∨ s.phase = .dropped → s.received = stream) :
    s.Exact stream := by
  refine ⟨horder, hwhole, fun hphase => ?_⟩
  by_cases hclient : s.client = []
  · by_cases hbuffer : s.buffer = []
    · rw [hclient, hbuffer, List.append_nil, List.append_nil] at horder
      exact .inl horder
    · exact .inr (.inr ⟨_, if_pos ⟨hphase, hbuffer⟩⟩)
  · exact .inr (.inl ⟨_, if_pos ⟨hphase, hclient⟩⟩)

/-- What is in order has been received exactly if nothing is on the way. -/
theorem received_iff {stream : List UInt8} {s : Splice}
    (horder : s.received ++ s.buffer ++ s.client = stream) :
    s.received = stream ↔ s.client = [] ∧ s.buffer = [] := by
  rw [← horder, List.append_assoc, List.self_eq_append_right, List.append_eq_nil_iff, and_comm]

/-- **One step.** -/
theorem step_exact_iff {stream : List UInt8} {s t : Splice} {e : Event} (h : s.Exact stream)
    (hs : s.step e = some t) : t.Exact stream ↔ s.OutlastsClient e := by
  cases e with
  | replied ok =>
      obtain ⟨-, ht⟩ := Option.ite_none_right_eq_some.mp hs
      cases ht
      refine iff_of_true (.of_order h.order fun hphase => ?_) trivial
      cases ok <;> rcases hphase with hphase | hphase <;> cases hphase
  | read n =>
      obtain ⟨⟨hphase, -⟩, ht⟩ := Option.ite_none_right_eq_some.mp hs
      cases ht
      refine iff_of_true (.of_order ?_ fun hended => by simp [hphase] at hended) trivial
      rw [← h.order]
      simp only [List.append_assoc, List.take_append_drop]
  | write n =>
      obtain ⟨⟨hphase, -⟩, ht⟩ := Option.ite_none_right_eq_some.mp hs
      cases ht
      refine iff_of_true (.of_order ?_ fun hended => by simp [hphase] at hended) trivial
      show s.received ++ s.buffer.take (n + 1) ++ s.buffer.drop (n + 1) ++ s.client = stream
      rw [List.append_assoc s.received, List.take_append_drop, h.order]
  | eof =>
      obtain ⟨⟨-, hclient, hbuffer⟩, ht⟩ := Option.ite_none_right_eq_some.mp hs
      cases ht
      exact iff_of_true (.of_order h.order fun _ => (received_iff h.order).mpr ⟨hclient, hbuffer⟩)
        trivial
  | upstreamEnds =>
      obtain ⟨-, ht⟩ := Option.ite_none_right_eq_some.mp hs
      cases ht
      constructor
      · exact fun ht => (received_iff h.order).mp (ht.whole (.inr rfl))
      · exact fun hnone => .of_order h.order fun _ => (received_iff h.order).mpr hnone
  | fails =>
      obtain ⟨-, ht⟩ := Option.ite_none_right_eq_some.mp hs
      cases ht
      exact iff_of_true (.of_order h.order nofun) trivial

end Splice

/-- No byte of the client's stream is lost or sent twice: an upstream that has the connection is
sent the stream from its first byte to its end, in the events that follow; a stream that is handed
back is read from its first byte, to its end; a socket that is handed back is as it was. -/
def Lossless (stream : List UInt8) (es : List Splice.Event) : TunnelOutcome → Prop
  | .done => True
  | .committed s => StepRun.AllStates Splice.step (Splice.Exact stream) s es
  | .skip sock => sock = stream
  | .skipPrefaced s => ∀ reads,
      (s.readAll reads).1 ++ (s.readAll reads).2.rest = stream ∧
        ∀ cap n, 0 < cap → ((s.readAll reads).2.pollRead cap n).1 = [] →
          (s.readAll reads).1 = stream

/-- An upstream that has the connection does not end its stream before the client's has been passed
on. -/
def UpstreamOutlasts (es : List Splice.Event) : TunnelOutcome → Prop
  | .committed s => StepRun.AllSteps Splice.step Splice.OutlastsClient s es
  | _ => True

variable {stream : List UInt8} {es : List Splice.Event}

theorem lossless_committed_iff {s : Splice} (h : s.Exact stream) :
    Lossless stream es (.committed s) ↔ UpstreamOutlasts es (.committed s) :=
  StepRun.allStates_iff_allSteps (fun _ _ _ h hs => Splice.step_exact_iff h hs) h es

theorem spliceAfterHandshake_lossless_iff {hello rest : List UInt8}
    (hstream : hello ++ rest = stream) {win : DialWinner} (hwin : win.received = hello) :
    Lossless stream es (.committed (spliceAfterHandshake rest win)) ↔
      UpstreamOutlasts es (.committed (spliceAfterHandshake rest win)) := by
  refine lossless_committed_iff (.of_order ?_ (by simp [spliceAfterHandshake]))
  show win.received ++ [] ++ rest = stream
  rw [hwin, List.append_nil, hstream]

theorem localBypassRawFallback_lossless_iff {hello rest : List UInt8}
    (hstream : hello ++ rest = stream) (connected written : Bool) :
    Lossless stream es (localBypassRawFallback connected written rest hello) ↔
      UpstreamOutlasts es (localBypassRawFallback connected written rest hello) := by
  unfold localBypassRawFallback
  split
  · exact Iff.rfl
  · split
    · exact Iff.rfl
    · refine lossless_committed_iff (.of_order ?_ (by simp))
      show hello ++ [] ++ rest = stream
      rw [List.append_nil, hstream]

theorem tryTunnel_lossless_iff (ctx : DirectModeCtx) (net : Network) (stream : List UInt8)
    (es : List Splice.Event) :
    Lossless stream es (tryTunnel ctx net stream) ↔
      UpstreamOutlasts es (tryTunnel ctx net stream) := by
  unfold tryTunnel
  split
  · exact iff_of_true rfl trivial
  split
  · exact iff_of_true rfl trivial
  split
  · exact Iff.rfl
  · rename_i hello rest hread
    have hstream : hello ++ rest = stream := readFirstTlsRecord_append hread
    split
    · refine iff_of_true (fun reads => ?_) trivial
      have hrest : (Prefaced.new hello rest).rest = stream := hstream
      have happend := Prefaced.readAll_append (.new hello rest) reads
      rw [hrest] at happend
      refine ⟨happend, fun cap n hcap hnil => ?_⟩
      rwa [Prefaced.rest_eq_nil_of_pollRead hcap hnil, List.append_nil] at happend
    · rename_i win hwin
      exact spliceAfterHandshake_lossless_iff hstream (dialWithValidation_received hwin)

theorem tryLocalBypassTunnel_lossless_iff (ctx : LocalBypass) (net : Network)
    (connected written : Bool) (stream : List UInt8) (es : List Splice.Event) :
    Lossless stream es (tryLocalBypassTunnel ctx net connected written stream) ↔
      UpstreamOutlasts es (tryLocalBypassTunnel ctx net connected written stream) := by
  unfold tryLocalBypassTunnel
  split
  · exact iff_of_true rfl trivial
  split
  · exact Iff.rfl
  · rename_i hello rest hread
    have hstream : hello ++ rest = stream := readFirstTlsRecord_append hread
    split
    · exact localBypassRawFallback_lossless_iff hstream connected written
    · dsimp only
      split
      · rename_i win hwin
        exact spliceAfterHandshake_lossless_iff hstream (dialOne_received hwin)
      · split
        · rename_i win hwin
          exact spliceAfterHandshake_lossless_iff hstream (raceWinner_received hwin)
        · exact localBypassRawFallback_lossless_iff hstream connected written

/-- **Direct mode loses and duplicates no byte of the client**, whatever it is sent, however the
reads cut it, and whichever dials fail, exactly if the upstream that gets the connection does not
end its own stream before the client's has been passed on. -/
theorem direct_lossless_iff (stream : List UInt8) (net : Network) (es : List Splice.Event) :
    (∀ ctx, Lossless stream es (tryTunnel ctx net stream) ↔
      UpstreamOutlasts es (tryTunnel ctx net stream)) ∧
    ∀ ctx connected written,
      Lossless stream es (tryLocalBypassTunnel ctx net connected written stream) ↔
        UpstreamOutlasts es (tryLocalBypassTunnel ctx net connected written stream) :=
  ⟨fun ctx => tryTunnel_lossless_iff ctx net stream es, fun ctx connected written =>
    tryLocalBypassTunnel_lossless_iff ctx net connected written stream es⟩

/-- A record of one byte, and a byte that the client sends behind it. -/
def recordAndMore : List UInt8 := [0x16, 3, 1, 0, 1, 1, 0x17]

/-- The first read finds the record; the dial is answered. -/
def answering : Network where
  peekArrives := true
  reads := [some 5]
  dial := ⟨fun _ _ => 0, .reply [0x16, 3, 3], []⟩

/-- The upstream answers and ends its stream; the client's last byte is dropped with the copy. -/
theorem upstream_ends_first :
    ¬Lossless recordAndMore [.replied true, .upstreamEnds]
      (tryTunnel ⟨false, ["front"], some ⟨"front", "p00"⟩⟩ answering recordAndMore) := by
  have hcommitted : tryTunnel ⟨false, ["front"], some ⟨"front", "p00"⟩⟩ answering recordAndMore =
      .committed ⟨[0x17], [], [0x16, 3, 1, 0, 1, 1], .replying⟩ := rfl
  rw [hcommitted]
  rintro ⟨-, hall⟩
  have hdropped := (hall _ rfl).2 _ rfl
  exact absurd (hdropped.whole (.inr rfl)) (by decide)

end Rahgozar.Proxy.Direct
