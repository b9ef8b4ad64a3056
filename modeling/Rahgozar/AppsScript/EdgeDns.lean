import Rahgozar.AppsScript.Request

set_option autoImplicit false

/-! # Edge DNS (`assets/apps_script/CodeFull.gs`)

A `udp_open` op to port 53 carries a DNS query. `_edgeDnsPrepare` reads its question and makes a
cache key of it; `_edgeDnsResolve` answers it from the cache or over DoH, and gives up with `null`,
so that the op goes to the tunnel-node. A byte of the runtime may be signed: every use of one masks
it, so it is a `UInt8` here.
-/

namespace Rahgozar.AppsScript

/-- The runtime of `CodeFull.gs`: the engine, and the digest of `Utilities`. -/
structure Runtime extends Engine where
  sha256 : String → List UInt8

/-- A runtime for names short enough to be keys. -/
def Runtime.ascii : Runtime where
  toEngine := .ascii
  sha256 _ := []

/-! ## Messages on the wire -/

/-- The two bytes at `off`, which are there when a message is long enough. -/
def word (bytes : List UInt8) (off : Nat) : Nat :=
  (bytes.getD off 0).toNat * 256 + (bytes.getD (off + 1) 0).toNat

/-- The labels of a question's name, as they are on the wire, and the bytes after the name. A name
that runs to the end of the message has nothing after it. `fuel` bounds the labels that are left. -/
def readLabels : (fuel nameLen : Nat) → List UInt8 → Option (List (List UInt8) × List UInt8)
  | _, _, [] => some ([], [])
  | 0, _, _ :: _ => none
  | fuel + 1, nameLen, len :: rest =>
      if len = 0 then some ([], rest)
      -- questions don't use compression
      else if len &&& 0xC0 ≠ 0 then none
      else if 63 < len.toNat then none
      else if rest.length < len.toNat then none
      else if 255 < nameLen + len.toNat + 1 then none
      else
        (readLabels fuel (nameLen + len.toNat + 1) (rest.drop len.toNat)).map
          fun (labels, after) => (rest.take len.toNat :: labels, after)

/-- ASCII lowercase. -/
def lowerByte (c : UInt8) : UInt8 := if 0x41 ≤ c ∧ c ≤ 0x5A then c + 0x20 else c

/-- A label of the parsed name. -/
def labelText (label : List UInt8) : String :=
  String.ofList (label.map fun c => Char.ofNat (lowerByte c).toNat)

structure Question where
  txid : Nat
  qname : String
  qtype : Nat
deriving DecidableEq

/-- The labels of the question, and what follows the name. -/
def questionLabels (bytes : List UInt8) : Option (List (List UInt8) × List UInt8) :=
  if bytes.length < 12 then none
  -- a multi-question query would mis-key the cache
  else if word bytes 4 ≠ 1 then none
  else
    (readLabels bytes.length 0 (bytes.drop 12)).filter fun (_, after) => 4 ≤ after.length

def dnsParseQuestion (bytes : List UInt8) : Option Question :=
  (questionLabels bytes).map fun (labels, after) => {
    txid := word bytes 0
    qname := ".".intercalate (labels.map labelText)
    qtype := word after 0 }

/-- What follows a name: labels, or a pointer that ends it. -/
def dnsSkipName : (fuel : Nat) → List UInt8 → Option (List UInt8)
  | _, [] => none
  | 0, _ :: _ => none
  | fuel + 1, len :: rest =>
      if len = 0 then some rest
      else if len &&& 0xC0 = 0xC0 then
        match rest with
        | [] => none
        | _ :: rest => some rest
      else if len &&& 0xC0 ≠ 0 then none
      else if 63 < len.toNat then none
      else dnsSkipName fuel (rest.drop len.toNat)

/-- The bytes after `n` questions. -/
def dnsSkipQuestions : Nat → List UInt8 → Option (List UInt8)
  | 0, bytes => some bytes
  | n + 1, bytes =>
      match dnsSkipName bytes.length bytes with
      | none => none
      | some rest => if rest.length < 4 then none else dnsSkipQuestions n (rest.drop 4)

/-- The least TTL of `n` records, and of `min`. -/
def dnsMinTtlRecords : Nat → List UInt8 → Option Nat → Option Nat
  | 0, _, min => min
  | n + 1, bytes, min =>
      match dnsSkipName bytes.length bytes with
      | none => none
      | some rest =>
          if rest.length < 10 then none
          else
            let value := word rest 4 * 0x10000 + word rest 6
            let ttl := if 0x7FFFFFFF < value then 0 else value
            let rdlen := word rest 8
            if rest.length < 10 + rdlen then none
            else dnsMinTtlRecords n (rest.drop (10 + rdlen))
              (match min with
              | none => some ttl
              | some m => some (if ttl < m then ttl else m))

def dnsMinTtl (bytes : List UInt8) : Option Nat :=
  if bytes.length < 12 then none
  else
    (dnsSkipQuestions (word bytes 4) (bytes.drop 12)).bind fun rest =>
      dnsMinTtlRecords (word bytes 6 + word bytes 8) rest none

def dnsRewriteTxid (bytes : List UInt8) (txid : Nat) : List UInt8 :=
  UInt8.ofNat (txid / 256 % 256) :: UInt8.ofNat (txid % 256) :: bytes.drop 2

/-! ## Queries -/

def edgeDnsMaxDohFetchesPerBatch : Nat := 1

def edgeDnsResolvers : List String :=
  ["https://1.1.1.1/dns-query", "https://dns.google/dns-query", "https://dns.quad9.net/dns-query"]

def edgeDnsMinTtlS : Nat := 30

def edgeDnsMaxTtlS : Nat := 21600

def edgeDnsNegTtlS : Nat := 45

def edgeDnsCachePrefix : String := "edns:"

def edgeDnsMaxKeyLen : Nat := 240

/-- ANY queries are refused. -/
def edgeDnsRefuseQtypes : List Nat := [255]

/-- Two hexadecimal digits. -/
def hexByte (b : UInt8) : List Char :=
  [Nat.digitChar (b.toNat / 16), Nat.digitChar (b.toNat % 16)]

def sha256Hex (js : Runtime) (s : String) : String :=
  String.ofList ((js.sha256 s).flatMap hexByte)

/-- A query that may be answered here, with its cache key. -/
structure Prep where
  bytes : List UInt8
  q : Question
  key : String
deriving DecidableEq

def edgeDnsKey (js : Runtime) (q : Question) : String :=
  let key := edgeDnsCachePrefix ++ toString q.qtype ++ ":" ++ q.qname
  if edgeDnsMaxKeyLen < key.length then
    edgeDnsCachePrefix ++ "h:" ++ toString q.qtype ++ ":" ++ sha256Hex js q.qname
  else key

def edgeDnsPrepare (js : Runtime) (d : Json) : Option Prep :=
  match js.base64Decode d with
  | .error _ => none
  | .ok bytes =>
      if bytes.length < 12 then none
      else
        match dnsParseQuestion bytes with
        | none => none
        | some q =>
            if edgeDnsRefuseQtypes.contains q.qtype then none
            else some ⟨bytes, q, edgeDnsKey js q⟩

def edgeDnsReplyMatchesPrep (prep : Prep) (reply : List UInt8) : Bool :=
  if reply.length < 12 then false
  -- only actual responses, and no truncated ones
  else if reply.getD 2 0 &&& 0x80 = 0 ∨ reply.getD 2 0 &&& 0x02 ≠ 0 then false
  else
    match dnsParseQuestion reply with
    | none => false
    | some q => q.qname == prep.q.qname && q.qtype == prep.q.qtype

def edgeDnsReplyTtl (reply : List UInt8) : Nat :=
  let rcode := reply.getD 3 0 &&& 0x0F
  if rcode = 2 ∨ rcode = 3 then edgeDnsNegTtlS
  else
    let ttl := (dnsMinTtl reply).getD edgeDnsNegTtlS
    let ttl := if ttl < edgeDnsMinTtlS then edgeDnsMinTtlS else ttl
    if edgeDnsMaxTtlS < ttl then edgeDnsMaxTtlS else ttl

/-! ## Answers -/

/-- A synthesized answer. -/
structure Synth where
  sid : String
  packet : List UInt8

/-- `Utilities.base64Encode` -/
def base64Encode (bytes : List UInt8) : String := String.ofList (Base64.encode bytes)

theorem ascii_base64Decode (bytes : List UInt8) :
    Runtime.ascii.base64Decode (.str (base64Encode bytes)) = .ok bytes := by
  have hdecode : Base64.decode (base64Encode bytes).toList = some bytes := by
    unfold base64Encode
    rw [String.toList_ofList, Base64.decode_encode]
  unfold Runtime.ascii Engine.ascii
  dsimp only
  rw [hdecode]

/-- `Utilities.base64EncodeWebSafe`, without the padding. -/
def base64UrlEncode (bytes : List UInt8) : String :=
  String.ofList (((Base64.encode bytes).filter (· ≠ '=')).map fun c =>
    if c = '+' then '-' else if c = '/' then '_' else c)

/-- The batch result of an answer. -/
def Synth.toJson (s : Synth) : Json :=
  .obj [("sid", .str s.sid), ("pkts", .arr [.str (base64Encode s.packet)]), ("eof", .bool true)]

/-- `cache.put(prep.key, reply, ttl)` -/
structure Put where
  prep : Prep
  value : String
  ttl : Nat

def Put.of (prep : Prep) (reply : List UInt8) : Put :=
  ⟨prep, base64Encode reply, edgeDnsReplyTtl reply⟩

/-- The outcome of a fetch; `none` when it throws. -/
abbrev FetchResult := Option (Nat × List UInt8)

def edgeDnsDoh (outcome : FetchResult) : Option (List UInt8) :=
  match outcome with
  | none => none
  | some (code, body) => if code ≠ 200 then none else if body.length < 12 then none else some body

/-- A DoH fetch. -/
structure DohCall where
  resolver : String
  query : List UInt8

/-- Its URL. -/
def DohCall.url (call : DohCall) : String := call.resolver ++ "?dns=" ++ base64UrlEncode call.query

/-- What `_edgeDnsResolve` changes: the in-batch map, the budget, the fetches made and the values
put into the cache. -/
structure Resolving where
  localMap : String → Option String
  remaining : Nat
  fetched : List DohCall
  puts : List Put

/-- The reply that a cached value holds. -/
def cachedReply (js : Runtime) (value : String) : Option (List UInt8) :=
  if value = "" then none
  else
    match js.base64Decode (.str value) with
    | .error _ => none
    | .ok hit => if hit.length < 12 then none else some hit

section

/- `cache` tells whether there is a cache to put into, `doh` the outcome of each DoH fetch of the
batch. -/
variable (js : Runtime) (cache : Bool) (doh : Nat → FetchResult) (prep : Prep)

/-- A reply that matches its query. -/
def Resolving.accept (st : Resolving) (reply : List UInt8) : Option Synth × Resolving :=
  (some ⟨"edns-doh", dnsRewriteTxid reply prep.q.txid⟩,
    { st with
      localMap := Function.update st.localMap prep.key (some (base64Encode reply))
      puts := if cache then st.puts ++ [Put.of prep reply] else st.puts })

/-- The loop over the resolvers. -/
def edgeDnsAsk : List String → Resolving → Option Synth × Resolving
  | [], st => (none, st)
  | resolver :: resolvers, st =>
      if st.remaining = 0 then (none, st)
      else
        let st' := { st with
          remaining := st.remaining - 1
          fetched := st.fetched ++ [⟨resolver, prep.bytes⟩] }
        match edgeDnsDoh (doh st.fetched.length) with
        | none => edgeDnsAsk resolvers st'
        | some reply =>
            if edgeDnsReplyMatchesPrep prep reply then st'.accept cache prep reply
            else edgeDnsAsk resolvers st'

def edgeDnsResolve (st : Resolving) : Option Synth × Resolving :=
  match (st.localMap prep.key).bind (cachedReply js) with
  | some hit => (some ⟨"edns-cache", dnsRewriteTxid hit prep.q.txid⟩, st)
  | none => edgeDnsAsk cache doh prep edgeDnsResolvers st

end

/-! ## Facts -/

theorem length_dnsRewriteTxid {bytes : List UInt8} (h : 12 ≤ bytes.length) (txid : Nat) :
    (dnsRewriteTxid bytes txid).length = bytes.length := by
  unfold dnsRewriteTxid
  rw [List.length_cons, List.length_cons, List.length_drop]
  omega

theorem cachedReply_eq_some {js : Runtime} {value : String} {hit : List UInt8}
    (h : cachedReply js value = some hit) :
    js.base64Decode (.str value) = .ok hit ∧ 12 ≤ hit.length := by
  unfold cachedReply at h
  split at h
  · cases h
  · split at h
    · cases h
    · rename_i hit' hdecode
      split at h
      · cases h
      · cases h
        exact ⟨hdecode, by omega⟩

section

variable {js : Runtime} {cache : Bool} {doh : Nat → FetchResult} {prep : Prep}

theorem edgeDnsAsk_cons (resolver : String) (resolvers : List String) (st : Resolving) :
    edgeDnsAsk cache doh prep (resolver :: resolvers) st =
      if st.remaining = 0 then (none, st)
      else
        let st' := { st with
          remaining := st.remaining - 1
          fetched := st.fetched ++ [⟨resolver, prep.bytes⟩] }
        match edgeDnsDoh (doh st.fetched.length) with
        | none => edgeDnsAsk cache doh prep resolvers st'
        | some reply =>
            if edgeDnsReplyMatchesPrep prep reply then st'.accept cache prep reply
            else edgeDnsAsk cache doh prep resolvers st' :=
  rfl

/-- No budget, no fetch. -/
theorem edgeDnsAsk_of_remaining_eq_zero {st : Resolving} (h : st.remaining = 0)
    (resolvers : List String) : edgeDnsAsk cache doh prep resolvers st = (none, st) := by
  cases resolvers with
  | nil => rfl
  | cons resolver resolvers =>
      rw [edgeDnsAsk_cons]
      rw [if_pos h]

/-- The loop over the resolvers ends with a reply that matches, or has changed neither map nor
cache. -/
theorem edgeDnsAsk_cases (resolvers : List String) (st : Resolving) :
    st.fetched <+: (edgeDnsAsk cache doh prep resolvers st).2.fetched ∧
    (((edgeDnsAsk cache doh prep resolvers st).1 = none ∧
      (edgeDnsAsk cache doh prep resolvers st).2.localMap = st.localMap ∧
      (edgeDnsAsk cache doh prep resolvers st).2.puts = st.puts) ∨
    ∃ n resolver reply, (edgeDnsAsk cache doh prep resolvers st).2.fetched[n]?
        = some ⟨resolver, prep.bytes⟩ ∧
      edgeDnsDoh (doh n) = some reply ∧ edgeDnsReplyMatchesPrep prep reply = true ∧
      (edgeDnsAsk cache doh prep resolvers st).1
        = some ⟨"edns-doh", dnsRewriteTxid reply prep.q.txid⟩ ∧
      (edgeDnsAsk cache doh prep resolvers st).2.localMap
        = Function.update st.localMap prep.key (some (base64Encode reply)) ∧
      (edgeDnsAsk cache doh prep resolvers st).2.puts
        = if cache then st.puts ++ [Put.of prep reply] else st.puts) := by
  induction resolvers generalizing st with
  | nil => exact ⟨List.prefix_rfl, .inl ⟨rfl, rfl, rfl⟩⟩
  | cons resolver resolvers ih =>
      rw [edgeDnsAsk_cons]
      split
      · exact ⟨List.prefix_rfl, .inl ⟨rfl, rfl, rfl⟩⟩
      · have hgrows := List.prefix_append st.fetched [⟨resolver, prep.bytes⟩]
        have hnext := ih { st with
          remaining := st.remaining - 1, fetched := st.fetched ++ [⟨resolver, prep.bytes⟩] }
        cases hdoh : edgeDnsDoh (doh st.fetched.length) with
        | none => exact ⟨hgrows.trans hnext.1, hnext.2⟩
        | some reply =>
            by_cases hmatch : edgeDnsReplyMatchesPrep prep reply = true
            · simp only [if_pos hmatch]
              exact ⟨hgrows, .inr ⟨_, resolver, reply, List.getElem?_concat_length, hdoh, hmatch,
                rfl, rfl, rfl⟩⟩
            · simp only [if_neg hmatch]
              exact ⟨hgrows.trans hnext.1, hnext.2⟩

theorem edgeDnsAsk_localMap_of_none {resolvers : List String} {st : Resolving}
    (h : (edgeDnsAsk cache doh prep resolvers st).1 = none) :
    (edgeDnsAsk cache doh prep resolvers st).2.localMap = st.localMap := by
  obtain ⟨-, hmap, -⟩ | ⟨_, _, _, -, -, -, hsome, -, -⟩ :
      ((edgeDnsAsk cache doh prep resolvers st).1 = none ∧ _) ∨ _ :=
    (edgeDnsAsk_cases resolvers st).2
  · exact hmap
  · rw [h] at hsome
    cases hsome

theorem edgeDnsAsk_budget (resolvers : List String) (st : Resolving) :
    (edgeDnsAsk cache doh prep resolvers st).2.fetched.length +
      (edgeDnsAsk cache doh prep resolvers st).2.remaining = st.fetched.length + st.remaining := by
  induction resolvers generalizing st with
  | nil => rfl
  | cons resolver resolvers ih =>
      rw [edgeDnsAsk_cons]
      split
      · rfl
      · rename_i hremaining
        have hspent : (st.fetched ++ [(⟨resolver, prep.bytes⟩ : DohCall)]).length
            + (st.remaining - 1) = st.fetched.length + st.remaining := by
          rw [List.length_append, List.length_singleton]
          omega
        cases hdoh : edgeDnsDoh (doh st.fetched.length) with
        | none => exact (ih _).trans hspent
        | some reply =>
            by_cases hmatch : edgeDnsReplyMatchesPrep prep reply = true
            · simp only [if_pos hmatch]
              exact hspent
            · simp only [if_neg hmatch]
              exact (ih _).trans hspent

/-- With the budget of one batch the first resolver is asked, and no other. -/
theorem edgeDnsAsk_once {st : Resolving} (h : st.remaining = 1) :
    ((edgeDnsAsk cache doh prep edgeDnsResolvers st).1 = none ↔
      ¬ ∃ reply, edgeDnsDoh (doh st.fetched.length) = some reply ∧
        edgeDnsReplyMatchesPrep prep reply = true) ∧
    (edgeDnsAsk cache doh prep edgeDnsResolvers st).2.remaining = 0 := by
  rw [edgeDnsResolvers, edgeDnsAsk_cons, if_neg (by omega)]
  cases hdoh : edgeDnsDoh (doh st.fetched.length) with
  | none =>
      simp only [h, Nat.sub_self, edgeDnsAsk_of_remaining_eq_zero, true_iff, and_true]
      rintro ⟨_, hreply, -⟩
      cases hreply
  | some reply =>
      by_cases hmatch : edgeDnsReplyMatchesPrep prep reply = true
      · simp only [if_pos hmatch, Resolving.accept, h, Nat.sub_self, and_true]
        exact ⟨nofun, fun hnone => absurd ⟨reply, rfl, hmatch⟩ hnone⟩
      · simp only [if_neg hmatch, h, Nat.sub_self, edgeDnsAsk_of_remaining_eq_zero, true_iff,
          and_true]
        rintro ⟨_, hreply, hmatch'⟩
        cases hreply
        exact hmatch hmatch'

variable (js cache doh prep)

/-- What `_edgeDnsResolve` can do. -/
inductive Resolves (st : Resolving) : Option Synth → Resolving → Prop where
  | cached {value : String} {hit : List UInt8} (found : st.localMap prep.key = some value)
      (reads : cachedReply js value = some hit) :
      Resolves st (some ⟨"edns-cache", dnsRewriteTxid hit prep.q.txid⟩) st
  | fetched {n : Nat} {resolver : String} {reply : List UInt8} {st' : Resolving}
      (grows : st.fetched <+: st'.fetched) (asked : st'.fetched[n]? = some ⟨resolver, prep.bytes⟩)
      (received : edgeDnsDoh (doh n) = some reply)
      (matching : edgeDnsReplyMatchesPrep prep reply = true)
      (localMap : st'.localMap =
        Function.update st.localMap prep.key (some (base64Encode reply)))
      (puts : st'.puts = if cache then st.puts ++ [Put.of prep reply] else st.puts) :
      Resolves st (some ⟨"edns-doh", dnsRewriteTxid reply prep.q.txid⟩) st'
  | missed {st' : Resolving} (grows : st.fetched <+: st'.fetched)
      (localMap : st'.localMap = st.localMap) (puts : st'.puts = st.puts) :
      Resolves st none st'

variable {js cache doh prep}

theorem edgeDnsResolve_resolves (st : Resolving) :
    Resolves js cache doh prep st (edgeDnsResolve js cache doh prep st).1
      (edgeDnsResolve js cache doh prep st).2 := by
  unfold edgeDnsResolve
  split
  · rename_i hit hhit
    obtain ⟨value, hvalue, hreads⟩ := Option.bind_eq_some_iff.mp hhit
    exact .cached hvalue hreads
  · obtain ⟨hgrows, ⟨hnone, hmap, hputs⟩ | ⟨n, r, reply, hn, hdoh, hmatch, hsome, hmap, hputs⟩⟩ :=
      edgeDnsAsk_cases edgeDnsResolvers st
    · rw [hnone]
      exact .missed hgrows hmap hputs
    · rw [hsome]
      exact .fetched hgrows hn hdoh hmatch hmap hputs

theorem edgeDnsResolve_budget (st : Resolving) :
    (edgeDnsResolve js cache doh prep st).2.fetched.length +
      (edgeDnsResolve js cache doh prep st).2.remaining = st.fetched.length + st.remaining := by
  unfold edgeDnsResolve
  split
  · rfl
  · exact edgeDnsAsk_budget _ _

end

end Rahgozar.AppsScript
