import Rahgozar.AppsScript.TunnelBatch
import Rahgozar.Lib.Run

set_option autoImplicit false

/-! # What edge DNS answers over many batches

The replies that `_edgeDnsResolve` returns come from the cache of the script, from a DoH fetch, or
from a DoH fetch for an earlier op of the batch; the cache is filled by DoH replies and by what the
tunnel-node returns. A run is a sequence of batches. Beside the cache the state records what was
received for which query, and what was answered.
-/

namespace Rahgozar.AppsScript

/-! ## Questions -/

/-- The question section of a message with one question: the name, the type and the class. -/
def questionSection (bytes : List UInt8) : Option (List UInt8) :=
  (questionLabels bytes).map fun p => (bytes.drop 12).take (bytes.length - 12 - p.2.length + 4)

/-- The messages ask for the same labels, up to letter case, and the same type and class. -/
def SameQuestion (a b : List UInt8) : Prop :=
  ∃ p q, questionLabels a = some p ∧ questionLabels b = some q ∧
    p.1.map (List.map lowerByte) = q.1.map (List.map lowerByte) ∧ p.2.take 4 = q.2.take 4

/-- A name on the wire. -/
def wire (labels : List (List UInt8)) : List UInt8 :=
  labels.flatMap (fun label => UInt8.ofNat label.length :: label) ++ [0]

theorem wire_cons (label : List UInt8) (labels : List (List UInt8)) :
    wire (label :: labels) = UInt8.ofNat label.length :: (label ++ wire labels) := by
  simp [wire]

/-- A name that is followed by something is on the wire label by label. -/
theorem readLabels_wire {fuel nameLen : Nat} {bytes after : List UInt8}
    {labels : List (List UInt8)} (h : readLabels fuel nameLen bytes = some (labels, after))
    (hafter : after ≠ []) :
    bytes = wire labels ++ after ∧ ∀ label ∈ labels, 0 < label.length ∧ label.length ≤ 63 := by
  induction fuel generalizing nameLen bytes labels with
  | zero =>
      cases bytes with
      | nil =>
          cases h
          exact absurd rfl hafter
      | cons len rest => cases h
  | succ fuel ih =>
      cases bytes with
      | nil =>
          cases h
          exact absurd rfl hafter
      | cons len rest =>
          unfold readLabels at h
          by_cases hroot : len = 0
          · rw [if_pos hroot] at h
            cases h
            rw [hroot]
            exact ⟨rfl, fun _ hmem => (nomatch hmem)⟩
          rw [if_neg hroot] at h
          obtain ⟨-, h⟩ := Option.ite_none_left_eq_some.mp h
          obtain ⟨h63, h⟩ := Option.ite_none_left_eq_some.mp h
          obtain ⟨hlen, h⟩ := Option.ite_none_left_eq_some.mp h
          obtain ⟨-, h⟩ := Option.ite_none_left_eq_some.mp h
          obtain ⟨⟨labels', after'⟩, hrest, heq⟩ := Option.map_eq_some_iff.mp h
          cases heq
          obtain ⟨hbytes, hlabels⟩ := ih hrest
          have htake : (rest.take len.toNat).length = len.toNat := by
            rw [List.length_take]
            omega
          have hpos : 0 < len.toNat :=
            Nat.pos_of_ne_zero fun hzero => hroot (UInt8.toNat_inj.mp hzero)
          refine ⟨?_, fun label hmem => ?_⟩
          · rw [wire_cons, htake, UInt8.ofNat_toNat, List.cons_append, List.append_assoc, ← hbytes,
              List.take_append_drop]
          · rcases List.mem_cons.mp hmem with rfl | hmem
            · omega
            · exact hlabels label hmem

/-- Names on the wire are read back in one way. -/
theorem wire_append_inj {labels labels' : List (List UInt8)} {a b : List UInt8}
    (hlabels : ∀ label ∈ labels, 0 < label.length ∧ label.length ≤ 63)
    (hlabels' : ∀ label ∈ labels', 0 < label.length ∧ label.length ≤ 63)
    (h : wire labels ++ a = wire labels' ++ b) : labels = labels' ∧ a = b := by
  have hsmall : ∀ n, 0 < n → n ≤ 63 → (UInt8.ofNat n).toNat = n ∧ UInt8.ofNat n ≠ 0 := by
    intro n hpos hle
    have hn : (UInt8.ofNat n).toNat = n := by
      rw [UInt8.toNat_ofNat']
      exact Nat.mod_eq_of_lt (by omega)
    refine ⟨hn, fun hzero => ?_⟩
    rw [hzero] at hn
    have : (0 : UInt8).toNat = 0 := rfl
    omega
  induction labels generalizing labels' with
  | nil =>
      cases labels' with
      | nil => exact ⟨rfl, (List.cons.inj h).2⟩
      | cons label' labels' =>
          obtain ⟨hpos, hle⟩ := hlabels' label' List.mem_cons_self
          rw [wire_cons] at h
          exact absurd (List.cons.inj h).1.symm (hsmall _ hpos hle).2
  | cons label labels ih =>
      obtain ⟨hpos, hle⟩ := hlabels label List.mem_cons_self
      cases labels' with
      | nil =>
          rw [wire_cons] at h
          exact absurd (List.cons.inj h).1 (hsmall _ hpos hle).2
      | cons label' labels' =>
          obtain ⟨hpos', hle'⟩ := hlabels' label' List.mem_cons_self
          rw [wire_cons, wire_cons, List.cons_append, List.cons_append, List.append_assoc,
            List.append_assoc] at h
          obtain ⟨hlen, htail⟩ := List.cons.inj h
          have hlength : label.length = label'.length := by
            rw [← (hsmall _ hpos hle).1, hlen, (hsmall _ hpos' hle').1]
          obtain ⟨rfl, hrest⟩ := List.append_inj htail hlength
          obtain ⟨rfl, hab⟩ := ih (fun l hl => hlabels l (List.mem_cons_of_mem _ hl))
            (fun l hl => hlabels' l (List.mem_cons_of_mem _ hl)) hrest
          exact ⟨rfl, hab⟩

theorem questionLabels_eq_some {bytes : List UInt8} {p : List (List UInt8) × List UInt8}
    (h : questionLabels bytes = some p) :
    12 ≤ bytes.length ∧ word bytes 4 = 1 ∧ readLabels bytes.length 0 (bytes.drop 12) = some p ∧
      4 ≤ p.2.length := by
  unfold questionLabels at h
  obtain ⟨hlength, h⟩ := Option.ite_none_left_eq_some.mp h
  obtain ⟨hcount, h⟩ := Option.ite_none_left_eq_some.mp h
  obtain ⟨hread, hafter⟩ := Option.filter_eq_some_iff.mp h
  exact ⟨by omega, not_not.mp hcount, hread, of_decide_eq_true hafter⟩

/-- The question section is the name, the type and the class. -/
theorem questionSection_eq {bytes : List UInt8} {p : List (List UInt8) × List UInt8}
    (h : questionLabels bytes = some p) :
    questionSection bytes = some (wire p.1 ++ p.2.take 4) ∧
      ∀ label ∈ p.1, 0 < label.length ∧ label.length ≤ 63 := by
  obtain ⟨hlength, -, hread, hafter⟩ := questionLabels_eq_some h
  obtain ⟨hbytes, hlabels⟩ := readLabels_wire hread
    (fun hnil => by rw [hnil] at hafter; cases hafter)
  refine ⟨?_, hlabels⟩
  have hsize : bytes.length - 12 - p.2.length + 4 = (wire p.1).length + 4 := by
    have := congrArg List.length hbytes
    rw [List.length_drop, List.length_append] at this
    omega
  unfold questionSection
  rw [h, Option.map_some, hsize, hbytes, List.take_length_add_append]

/-- Equal question sections ask the same question. -/
theorem sameQuestion_of_section {a b s : List UInt8} (ha : questionSection a = some s)
    (hb : questionSection b = some s) : SameQuestion a b := by
  obtain ⟨p, hp, -⟩ := Option.map_eq_some_iff.mp ha
  obtain ⟨q, hq, -⟩ := Option.map_eq_some_iff.mp hb
  obtain ⟨hsa, hla⟩ := questionSection_eq hp
  obtain ⟨hsb, hlb⟩ := questionSection_eq hq
  have heq : wire p.1 ++ p.2.take 4 = wire q.1 ++ q.2.take 4 := by
    rw [← Option.some.injEq, ← hsa, ← hsb, ha, hb]
  obtain ⟨hlabels, hrest⟩ := wire_append_inj hla hlb heq
  exact ⟨p, q, hp, hq, by rw [hlabels], hrest⟩

/-- The transaction id is no part of the question. -/
theorem questionSection_dnsRewriteTxid {bytes : List UInt8} (h : 12 ≤ bytes.length) (txid : Nat) :
    questionSection (dnsRewriteTxid bytes txid) = questionSection bytes := by
  have hlength := length_dnsRewriteTxid h txid
  have hdrop : (dnsRewriteTxid bytes txid).drop 12 = bytes.drop 12 := by
    unfold dnsRewriteTxid
    rw [List.drop_succ_cons, List.drop_succ_cons, List.drop_drop]
  have hword : word (dnsRewriteTxid bytes txid) 4 = word bytes 4 := by
    unfold word dnsRewriteTxid
    simp only [List.getD_eq_getElem?_getD, List.getElem?_cons_succ, List.getElem?_drop]
  unfold questionSection questionLabels
  rw [hlength, hdrop, hword]

/-- The rewritten id is that of the query. -/
theorem take_dnsRewriteTxid {query : List UInt8} (h : 12 ≤ query.length) (bytes : List UInt8) :
    (dnsRewriteTxid bytes (word query 0)).take 2 = query.take 2 := by
  match query, h with
  | hi :: lo :: rest, _ =>
      have hlo := lo.toNat_lt
      have hhi := hi.toNat_lt
      have hword : word (hi :: lo :: rest) 0 = hi.toNat * 256 + lo.toNat := rfl
      have h₀ : word (hi :: lo :: rest) 0 / 256 % 256 = hi.toNat := by omega
      have h₁ : word (hi :: lo :: rest) 0 % 256 = lo.toNat := by omega
      unfold dnsRewriteTxid
      rw [h₀, h₁, UInt8.ofNat_toNat, UInt8.ofNat_toNat]
      rfl

/-! ## Runs of batches -/

/-- A reply that was received for a query. -/
structure Exchange where
  query : List UInt8
  reply : List UInt8

/-- A cached value, and the query it was put there for. -/
structure Stored where
  value : String
  query : List UInt8

/-- The cache; what was received, for which query; and what was answered, to which query. -/
structure DnsState where
  cache : String → Option Stored
  received : List Exchange
  given : List (List UInt8 × List UInt8)

/-- A batch: `visible` tells which entries the cache still shows (`none` when `CacheService`
throws), `lands` which of the values that are put arrive. -/
structure Batch where
  req : TunnelRequest
  visible : Option (String → Bool)
  doh : Nat → FetchResult
  node : NodeCall → Except String NodeResponse
  lands : Nat → Bool

namespace DnsState

def empty : DnsState := ⟨fun _ => none, [], []⟩

/-- What a batch meets. -/
def outside (s : DnsState) (b : Batch) : Outside where
  getAll _ := b.visible.map fun visible key =>
    if visible key then (s.cache key).map Stored.value else none
  doh := b.doh
  node := b.node

end DnsState

/-- The cache after these values were put. -/
def landPuts (lands : Nat → Bool) (puts : List Put) (cache : String → Option Stored) :
    String → Option Stored :=
  puts.zipIdx.foldl (fun cache (put, n) =>
    if lands n then Function.update cache put.prep.key (some ⟨put.value, put.prep.bytes⟩)
    else cache) cache

section

variable (js : Runtime) (w : Outside)

/-- The replies of the DoH fetches. -/
def dohExchanges (fetched : List DohCall) : List Exchange :=
  fetched.zipIdx.filterMap fun (call, n) =>
    (edgeDnsDoh (w.doh n)).map fun reply => ⟨call.query, reply⟩

/-- The reply that a result of the tunnel-node carries. -/
def packetOf (res : Json) : Option (List UInt8) :=
  (firstPacket res).bind fun pkt => (js.base64Decode pkt).toOption

/-- The DNS replies in a response of the tunnel-node. -/
def nodeExchanges (call : NodeCall) : List Exchange :=
  match doTunnelBatchFetch w call with
  | .error _ => []
  | .ok body =>
      (call.sent.zip (resultsOf body)).filterMap fun (p, res) =>
        (candidateOf js p.2).bind fun prep => (packetOf js res).map fun reply => ⟨prep.bytes, reply⟩

def Outcome.exchanges (out : Outcome) : List Exchange :=
  dohExchanges w out.fetched ++ out.calls.flatMap (nodeExchanges js w)

end

namespace DnsState

/-- A batch is answered. -/
def step (js : Runtime) (s : DnsState) (b : Batch) : Option DnsState :=
  let w := s.outside b
  let out := doTunnelBatch js w b.req
  some {
    cache := landPuts b.lands out.puts s.cache
    received := s.received ++ out.exchanges js w
    given := s.given ++ out.served.map fun p => (p.1.prep.bytes, p.2.packet) }

end DnsState

/-- The packet answers the query: it has its id and its question, and came as the reply to a query
for the same. -/
structure RightAnswer (received : List Exchange) (query packet : List UInt8) : Prop where
  txid : packet.take 2 = query.take 2
  question : ∃ s, questionSection packet = some s ∧ questionSection query = some s
  received : ∃ e ∈ received, packet = dnsRewriteTxid e.reply (word query 0) ∧
    SameQuestion e.query query

/-- Every answer so far answers its query. -/
def DnsState.Right (s : DnsState) : Prop := ∀ p ∈ s.given, RightAnswer s.received p.1 p.2

/-- What a batch has to meet: a reply that is taken for the reply to a query has its question, and
queries with one key have one question. -/
structure DnsState.Distinct (js : Runtime) (s : DnsState) (b : Batch) : Prop where
  dohEchoes : ∀ n < edgeDnsMaxDohFetchesPerBatch, ∀ prep reply, IsQuery js b.req.ops prep →
    edgeDnsDoh (b.doh n) = some reply → edgeDnsReplyMatchesPrep prep reply = true →
    questionSection reply = questionSection prep.bytes
  nodeEchoes : ∀ call body, doTunnelBatchFetch (s.outside b) call = .ok body →
    ∀ p ∈ call.sent.zip (resultsOf body), ∀ prep reply, candidateOf js p.1.2 = some prep →
    packetOf js p.2 = some reply → edgeDnsReplyMatchesPrep prep reply = true →
    questionSection reply = questionSection prep.bytes
  cacheAlike : ∀ visible, b.visible = some visible → ∀ prep, IsQuery js b.req.ops prep →
    visible prep.key = true → ∀ stored, s.cache prep.key = some stored →
    questionSection stored.query = questionSection prep.bytes
  batchAlike : ∀ prep prep', IsQuery js b.req.ops prep → IsQuery js b.req.ops prep' →
    prep.key = prep'.key → questionSection prep.bytes = questionSection prep'.bytes

/-! ## One batch -/

theorem edgeDnsPrepare_eq_some {js : Runtime} {d : Json} {prep : Prep}
    (h : edgeDnsPrepare js d = some prep) :
    dnsParseQuestion prep.bytes = some prep.q := by
  unfold edgeDnsPrepare at h
  split at h
  · cases h
  · obtain ⟨-, h⟩ := Option.ite_none_left_eq_some.mp h
    split at h
    · cases h
    · rename_i q hq
      obtain ⟨-, h⟩ := Option.ite_none_left_eq_some.mp h
      cases h
      exact hq

section

variable {js : Runtime} {w : Outside} {ops : List Json} {prep : Prep}

theorem IsQuery.question (h : IsQuery js ops prep) :
    12 ≤ prep.bytes.length ∧ prep.q.txid = word prep.bytes 0 ∧
      ∃ s, questionSection prep.bytes = some s := by
  obtain ⟨op, -, hcand⟩ := h
  unfold candidateOf at hcand
  obtain ⟨-, hcand⟩ := Option.ite_none_right_eq_some.mp hcand
  obtain ⟨d, -, hprep⟩ := Option.bind_eq_some_iff.mp hcand
  obtain ⟨p, hp, hq⟩ := Option.map_eq_some_iff.mp (edgeDnsPrepare_eq_some hprep)
  refine ⟨(questionLabels_eq_some hp).1, ?_, _, (questionSection_eq hp).1⟩
  rw [← hq]

theorem length_of_edgeDnsReplyMatchesPrep {reply : List UInt8}
    (h : edgeDnsReplyMatchesPrep prep reply = true) : 12 ≤ reply.length := by
  unfold edgeDnsReplyMatchesPrep at h
  split at h
  · cases h
  · omega

theorem FetchedFor.mem_dohExchanges {fetched : List DohCall} {reply : List UInt8}
    (h : FetchedFor w fetched prep reply) : ⟨prep.bytes, reply⟩ ∈ dohExchanges w fetched := by
  obtain ⟨n, resolver, hn, hdoh, -⟩ := h
  refine List.mem_filterMap.mpr ⟨(⟨resolver, prep.bytes⟩, n),
    List.mk_mem_zipIdx_iff_getElem?.mpr hn, ?_⟩
  simp only [hdoh, Option.map_some]

/-- A reply of the tunnel-node to this query. -/
def NodeReply (js : Runtime) (w : Outside) (calls : List NodeCall) (prep : Prep)
    (reply : List UInt8) : Prop :=
  ∃ call ∈ calls, ∃ body, doTunnelBatchFetch w call = .ok body ∧
    ∃ p ∈ call.sent.zip (resultsOf body), candidateOf js p.1.2 = some prep ∧
      packetOf js p.2 = some reply

theorem NodeReply.mem_exchanges {calls : List NodeCall} {reply : List UInt8}
    (h : NodeReply js w calls prep reply) :
    ⟨prep.bytes, reply⟩ ∈ calls.flatMap (nodeExchanges js w) := by
  obtain ⟨call, hcall, body, hbody, p, hp, hcand, hpacket⟩ := h
  refine List.mem_flatMap.mpr ⟨call, hcall, ?_⟩
  unfold nodeExchanges
  rw [hbody]
  refine List.mem_filterMap.mpr ⟨p, hp, ?_⟩
  simp only [hcand, hpacket, Option.bind_some, Option.map_some]

theorem mem_edgeDnsCacheForwardedReplies {cache : Bool} {forward : List Forward} {r : List Json}
    {put : Put} (h : put ∈ edgeDnsCacheForwardedReplies js cache forward r) :
    ∃ f res prep reply, (f, res) ∈ forward.zip r ∧ f.prep = some prep ∧
      packetOf js res = some reply ∧ edgeDnsReplyMatchesPrep prep reply = true ∧
      put = Put.of prep reply := by
  unfold edgeDnsCacheForwardedReplies at h
  split at h
  · obtain ⟨⟨f, res⟩, hmem, hput⟩ := List.mem_filterMap.mp h
    obtain ⟨prep, hprep, hput⟩ := Option.bind_eq_some_iff.mp hput
    obtain ⟨pkt, hpkt, hput⟩ := Option.bind_eq_some_iff.mp hput
    unfold edgeDnsStoreReply at hput
    split at hput
    · cases hput
    · rename_i reply hreply
      obtain ⟨hmatch, hput⟩ := Option.ite_none_right_eq_some.mp hput
      cases hput
      refine ⟨f, res, prep, reply, hmem, hprep, ?_, hmatch, rfl⟩
      unfold packetOf
      rw [hpkt, Option.bind_some, hreply]
      rfl
  · cases h

end

/-- What is known of an outcome: where its answers and what it puts come from. -/
structure Outcome.Sourced (js : Runtime) (w : Outside) (ops : List Json) (out : Outcome) :
    Prop where
  fetches : out.fetched.length ≤ edgeDnsMaxDohFetchesPerBatch
  served : ∀ p ∈ out.served, IsQuery js ops p.1.prep ∧ AnswerTo js w ops out.fetched p.1.prep p.2
  puts : ∀ put ∈ out.puts, ∃ prep reply, put = Put.of prep reply ∧ IsQuery js ops prep ∧
    edgeDnsReplyMatchesPrep prep reply = true ∧
    (FetchedFor w out.fetched prep reply ∨ NodeReply js w out.calls prep reply)

theorem doTunnelBatchForward_sourced (js : Runtime) (w : Outside) (ops : List Json)
    (call : NodeCall) : (doTunnelBatchForward w call).Sourced js w ops :=
  ⟨Nat.zero_le _, fun _ h => (nomatch h), fun _ h => (nomatch h)⟩

/-- An op that is forwarded with a query in it is a candidate that was not resolved. -/
theorem isQuery_of_forward {js : Runtime} {w : Outside} {ops : List Json}
    {served : List (Candidate × Synth)} {missed : List Candidate} {st : Resolving}
    (hres : resolveBatch js w (candidates js ops) = (served, missed, st)) {f : Forward}
    {prep : Prep}
    (hf : f ∈ forwardAll (plainOps js ops) missed) (hprep : f.prep = some prep) :
    candidateOf js f.op = some prep ∧ IsQuery js ops prep := by
  rcases List.mem_append.mp hf with hplain | hmissed
  · rw [(mem_plainOps.mp hplain).2.2] at hprep
    cases hprep
  · obtain ⟨c, hc, rfl⟩ := List.mem_map.mp hmissed
    cases hprep
    have hc := (served_perm hres).subset (List.mem_append_left _ hc)
    exact ⟨(mem_candidates.mp hc).2, isQuery_of_mem_candidates hc⟩

theorem doTunnelBatch_sourced (js : Runtime) (w : Outside) (req : TunnelRequest) :
    (doTunnelBatch js w req).Sourced js w req.ops := by
  unfold doTunnelBatch
  split
  · exact doTunnelBatchForward_sourced js w req.ops _
  obtain ⟨served, missed, st, hres⟩ : ∃ served missed st,
      resolveBatch js w (candidates js req.ops) = (served, missed, st) := ⟨_, _, _, rfl⟩
  -- what goes to the node: the other operations, and the queries that were missed
  obtain ⟨forward, hforward⟩ : ∃ forward, forward = forwardAll (plainOps js req.ops) missed :=
    ⟨_, rfl⟩
  obtain ⟨hst, hanswers⟩ :
      Sourced js w req.ops (resolveBatch js w (candidates js req.ops)).2.2 ∧ _ :=
    resolveBatch_sourced
  simp only [hres] at hst hanswers
  have hfetches := fetched_le hres
  have hserved : ∀ p ∈ served,
      IsQuery js req.ops p.1.prep ∧ AnswerTo js w req.ops st.fetched p.1.prep p.2 := by
    refine fun p hp => ⟨isQuery_of_mem_candidates ?_, hanswers p hp⟩
    exact (served_perm hres).subset (List.mem_append_right _ (List.mem_map.mpr ⟨p, hp, rfl⟩))
  -- what is put into the cache was fetched, or is in a reply of the node
  have hputs : ∀ (calls : List NodeCall), ∀ put ∈ st.puts, ∃ prep reply, put = Put.of prep reply ∧
      IsQuery js req.ops prep ∧ edgeDnsReplyMatchesPrep prep reply = true ∧
      (FetchedFor w st.fetched prep reply ∨ NodeReply js w calls prep reply) := by
    intro calls put hput
    obtain ⟨prep, reply, heq, hprep, hreply⟩ := hst.puts put hput
    exact ⟨prep, reply, heq, hprep, hreply.choose_spec.choose_spec.2.2, .inl hreply⟩
  simp only [hres, ← hforward]
  split
  · exact ⟨hfetches, hserved, hputs []⟩
  split
  · exact doTunnelBatchForward_sourced js w req.ops _
  obtain ⟨call, hcall⟩ : ∃ call,
      call = NodeCall.ops (forward.map fun f => (f.i, f.op)) (req.zc - req.zc % 2) := ⟨_, rfl⟩
  rw [← hcall]
  split
  · exact ⟨hfetches, hserved, hputs [call]⟩
  rename_i body hbody
  split
  · exact ⟨hfetches, hserved, hputs [call]⟩
  refine ⟨hfetches, hserved, fun put hput => ?_⟩
  rcases List.mem_append.mp hput with hput | hput
  · exact hputs [call] put hput
  · obtain ⟨f, res, prep, reply, hmem, hprep, hpacket, hmatch, rfl⟩ :=
      mem_edgeDnsCacheForwardedReplies hput
    obtain ⟨hcand, hquery⟩ := isQuery_of_forward hres (hforward ▸ (List.of_mem_zip hmem).1) hprep
    refine ⟨prep, reply, rfl, hquery, hmatch, .inr ⟨call, List.mem_singleton_self _, body, hbody,
      ((f.i, f.op), res), ?_, hcand, hpacket⟩⟩
    rw [hcall]
    show ((f.i, f.op), res) ∈ (forward.map fun f => (f.i, f.op)).zip (resultsOf body)
    rw [List.zip_map_left]
    exact List.mem_map.mpr ⟨(f, res), hmem, rfl⟩

/-! ## Every run -/

/-- A value in the cache was there before, or was put. -/
theorem landPuts_eq_some {lands : Nat → Bool} {puts : List Put} {cache : String → Option Stored}
    {key : String} {stored : Stored} (h : landPuts lands puts cache key = some stored) :
    cache key = some stored ∨
      ∃ put ∈ puts, put.prep.key = key ∧ stored = ⟨put.value, put.prep.bytes⟩ := by
  have hfst : ∀ p ∈ puts.zipIdx, p.1 ∈ puts := fun p hp => List.fst_mem_of_mem_zipIdx hp
  unfold landPuts at h
  revert hfst h
  induction puts.zipIdx generalizing cache with
  | nil => exact fun h _ => .inl h
  | cons p ps ih =>
      intro h hfst
      rcases ih h fun q hq => hfst q (List.mem_cons_of_mem p hq) with hold | hput
      · replace hold : (if lands p.2 then Function.update cache p.1.prep.key
            (some ⟨p.1.value, p.1.prep.bytes⟩) else cache) key = some stored := hold
        split at hold
        · rcases eq_or_ne key p.1.prep.key with rfl | hne
          · rw [Function.update_self, Option.some.injEq] at hold
            exact .inr ⟨p.1, hfst p List.mem_cons_self, rfl, hold.symm⟩
          · rw [Function.update_of_ne hne] at hold
            exact .inl hold
        · exact .inl hold
      · exact .inr hput

/-- A cached value is a reply that was received for a query with the same question. -/
def Echoed (received : List Exchange) (stored : Stored) : Prop :=
  ∃ reply, ⟨stored.query, reply⟩ ∈ received ∧ stored.value = base64Encode reply ∧
    questionSection reply = questionSection stored.query

/-- The invariant of runs. -/
structure DnsState.Inv (s : DnsState) : Prop where
  cache : ∀ key stored, s.cache key = some stored → Echoed s.received stored
  right : s.Right

theorem RightAnswer.mono {received received' : List Exchange} {query packet : List UInt8}
    (hsub : received ⊆ received') (h : RightAnswer received query packet) :
    RightAnswer received' query packet := by
  obtain ⟨e, he, hrest⟩ := h.received
  exact ⟨h.txid, h.question, e, hsub he, hrest⟩

section

variable {js : Runtime} {s t : DnsState} {b : Batch}

/-- A reply with the question of the query. -/
theorem rightAnswer_of_reply {ops : List Json} {received : List Exchange} {prep : Prep}
    {e : Exchange} (hquery : IsQuery js ops prep) (he : e ∈ received)
    (hlength : 12 ≤ e.reply.length)
    (hreply : questionSection e.reply = questionSection prep.bytes)
    (hsame : questionSection e.query = questionSection prep.bytes) :
    RightAnswer received prep.bytes (dnsRewriteTxid e.reply prep.q.txid) := by
  obtain ⟨hle, htxid, s, hs⟩ := hquery.question
  rw [htxid]
  refine ⟨take_dnsRewriteTxid hle _, ⟨s, ?_, hs⟩, e, he, rfl, sameQuestion_of_section ?_ hs⟩
  · rw [questionSection_dnsRewriteTxid hlength, hreply, hs]
  · rw [hsame, hs]

/-- The replies to the fetches of a batch. -/
theorem FetchedFor.echoes (hDistinct : s.Distinct js b) {fetched : List DohCall}
    (hfetches : fetched.length ≤ edgeDnsMaxDohFetchesPerBatch) {prep : Prep} {reply : List UInt8}
    (hquery : IsQuery js b.req.ops prep) (h : FetchedFor (s.outside b) fetched prep reply) :
    12 ≤ reply.length ∧ questionSection reply = questionSection prep.bytes := by
  obtain ⟨n, resolver, hn, hdoh, hmatch⟩ := h
  refine ⟨length_of_edgeDnsReplyMatchesPrep hmatch,
    hDistinct.dohEchoes n ?_ prep reply hquery hdoh hmatch⟩
  exact Nat.lt_of_lt_of_le (List.getElem?_eq_some_iff.mp hn).1 hfetches

/-- What a batch finds in the cache. -/
theorem lookupCache_eq_some {cands : List Candidate} {map : String → Option String}
    (hmap : lookupCache (s.outside b) cands = some map) {key value : String}
    (hfound : map key = some value) :
    ∃ visible, b.visible = some visible ∧ visible key = true ∧
      ∃ stored, s.cache key = some stored ∧ stored.value = value := by
  unfold lookupCache at hmap
  obtain ⟨-, hmap⟩ := Option.ite_none_left_eq_some.mp hmap
  obtain ⟨visible, hvisible, rfl⟩ := Option.map_eq_some_iff.mp hmap
  obtain ⟨hshown, hfound⟩ := Option.ite_none_right_eq_some.mp hfound
  exact ⟨visible, hvisible, hshown, Option.map_eq_some_iff.mp hfound⟩

/-- An answer of a batch. -/
theorem AnswerTo.right (hdecode : ∀ bytes, js.base64Decode (.str (base64Encode bytes)) = .ok bytes)
    (hInv : s.Inv) (hDistinct : s.Distinct js b) {out : Outcome}
    (hfetches : out.fetched.length ≤ edgeDnsMaxDohFetchesPerBatch) {prep : Prep} {synth : Synth}
    (hquery : IsQuery js b.req.ops prep)
    (h : AnswerTo js (s.outside b) b.req.ops out.fetched prep synth) :
    RightAnswer (s.received ++ out.exchanges js (s.outside b)) prep.bytes synth.packet := by
  have hdoh : ∀ {prep : Prep} {reply : List UInt8},
      FetchedFor (s.outside b) out.fetched prep reply →
      ⟨prep.bytes, reply⟩ ∈ s.received ++ out.exchanges js (s.outside b) := fun hreply =>
    List.mem_append_right _ (List.mem_append_left _ hreply.mem_dohExchanges)
  cases h with
  | fetched hreply =>
      obtain ⟨hlength, hsection⟩ := hreply.echoes hDistinct hfetches hquery
      exact rightAnswer_of_reply hquery (hdoh hreply) hlength hsection rfl
  | @cached value hit hheld hreads =>
      obtain ⟨hvalue, hlength⟩ := cachedReply_eq_some hreads
      rcases hheld with ⟨map, hmap, hfound⟩ | ⟨prep', reply, hquery', hkey, hreply, rfl⟩
      · obtain ⟨visible, hvisible, hshown, stored, hstored, rfl⟩ := lookupCache_eq_some hmap hfound
        obtain ⟨reply, hmem, heq, hsection⟩ := hInv.cache _ _ hstored
        rw [heq, hdecode] at hvalue
        cases hvalue
        have hsame := hDistinct.cacheAlike visible hvisible prep hquery hshown stored hstored
        exact rightAnswer_of_reply hquery (List.mem_append_left _ hmem) hlength
          (hsection.trans hsame) hsame
      · rw [hdecode] at hvalue
        cases hvalue
        have hsame := hDistinct.batchAlike prep' prep hquery' hquery hkey
        obtain ⟨-, hsection⟩ := hreply.echoes hDistinct hfetches hquery'
        exact rightAnswer_of_reply hquery (hdoh hreply) hlength (hsection.trans hsame) hsame

/-- **One batch.** -/
theorem DnsState.step_inv
    (hdecode : ∀ bytes, js.base64Decode (.str (base64Encode bytes)) = .ok bytes)
    (hInv : s.Inv) (hDistinct : s.Distinct js b) (hs : s.step js b = some t) : t.Inv := by
  cases hs
  have hsourced := doTunnelBatch_sourced js (s.outside b) b.req
  refine ⟨fun key stored hstored => ?_, fun p hp => ?_⟩
  · rcases landPuts_eq_some hstored with hold | ⟨put, hput, -, rfl⟩
    · obtain ⟨reply, hmem, hrest⟩ := hInv.cache key stored hold
      exact ⟨reply, List.mem_append_left _ hmem, hrest⟩
    · obtain ⟨prep, reply, rfl, hquery, hmatch, hreply⟩ := hsourced.puts put hput
      rcases hreply with hreply | hreply
      · exact ⟨reply, List.mem_append_right _ (List.mem_append_left _ hreply.mem_dohExchanges), rfl,
          (hreply.echoes hDistinct hsourced.fetches hquery).2⟩
      · refine ⟨reply, List.mem_append_right _ (List.mem_append_right _ hreply.mem_exchanges), rfl,
          ?_⟩
        obtain ⟨call, -, body, hbody, p, hp, hcand, hpacket⟩ := hreply
        exact hDistinct.nodeEchoes call body hbody p hp prep reply hcand hpacket hmatch
  · rcases List.mem_append.mp hp with hold | hnew
    · exact (hInv.right p hold).mono (List.subset_append_left _ _)
    · obtain ⟨⟨c, synth⟩, hmem, rfl⟩ := List.mem_map.mp hnew
      obtain ⟨hquery, hanswer⟩ := hsourced.served _ hmem
      exact hanswer.right hdecode hInv hDistinct hsourced.fetches hquery

end

theorem DnsState.empty_inv : DnsState.empty.Inv := ⟨nofun, fun _ h => (nomatch h)⟩

/-- **Edge DNS answers the question that was asked** in every run of batches in which queries with
one key have one question and a reply that is taken has the question of its query. -/
theorem DnsState.run_right (js : Runtime)
    (hdecode : ∀ bytes, js.base64Decode (.str (base64Encode bytes)) = .ok bytes)
    (batches : List Batch)
    (hall : StepRun.AllSteps (DnsState.step js) (DnsState.Distinct js) .empty batches) :
    StepRun.AllStates (DnsState.step js) DnsState.Right .empty batches :=
  StepRun.allStates_of_allSteps (I := DnsState.Inv)
    (fun _ _ _ hInv hDistinct hs => step_inv hdecode hInv hDistinct hs)
    (fun _ hInv => hInv.right) empty_inv hall

/-! ## Runs on one name -/

/-- A reply to `addressQuery`, without records. -/
def addressReply (txid : UInt8) : List UInt8 :=
  [txid, txid, 0x81, 0x80, 0, 1, 0, 0, 0, 0, 0, 0, 1, 0x61, 0, 0, 1, 0, 1]

/-- The same name and type as in `addressQuery`, of class CH. -/
def chaosQuery (txid : UInt8) : List UInt8 :=
  [txid, txid, 1, 0, 0, 1, 0, 0, 0, 0, 0, 0, 1, 0x61, 0, 0, 1, 0, 3]

/-- A batch of one query, with a DoH fetch of this outcome. -/
def dnsBatch (query : List UInt8) (outcome : FetchResult) : Batch where
  req := ⟨none, 0, [dnsOp query]⟩
  visible := some fun _ => true
  doh _ := outcome
  node := nodeOf fun _ => .null
  lands _ := true

theorem dnsBatch_distinct {js : Runtime} {s : DnsState} {query : List UInt8} {outcome : FetchResult}
    (prep : Prep) (hprep : candidateOf js (dnsOp query) = some prep)
    (hdoh : ∀ reply ∈ edgeDnsDoh outcome, questionSection reply = questionSection prep.bytes)
    (hcache : ∀ stored ∈ s.cache prep.key,
      questionSection stored.query = questionSection prep.bytes) :
    s.Distinct js (dnsBatch query outcome) := by
  have hone : ∀ {prep'}, IsQuery js (dnsBatch query outcome).req.ops prep' → prep' = prep := by
    rintro prep' ⟨op, hop, hcand⟩
    rw [List.mem_singleton.mp hop, hprep] at hcand
    exact (Option.some.inj hcand).symm
  refine ⟨?_, ?_, ?_, ?_⟩
  · intro n _ prep' reply hquery hreply _
    rw [hone hquery]
    exact hdoh reply hreply
  · intro call body hbody p hp prep' reply _ hpacket
    have hnull : p.2 = .null := by
      cases call with
      | ops sent zc =>
          cases hbody
          obtain ⟨_, -, heq⟩ := List.mem_map.mp (List.of_mem_zip hp).2
          exact heq.symm
      | zops zops zc => cases hbody
    rw [hnull] at hpacket
    cases hpacket
  · intro visible _ prep' hquery _ stored hstored
    rw [hone hquery] at hstored ⊢
    exact hcache stored hstored
  · intro prep' prep'' hquery hquery' _
    rw [hone hquery, hone hquery']

/-- The address of `a` is fetched, and then answered from the cache. -/
theorem run_right_twice :
    StepRun.AllSteps (DnsState.step .ascii) (DnsState.Distinct .ascii) .empty
      [dnsBatch (addressQuery 7) (some (200, addressReply 7)), dnsBatch (addressQuery 9) none] ∧
    StepRun.AllStates (DnsState.step .ascii) DnsState.Right .empty
      [dnsBatch (addressQuery 7) (some (200, addressReply 7)), dnsBatch (addressQuery 9) none] := by
  have hall : StepRun.AllSteps (DnsState.step .ascii) (DnsState.Distinct .ascii) .empty
      [dnsBatch (addressQuery 7) (some (200, addressReply 7)), dnsBatch (addressQuery 9) none] := by
    refine (StepRun.allSteps_cons_of_some rfl).mpr ⟨?_, (StepRun.allSteps_cons_of_some rfl).mpr
      ⟨?_, trivial⟩⟩
    · exact dnsBatch_distinct ⟨addressQuery 7, ⟨0x0707, "a", 1⟩, "edns:1:a"⟩ (by decide +kernel)
        (by decide +kernel) (by decide +kernel)
    · exact dnsBatch_distinct ⟨addressQuery 9, ⟨0x0909, "a", 1⟩, "edns:1:a"⟩ (by decide +kernel)
        (by decide +kernel) (by decide +kernel)
  exact ⟨hall, DnsState.run_right .ascii ascii_base64Decode _ hall⟩

/-- A query of class CH is answered with the reply to one of class IN. -/
theorem dns_other_class : ∃ t, StepRun.run (DnsState.step .ascii) .empty
    [dnsBatch (addressQuery 7) (some (200, addressReply 7)), dnsBatch (chaosQuery 9) none] =
      some t ∧
    (chaosQuery 9, addressReply 9) ∈ t.given ∧ ¬ t.Right := by
  have hgiven : (StepRun.run (DnsState.step .ascii) .empty
      [dnsBatch (addressQuery 7) (some (200, addressReply 7)), dnsBatch (chaosQuery 9) none]).map
        DnsState.given
      = some [(addressQuery 7, addressReply 7), (chaosQuery 9, addressReply 9)] := by decide +kernel
  obtain ⟨t, ht, hgiven⟩ := Option.map_eq_some_iff.mp hgiven
  have hmem : (chaosQuery 9, addressReply 9) ∈ t.given := by
    rw [hgiven]
    exact List.mem_cons_of_mem _ List.mem_cons_self
  refine ⟨t, ht, hmem, fun hright => ?_⟩
  obtain ⟨s, hpacket, hquery⟩ := (hright _ hmem).question
  rw [← hquery] at hpacket
  exact absurd hpacket (by decide +kernel)

end Rahgozar.AppsScript
