import Rahgozar.AppsScript.EdgeDns

set_option autoImplicit false

/-! # Tunnel batches (`_doTunnelBatch` of `assets/apps_script/CodeFull.gs`)

The ops of a batch go to the tunnel-node in one call; DNS queries among them are answered here where
that is possible. The model marks each op that is sent with its place in the batch, which the node
does not see: it answers what it is sent, position by position.
-/

namespace Rahgozar.AppsScript

/-! ## Model -/

/-- `v === s` -/
def isStr (v : Option Json) (s : String) : Bool :=
  match v with
  | some (.str t) => t == s
  | _ => false

/-- `v === n` -/
def isNum (v : Option Json) (n : Nat) : Bool :=
  match v with
  | some (.num m) => m == n
  | _ => false

/-- The query of an op that may be answered here. -/
def candidateOf (js : Runtime) (op : Json) : Option Prep :=
  if isStr (op.get "op") "udp_open" && isNum (op.get "port") 53 then
    (op.getTruthy "d").bind (edgeDnsPrepare js)
  else none

/-- A DNS candidate. -/
structure Candidate where
  i : Nat
  op : Json
  prep : Prep

/-- An op that is sent on, with its query if it is a DNS candidate. -/
structure Forward where
  i : Nat
  op : Json
  prep : Option Prep

/-- A call of the tunnel-node; `zc` is 0 when it is absent. -/
inductive NodeCall where
  | ops (ops : List (Nat × Json)) (zc : Nat)
  | zops (zops : Json) (zc : Nat)

/-- Its response: the status, and what the text parses to. -/
structure NodeResponse where
  code : Nat
  body : Option Json

/-- What the script meets outside: the cache (`none` when `CacheService` throws), the DoH fetches of
the batch in their order, and the tunnel-node, a fetch from which can throw. -/
structure Outside where
  getAll : List String → Option (String → Option String)
  doh : Nat → FetchResult
  node : NodeCall → Except String NodeResponse

inductive Reply where
  | error (e : String)
  /-- `_json({ r: results })`, with the `zc` of the node. -/
  | results (r : List (Option Json)) (zc : Option Json)
  /-- The text of the node's response. -/
  | text (body : Option Json)

structure TunnelRequest where
  zops : Option Json
  zc : Nat
  ops : List Json

/-- The reply, the calls that were made for it, and the answers that were found here. -/
structure Outcome where
  reply : Reply
  calls : List NodeCall
  fetched : List DohCall
  puts : List Put
  served : List (Candidate × Synth)

section

variable (js : Runtime) (w : Outside)

/-- Pass 1: the ops that are not DNS. -/
def plainOps (ops : List Json) : List Forward :=
  ops.zipIdx.filterMap fun (op, i) =>
    match candidateOf js op with
    | none => some ⟨i, op, none⟩
    | some _ => none

/-- Pass 1: the DNS candidates. -/
def candidates (ops : List Json) : List Candidate :=
  ops.zipIdx.filterMap fun (op, i) => (candidateOf js op).map fun prep => ⟨i, op, prep⟩

/-- Pass 2: the candidates that are answered, those that are not, and what is left of the budget. -/
def resolveAll (cache : Bool) :
    List Candidate → Resolving → List (Candidate × Synth) × List Candidate × Resolving
  | [], st => ([], [], st)
  | cand :: cands, st =>
      match edgeDnsResolve js cache w.doh cand.prep st with
      | (some synth, st) =>
          let (served, missed, st) := resolveAll cache cands st
          ((cand, synth) :: served, missed, st)
      | (none, st) =>
          let (served, missed, st) := resolveAll cache cands st
          (served, cand :: missed, st)

/-- The assignments `all[i] = v`, in this order. -/
def assignAll {α : Type} (all : List (Option α)) (assignments : List (Nat × α)) : List (Option α) :=
  assignments.foldl (fun all (i, v) => all.set i (some v)) all

def spliceTunnelResults (forwardIdx : List Nat) (forwardedResults : List Json)
    (allResults : List (Option Json)) : List (Option Json) :=
  assignAll allResults (forwardIdx.zip forwardedResults)

/-- `pkts[0]` of a result with packets. -/
def firstPacket (res : Json) : Option Json :=
  match res.getTruthy "pkts" with
  | some (.arr (pkt :: _)) => some pkt
  | _ => none

def edgeDnsStoreReply (prep : Prep) (reply : Json) : Option Put :=
  match js.base64Decode reply with
  | .error _ => none
  | .ok reply => if edgeDnsReplyMatchesPrep prep reply then some (Put.of prep reply) else none

def edgeDnsCacheForwardedReplies (cache : Bool) (forward : List Forward) (r : List Json) :
    List Put :=
  if cache then
    (forward.zip r).filterMap fun (f, res) =>
      f.prep.bind fun prep => (firstPacket res).bind (edgeDnsStoreReply js prep)
  else []

/-- The response is passed through unchanged. -/
def doTunnelBatchForward (call : NodeCall) : Outcome :=
  let reply : Reply :=
    match w.node call with
    | .error e => .error e
    | .ok resp =>
        if resp.code ≠ 200 then .error ("tunnel batch HTTP " ++ toString resp.code)
        else .text resp.body
  ⟨reply, [call], [], [], []⟩

/-- `parsed.r`, an array. -/
def resultsOf (body : Json) : List Json :=
  match body.get "r" with
  | some (.arr r) => r
  | _ => []

def doTunnelBatchFetch (call : NodeCall) : Except String Json :=
  match w.node call with
  | .error e => .error e
  | .ok resp =>
      if resp.code ≠ 200 then .error ("tunnel batch HTTP " ++ toString resp.code)
      else
        match resp.body with
        | none => .error "tunnel batch parse error"
        | some body => .ok body

/-- The keys that are looked up. -/
def cacheKeys (cands : List Candidate) : List String := (cands.map fun c => c.prep.key).eraseDups

/-- `cacheMap`, or `none` when there is no cache. -/
def lookupCache (cands : List Candidate) : Option (String → Option String) :=
  if cands.isEmpty then none else w.getAll (cacheKeys cands)

/-- Pass 2 begins with what the cache returned. -/
def resolveBatch (cands : List Candidate) :
    List (Candidate × Synth) × List Candidate × Resolving :=
  resolveAll js w (lookupCache w cands).isSome cands
    ⟨(lookupCache w cands).getD fun _ => none, edgeDnsMaxDohFetchesPerBatch, [], []⟩

/-- `forwardOps`, `forwardIdx` and `forwardPrep`: the missed candidates come last. -/
def forwardAll (plain : List Forward) (missed : List Candidate) : List Forward :=
  plain ++ missed.map fun c => ⟨c.i, c.op, some c.prep⟩

def doTunnelBatch (req : TunnelRequest) : Outcome :=
  match req.zops with
  | some zops => doTunnelBatchForward w (.zops zops req.zc)
  | none =>
      let ops := req.ops
      let cands := candidates js ops
      let (served, missed, st) := resolveBatch js w cands
      let forward := forwardAll (plainOps js ops) missed
      let results := assignAll (List.replicate ops.length none)
        (served.map fun (c, synth) => (c.i, synth.toJson))
      if forward.length = 0 then ⟨.results results none, [], st.fetched, st.puts, served⟩
      else if forward.length = ops.length ∧ cands.length = 0 then
        doTunnelBatchForward w (.ops (ops.zipIdx.map Prod.swap) req.zc)
      else
        -- bit 0 of `zc` asks for a compressed response
        let call := NodeCall.ops (forward.map fun f => (f.i, f.op)) (req.zc - req.zc % 2)
        match doTunnelBatchFetch w call with
        | .error e => ⟨.error e, [call], st.fetched, st.puts, served⟩
        | .ok body =>
            let r := resultsOf body
            if r.length ≠ forward.length then
              ⟨.error "tunnel batch length mismatch", [call], st.fetched, st.puts, served⟩
            else
              let puts := st.puts ++
                edgeDnsCacheForwardedReplies js (lookupCache w cands).isSome forward r
              let reply : Reply :=
                if forward.length = ops.length then .text (some body)
                else
                  .results (spliceTunnelResults (forward.map Forward.i) r results)
                    (body.getTruthy "zc")
              ⟨reply, [call], st.fetched, puts, served⟩

end

/-- The `r` that the client reads. -/
def Reply.entries : Reply → Option (List Json)
  | .error _ => none
  | .results r _ => some (r.map fun v => v.getD .null)
  | .text body => body.map resultsOf

/-- The ops that a call sends. -/
def NodeCall.sent : NodeCall → List (Nat × Json)
  | .ops sent _ => sent
  | .zops _ _ => []

/-- The node answers what it is sent position by position: `answer i` is its answer to op `i`. -/
def AnswersInOrder (node : NodeCall → Except String NodeResponse) (answer : Nat → Json) : Prop :=
  ∀ sent zc, ∃ body, node (.ops sent zc) = .ok ⟨200, some body⟩ ∧
    body.get "r" = some (.arr (sent.map fun p => answer p.1))

section

variable (js : Runtime) (w : Outside) (ops : List Json)

/-- A query of the batch. -/
def IsQuery (prep : Prep) : Prop := ∃ op ∈ ops, candidateOf js op = some prep

/-- The reply of a DoH fetch for the query `prep` that matches it. -/
def FetchedFor (fetched : List DohCall) (prep : Prep) (reply : List UInt8) : Prop :=
  ∃ n resolver, fetched[n]? = some ⟨resolver, prep.bytes⟩ ∧ edgeDnsDoh (w.doh n) = some reply ∧
    edgeDnsReplyMatchesPrep prep reply = true

/-- A value that the cache has under a key, or that a DoH fetch for a query of the batch brought. -/
def Held (fetched : List DohCall) (key value : String) : Prop :=
  (∃ map, lookupCache w (candidates js ops) = some map ∧ map key = some value) ∨
    ∃ prep reply, IsQuery js ops prep ∧ prep.key = key ∧ FetchedFor w fetched prep reply ∧
      value = base64Encode reply

/-- A synthesized answer to this query. -/
inductive AnswerTo (fetched : List DohCall) (prep : Prep) : Synth → Prop where
  | cached {value : String} {hit : List UInt8} (held : Held js w ops fetched prep.key value)
      (reads : cachedReply js value = some hit) :
      AnswerTo fetched prep ⟨"edns-cache", dnsRewriteTxid hit prep.q.txid⟩
  | fetched {reply : List UInt8} (received : FetchedFor w fetched prep reply) :
      AnswerTo fetched prep ⟨"edns-doh", dnsRewriteTxid reply prep.q.txid⟩

/-- Entry `i` is an answer to op `i`: that of the node if the op is sent, else one to its query. -/
def OwnEntry (answer : Nat → Json) (fetched : List DohCall) (sent : List (Nat × Json))
    (r : List Json) (i : Nat) (op : Json) : Prop :=
  (i ∈ sent.map Prod.fst ∧ r[i]? = some (answer i)) ∨
    (i ∉ sent.map Prod.fst ∧ ∃ prep synth, candidateOf js op = some prep ∧
      AnswerTo js w ops fetched prep synth ∧ r[i]? = some synth.toJson)

/-- Every op has one answer, its own, and is sent at most once. -/
structure Transparent (answer : Nat → Json) (out : Outcome) : Prop where
  calls : out.calls.length ≤ 1
  fetches : out.fetched.length ≤ edgeDnsMaxDohFetchesPerBatch
  sentOnce : ((out.calls.flatMap NodeCall.sent).map Prod.fst).Nodup
  sentOwn : ∀ p ∈ out.calls.flatMap NodeCall.sent, ops[p.1]? = some p.2
  entries : ∃ r, out.reply.entries = some r ∧ r.length = ops.length ∧
    ∀ i op, ops[i]? = some op →
      OwnEntry js w ops answer out.fetched (out.calls.flatMap NodeCall.sent) r i op

/-- The cache has a reply to this query. -/
def Cached (prep : Prep) : Prop :=
  ((lookupCache w (candidates js ops)).getD (fun _ => none) prep.key).bind (cachedReply js) ≠ none

/-- The one DoH fetch brings a reply to this query. -/
def Fetched (prep : Prep) : Prop :=
  ∃ reply, edgeDnsDoh (w.doh 0) = some reply ∧ edgeDnsReplyMatchesPrep prep reply = true

/-- No query is answered here, and one stands before an op that is not a query. -/
structure Displaced : Prop where
  uncached : ∀ c ∈ candidates js ops, ¬ Cached js w ops c.prep
  unfetched : ∀ c ∈ (candidates js ops).head?, ¬ Fetched w c.prep
  ahead : ∃ (i j : Nat) (op op' : Json) (prep : Prep), i < j ∧ ops[i]? = some op ∧
    ops[j]? = some op' ∧ candidateOf js op = some prep ∧ candidateOf js op' = none

end

/-! ## Pass 1 -/

section

variable {js : Runtime} {w : Outside} {ops : List Json}

theorem mem_plainOps {f : Forward} :
    f ∈ plainOps js ops ↔ ops[f.i]? = some f.op ∧ candidateOf js f.op = none ∧ f.prep = none := by
  unfold plainOps
  rw [List.mem_filterMap]
  constructor
  · rintro ⟨⟨op, i⟩, hmem, hf⟩
    rw [List.mk_mem_zipIdx_iff_getElem?] at hmem
    cases hcand : candidateOf js op with
    | none =>
        simp only [hcand, Option.some.injEq] at hf
        subst hf
        exact ⟨hmem, hcand, rfl⟩
    | some prep =>
        simp only [hcand] at hf
        cases hf
  · rintro ⟨hmem, hcand, hprep⟩
    refine ⟨(f.op, f.i), List.mk_mem_zipIdx_iff_getElem?.mpr hmem, ?_⟩
    cases f
    cases hprep
    simp only [hcand]

theorem mem_candidates {c : Candidate} :
    c ∈ candidates js ops ↔ ops[c.i]? = some c.op ∧ candidateOf js c.op = some c.prep := by
  unfold candidates
  rw [List.mem_filterMap]
  constructor
  · rintro ⟨⟨op, i⟩, hmem, hc⟩
    rw [List.mk_mem_zipIdx_iff_getElem?] at hmem
    obtain ⟨prep, hprep, rfl⟩ := Option.map_eq_some_iff.mp hc
    exact ⟨hmem, hprep⟩
  · rintro ⟨hmem, hcand⟩
    exact ⟨(c.op, c.i), List.mk_mem_zipIdx_iff_getElem?.mpr hmem,
      by simp only [hcand, Option.map_some]⟩

theorem isQuery_of_mem_candidates {c : Candidate} (hc : c ∈ candidates js ops) :
    IsQuery js ops c.prep :=
  ⟨c.op, List.mem_of_getElem? (mem_candidates.mp hc).1, (mem_candidates.mp hc).2⟩

theorem pairwise_snd_zipIdx {α : Type} (l : List α) (k : Nat) :
    (l.zipIdx k).Pairwise fun p q => p.2 < q.2 := by
  rw [← List.pairwise_map, List.zipIdx_map_snd]
  exact List.pairwise_lt_range'

theorem pairwise_plainOps : (plainOps js ops).Pairwise fun f g => f.i < g.i := by
  refine List.Pairwise.filterMap _ ?_ (pairwise_snd_zipIdx ops 0)
  rintro ⟨op, i⟩ ⟨op', j⟩ hlt f hf g hg
  cases hcand : candidateOf js op with
  | some prep => simp [hcand] at hf
  | none =>
      cases hcand' : candidateOf js op' with
      | some prep => simp [hcand'] at hg
      | none =>
          simp only [hcand, Option.some.injEq] at hf
          simp only [hcand', Option.some.injEq] at hg
          subst hf hg
          exact hlt

theorem pairwise_candidates : (candidates js ops).Pairwise fun c d => c.i < d.i := by
  refine List.Pairwise.filterMap _ ?_ (pairwise_snd_zipIdx ops 0)
  rintro ⟨op, i⟩ ⟨op', j⟩ hlt c hc d hd
  obtain ⟨prep, -, rfl⟩ := Option.map_eq_some_iff.mp hc
  obtain ⟨prep', -, rfl⟩ := Option.map_eq_some_iff.mp hd
  exact hlt

/-- Pass 1 puts every op on one side. -/
theorem split_perm : ((plainOps js ops).map Forward.i ++ (candidates js ops).map Candidate.i).Perm
    (List.range ops.length) := by
  have hplain : ((plainOps js ops).map Forward.i).Nodup :=
    (List.pairwise_map.mpr pairwise_plainOps).imp Nat.ne_of_lt
  have hcands : ((candidates js ops).map Candidate.i).Nodup :=
    (List.pairwise_map.mpr pairwise_candidates).imp Nat.ne_of_lt
  have hdisjoint : ((plainOps js ops).map Forward.i).Disjoint
      ((candidates js ops).map Candidate.i) := by
    intro i hi hi'
    obtain ⟨f, hf, rfl⟩ := List.mem_map.mp hi
    obtain ⟨c, hc, hci⟩ := List.mem_map.mp hi'
    obtain ⟨hop, hnone, -⟩ := mem_plainOps.mp hf
    obtain ⟨hop', hsome⟩ := mem_candidates.mp hc
    rw [hci, hop, Option.some.injEq] at hop'
    rw [hop', hsome] at hnone
    cases hnone
  refine (List.perm_ext_iff_of_nodup (List.nodup_append'.mpr ⟨hplain, hcands, hdisjoint⟩)
    List.nodup_range).mpr fun i => ?_
  rw [List.mem_append, List.mem_range]
  constructor
  · rintro (hi | hi)
    · obtain ⟨f, hf, rfl⟩ := List.mem_map.mp hi
      exact (List.getElem?_eq_some_iff.mp (mem_plainOps.mp hf).1).1
    · obtain ⟨c, hc, rfl⟩ := List.mem_map.mp hi
      exact (List.getElem?_eq_some_iff.mp (mem_candidates.mp hc).1).1
  · intro hi
    have hop : ops[i]? = some ops[i] := List.getElem?_eq_getElem hi
    cases hcand : candidateOf js ops[i] with
    | none =>
        have hf : (⟨i, ops[i], none⟩ : Forward) ∈ plainOps js ops :=
          mem_plainOps.mpr ⟨hop, hcand, rfl⟩
        exact .inl (List.mem_map.mpr ⟨_, hf, rfl⟩)
    | some prep =>
        have hc : (⟨i, ops[i], prep⟩ : Candidate) ∈ candidates js ops :=
          mem_candidates.mpr ⟨hop, hcand⟩
        exact .inr (List.mem_map.mpr ⟨_, hc, rfl⟩)

/-! ## Pass 2 -/

variable {cache : Bool}

theorem resolveAll_cons (cand : Candidate) (cands : List Candidate) (st : Resolving) :
    resolveAll js w cache (cand :: cands) st =
      match edgeDnsResolve js cache w.doh cand.prep st with
      | (some synth, st) =>
          let (served, missed, st) := resolveAll js w cache cands st
          ((cand, synth) :: served, missed, st)
      | (none, st) =>
          let (served, missed, st) := resolveAll js w cache cands st
          (served, cand :: missed, st) :=
  rfl

/-- Every candidate is answered or missed. -/
theorem resolveAll_perm (cands : List Candidate) (st : Resolving) :
    ((resolveAll js w cache cands st).2.1 ++
      (resolveAll js w cache cands st).1.map Prod.fst).Perm cands := by
  induction cands generalizing st with
  | nil => exact .nil
  | cons c cands ih =>
      rw [resolveAll_cons]
      cases hres : edgeDnsResolve js cache w.doh c.prep st with
      | mk synth st' =>
          cases synth with
          | none => exact (ih st').cons c
          | some synth => exact List.perm_middle.trans ((ih st').cons c)

theorem resolveAll_sublist (cands : List Candidate) (st : Resolving) :
    (resolveAll js w cache cands st).2.1.Sublist cands := by
  induction cands generalizing st with
  | nil => exact List.Sublist.slnil
  | cons c cands ih =>
      rw [resolveAll_cons]
      cases hres : edgeDnsResolve js cache w.doh c.prep st with
      | mk synth st' =>
          cases synth with
          | none => exact (ih st').cons_cons c
          | some synth => exact (ih st').cons c

/-- Without a budget only the cache answers. -/
theorem resolveAll_eq_nil_of_remaining_eq_zero {st : Resolving} (h : st.remaining = 0)
    (cands : List Candidate) :
    (resolveAll js w cache cands st).1 = [] ↔
      ∀ c ∈ cands, (st.localMap c.prep.key).bind (cachedReply js) = none := by
  induction cands with
  | nil => exact ⟨fun _ _ hc => (nomatch hc), fun _ => rfl⟩
  | cons c cands ih =>
      rw [resolveAll_cons, edgeDnsResolve]
      rw [List.forall_mem_cons]
      cases hhit : (st.localMap c.prep.key).bind (cachedReply js) with
      | some hit => exact ⟨nofun, fun hnone => (nomatch hnone.1)⟩
      | none =>
          simp only [edgeDnsAsk_of_remaining_eq_zero h, true_and]
          exact ih

/-- When no candidate of a batch is answered. -/
theorem resolveBatch_eq_nil :
    (resolveBatch js w (candidates js ops)).1 = [] ↔
      (∀ c ∈ candidates js ops, ¬ Cached js w ops c.prep) ∧
        ∀ c ∈ (candidates js ops).head?, ¬ Fetched w c.prep := by
  unfold Cached Fetched resolveBatch
  simp only [not_not]
  generalize (lookupCache w (candidates js ops)).getD (fun _ => none) = cacheMap
  generalize (lookupCache w (candidates js ops)).isSome = cache
  cases candidates js ops with
  | nil => exact ⟨fun _ => ⟨fun _ h => (nomatch h), fun _ h => (nomatch h)⟩, fun _ => rfl⟩
  | cons c cands =>
      simp only [List.head?_cons, Option.mem_def, Option.some.injEq, forall_eq']
      rw [List.forall_mem_cons]
      rw [resolveAll_cons, edgeDnsResolve]
      cases hhit : (cacheMap c.prep.key).bind (cachedReply js) with
      | some hit => exact ⟨nofun, fun hnone => (nomatch hnone.1.1)⟩
      | none =>
          -- The first miss spends the budget; a reply that does not match changes nothing else.
          obtain ⟨st, hst⟩ : ∃ st : Resolving,
              st = ⟨cacheMap, edgeDnsMaxDohFetchesPerBatch, [], []⟩ := ⟨_, rfl⟩
          rw [← hst]
          obtain ⟨hnone, hspent⟩ :
              ((edgeDnsAsk cache w.doh c.prep edgeDnsResolvers st).1 = none ↔ _) ∧ _ :=
            edgeDnsAsk_once (by rw [hst]; rfl)
          cases hask : edgeDnsAsk cache w.doh c.prep edgeDnsResolvers st with
          | mk synth st' =>
              rw [hask] at hnone hspent
              cases synth with
              | some synth =>
                  have hfetched := mt hnone.mpr nofun
                  rw [hst] at hfetched
                  exact ⟨nofun, fun h => absurd h.2 hfetched⟩
              | none =>
                  have hmap : st'.localMap = cacheMap := by
                    have hsame := edgeDnsAsk_localMap_of_none (congrArg Prod.fst hask)
                    rw [hask] at hsame
                    rw [hsame, hst]
                  have hunfetched : ¬ ∃ reply, edgeDnsDoh (w.doh 0) = some reply ∧
                      edgeDnsReplyMatchesPrep c.prep reply = true := by
                    have h := hnone.mp rfl
                    rwa [hst] at h
                  rw [← hmap, and_iff_left hunfetched, and_iff_right rfl]
                  exact resolveAll_eq_nil_of_remaining_eq_zero hspent cands

theorem resolveAll_budget (cands : List Candidate) (st : Resolving) :
    (resolveAll js w cache cands st).2.2.fetched.length +
      (resolveAll js w cache cands st).2.2.remaining = st.fetched.length + st.remaining := by
  induction cands generalizing st with
  | nil => rfl
  | cons c cands ih =>
      have hone : (edgeDnsResolve js cache w.doh c.prep st).2.fetched.length + _ = _ :=
        edgeDnsResolve_budget st
      rw [resolveAll_cons]
      cases heq : edgeDnsResolve js cache w.doh c.prep st with
      | mk synth st' =>
          rw [heq] at hone
          cases synth with
          | none => exact (ih st').trans hone
          | some synth => exact (ih st').trans hone

/-- What pass 2 keeps: the in-batch map holds cached values and replies that were fetched, and what
is put into the cache was fetched. -/
structure Sourced (js : Runtime) (w : Outside) (ops : List Json) (st : Resolving) : Prop where
  localMap : ∀ key value, st.localMap key = some value → Held js w ops st.fetched key value
  puts : ∀ put ∈ st.puts, ∃ prep reply, put = Put.of prep reply ∧ IsQuery js ops prep ∧
    FetchedFor w st.fetched prep reply

theorem FetchedFor.mono {fetched fetched' : List DohCall} {prep : Prep} {reply : List UInt8}
    (hgrows : fetched <+: fetched') (h : FetchedFor w fetched prep reply) :
    FetchedFor w fetched' prep reply := by
  obtain ⟨n, resolver, hn, hrest⟩ := h
  obtain ⟨later, rfl⟩ := hgrows
  refine ⟨n, resolver, ?_, hrest⟩
  rwa [List.getElem?_append_left (List.getElem?_eq_some_iff.mp hn).1]

theorem Held.mono {fetched fetched' : List DohCall} {key value : String}
    (hgrows : fetched <+: fetched') (h : Held js w ops fetched key value) :
    Held js w ops fetched' key value := by
  rcases h with hcached | ⟨prep, reply, hquery, hkey, hreply, hvalue⟩
  · exact .inl hcached
  · exact .inr ⟨prep, reply, hquery, hkey, hreply.mono hgrows, hvalue⟩

theorem AnswerTo.mono {fetched fetched' : List DohCall} {prep : Prep} {synth : Synth}
    (hgrows : fetched <+: fetched') (h : AnswerTo js w ops fetched prep synth) :
    AnswerTo js w ops fetched' prep synth := by
  cases h with
  | cached hheld hreads => exact .cached (hheld.mono hgrows) hreads
  | fetched hreply => exact .fetched (hreply.mono hgrows)

/-- One candidate. -/
theorem Resolves.sourced {prep : Prep} {st st' : Resolving} {found : Option Synth}
    (h : Resolves js cache w.doh prep st found st') (hquery : IsQuery js ops prep)
    (hst : Sourced js w ops st) :
    st.fetched <+: st'.fetched ∧ Sourced js w ops st' ∧
      ∀ synth, found = some synth → AnswerTo js w ops st'.fetched prep synth := by
  cases h with
  | cached hvalue hreads =>
      refine ⟨List.prefix_rfl, hst, fun synth hsynth => ?_⟩
      cases hsynth
      exact .cached (hst.localMap _ _ hvalue) hreads
  | missed hgrows hmap hputs =>
      refine ⟨hgrows, ⟨fun key value hvalue => ?_, fun put hput => ?_⟩, nofun⟩
      · rw [hmap] at hvalue
        exact (hst.localMap key value hvalue).mono hgrows
      · rw [hputs] at hput
        obtain ⟨prep, reply, heq, hquery, hreply⟩ := hst.puts put hput
        exact ⟨prep, reply, heq, hquery, hreply.mono hgrows⟩
  | @fetched n resolver reply _ hgrows hn hdoh hmatch hmap hputs =>
      have hreply : FetchedFor w st'.fetched prep reply := ⟨n, resolver, hn, hdoh, hmatch⟩
      refine ⟨hgrows, ⟨fun key value hvalue => ?_, fun put hput => ?_⟩, fun synth hsynth => ?_⟩
      · rw [hmap] at hvalue
        rcases eq_or_ne key prep.key with rfl | hne
        · rw [Function.update_self, Option.some.injEq] at hvalue
          exact .inr ⟨prep, reply, hquery, rfl, hreply, hvalue.symm⟩
        · rw [Function.update_of_ne hne] at hvalue
          exact (hst.localMap key value hvalue).mono hgrows
      · have hcases : put ∈ st.puts ∨ put = Put.of prep reply := by
          rw [hputs] at hput
          split at hput
          · exact (List.mem_append.mp hput).imp_right List.mem_singleton.mp
          · exact .inl hput
        rcases hcases with hold | rfl
        · obtain ⟨prep, reply, heq, hquery, hreply⟩ := hst.puts put hold
          exact ⟨prep, reply, heq, hquery, hreply.mono hgrows⟩
        · exact ⟨prep, reply, rfl, hquery, hreply⟩
      · cases hsynth
        exact .fetched hreply

/-- **Pass 2** answers queries from what the cache and the fetches of the batch have brought. -/
theorem resolveAll_sourced {cands : List Candidate} (hcands : ∀ c ∈ cands, IsQuery js ops c.prep)
    {st : Resolving} (hst : Sourced js w ops st) :
    st.fetched <+: (resolveAll js w cache cands st).2.2.fetched ∧
      Sourced js w ops (resolveAll js w cache cands st).2.2 ∧
      ∀ p ∈ (resolveAll js w cache cands st).1,
        AnswerTo js w ops (resolveAll js w cache cands st).2.2.fetched p.1.prep p.2 := by
  induction cands generalizing st with
  | nil => exact ⟨List.prefix_rfl, hst, fun _ h => (nomatch h)⟩
  | cons c cands ih =>
      have hres : Resolves js cache w.doh c.prep st _ _ := edgeDnsResolve_resolves st
      obtain ⟨hgrows, hst', hanswer⟩ := hres.sourced (hcands c List.mem_cons_self) hst
      obtain ⟨hgrows', hst'', hrest⟩ := ih (fun d hd => hcands d (List.mem_cons_of_mem c hd)) hst'
      rw [resolveAll_cons]
      cases heq : edgeDnsResolve js cache w.doh c.prep st with
      | mk synth st' =>
          rw [heq] at hgrows hanswer hgrows' hst'' hrest
          cases synth with
          | none => exact ⟨hgrows.trans hgrows', hst'', hrest⟩
          | some synth =>
              refine ⟨hgrows.trans hgrows', hst'', fun p hp => ?_⟩
              rcases List.mem_cons.mp hp with rfl | hp
              · exact (hanswer synth rfl).mono hgrows'
              · exact hrest p hp

/-- What a batch answers and puts into the cache. -/
theorem resolveBatch_sourced :
    Sourced js w ops (resolveBatch js w (candidates js ops)).2.2 ∧
      ∀ p ∈ (resolveBatch js w (candidates js ops)).1,
        AnswerTo js w ops (resolveBatch js w (candidates js ops)).2.2.fetched p.1.prep p.2 := by
  refine (resolveAll_sourced (fun c hc => isQuery_of_mem_candidates hc)
    ⟨fun key value hvalue => ?_, fun put hput => absurd hput List.not_mem_nil⟩).2
  · cases hmap : lookupCache w (candidates js ops) with
    | none =>
        simp only [hmap] at hvalue
        cases hvalue
    | some map =>
        simp only [hmap] at hvalue
        exact .inl ⟨map, hmap, hvalue⟩

/-! ## The splice -/

section

variable {α : Type}

theorem length_assignAll (all : List (Option α)) (ps : List (Nat × α)) :
    (assignAll all ps).length = all.length := by
  unfold assignAll
  induction ps generalizing all with
  | nil => rfl
  | cons p ps ih => rw [List.foldl_cons, ih, List.length_set]

theorem getElem?_assignAll_of_notMem {all : List (Option α)} {ps : List (Nat × α)} {i : Nat}
    (h : i ∉ ps.map Prod.fst) : (assignAll all ps)[i]? = all[i]? := by
  unfold assignAll
  induction ps generalizing all with
  | nil => rfl
  | cons p ps ih =>
      rw [List.map_cons, List.mem_cons, not_or] at h
      rw [List.foldl_cons, ih h.2, List.getElem?_set_ne (Ne.symm h.1)]

theorem getElem?_assignAll_of_mem {all : List (Option α)} {ps : List (Nat × α)}
    (hnodup : (ps.map Prod.fst).Nodup) {i : Nat} {v : α} (hi : i < all.length) (h : (i, v) ∈ ps) :
    (assignAll all ps)[i]? = some (some v) := by
  induction ps generalizing all with
  | nil => cases h
  | cons p ps ih =>
      rw [List.map_cons, List.nodup_cons] at hnodup
      show (assignAll (all.set p.1 (some p.2)) ps)[i]? = _
      rcases List.mem_cons.mp h with rfl | h
      · rw [getElem?_assignAll_of_notMem hnodup.1, List.getElem?_set_self hi]
      · exact ih hnodup.2 (by rwa [List.length_set]) h

end

/-! ## What is sent -/

/-- The places of the ops that are sent. -/
theorem map_i_forwardAll (plain : List Forward) (missed : List Candidate) :
    (forwardAll plain missed).map Forward.i = plain.map Forward.i ++ missed.map Candidate.i := by
  unfold forwardAll
  rw [List.map_append, List.map_map]
  rfl

section

variable {served : List (Candidate × Synth)} {missed : List Candidate} {st : Resolving}
  {forward : List Forward} (hres : resolveBatch js w (candidates js ops) = (served, missed, st))
  (hforward : forward = forwardAll (plainOps js ops) missed)

include hres

theorem served_perm : (missed ++ served.map Prod.fst).Perm (candidates js ops) := by
  have h : (_ ++ (resolveBatch js w (candidates js ops)).1.map Prod.fst).Perm _ :=
    resolveAll_perm _ _
  rwa [← resolveBatch, hres] at h

include hforward

/-- Every op is sent or served. -/
theorem forward_perm : (forward.map Forward.i ++ served.map fun p => p.1.i).Perm
    (List.range ops.length) := by
  have hmap : served.map (fun p => p.1.i) = (served.map Prod.fst).map Candidate.i := by
    rw [List.map_map]
    rfl
  rw [hforward, map_i_forwardAll, List.append_assoc, hmap, ← List.map_append]
  exact (((served_perm hres).map _).append_left _).trans split_perm

theorem forward_op {f : Forward} (h : f ∈ forward) : ops[f.i]? = some f.op := by
  rw [hforward] at h
  rcases List.mem_append.mp h with hplain | hmissed
  · exact (mem_plainOps.mp hplain).1
  · obtain ⟨c, hc, rfl⟩ := List.mem_map.mp hmissed
    exact (mem_candidates.mp ((served_perm hres).subset (List.mem_append_left _ hc))).1

end

/-- The results with the answers of the node in their places. -/
theorem splice_entries (answer : Nat → Json) {sent : List Nat} {served : List (Candidate × Synth)}
    {n : Nat} (hperm : (sent ++ served.map fun p => p.1.i).Perm (List.range n)) {i : Nat}
    (hi : i < n) :
    (i ∈ sent ∧ (spliceTunnelResults sent (sent.map answer)
      (assignAll (List.replicate n none) (served.map fun p => (p.1.i, p.2.toJson))))[i]?
        = some (some (answer i))) ∨
    (i ∉ sent ∧ ∃ p ∈ served, p.1.i = i ∧ (spliceTunnelResults sent (sent.map answer)
      (assignAll (List.replicate n none) (served.map fun p => (p.1.i, p.2.toJson))))[i]?
        = some (some p.2.toJson)) := by
  have hnodup : (sent ++ served.map fun p => p.1.i).Nodup := hperm.nodup_iff.mpr List.nodup_range
  obtain ⟨hsent, hserved, -⟩ := List.nodup_append'.mp hnodup
  have hzip : sent.zip (sent.map answer) = sent.map fun i => (i, answer i) := by
    have h : (sent.map id).zip (sent.map answer) = sent.map fun i => (id i, answer i) :=
      List.zip_map'
    rwa [List.map_id] at h
  have hfst : (sent.map fun i => (i, answer i)).map Prod.fst = sent := by
    rw [List.map_map]
    exact List.map_id sent
  have hmem : i ∈ sent ++ served.map fun p => p.1.i := hperm.mem_iff.mpr (List.mem_range.mpr hi)
  unfold spliceTunnelResults
  rw [hzip]
  by_cases hin : i ∈ sent
  · refine .inl ⟨hin, getElem?_assignAll_of_mem (by rwa [hfst]) ?_ (List.mem_map.mpr ⟨i, hin, rfl⟩)⟩
    rwa [length_assignAll, List.length_replicate]
  · refine .inr ⟨hin, ?_⟩
    obtain ⟨p, hp, rfl⟩ := List.mem_map.mp ((List.mem_append.mp hmem).resolve_left hin)
    refine ⟨p, hp, rfl, ?_⟩
    rw [getElem?_assignAll_of_notMem (by rwa [hfst])]
    refine getElem?_assignAll_of_mem ?_ (by rwa [List.length_replicate])
      (List.mem_map.mpr ⟨p, hp, rfl⟩)
    rwa [List.map_map]

/-- A batch with a query and with ops to send. -/
theorem doTunnelBatch_of_fetch {answer : Nat → Json} (hnode : AnswersInOrder w.node answer)
    (zc : Nat) {served : List (Candidate × Synth)} {missed : List Candidate} {st : Resolving}
    (hres : resolveBatch js w (candidates js ops) = (served, missed, st)) {forward : List Forward}
    (hforward : forward = forwardAll (plainOps js ops) missed) (hsome : forward.length ≠ 0)
    (hcands : (candidates js ops).length ≠ 0) :
    ∃ body, resultsOf body = (forward.map Forward.i).map answer ∧
      doTunnelBatch js w ⟨none, zc, ops⟩ =
        ⟨if forward.length = ops.length then .text (some body)
          else .results (spliceTunnelResults (forward.map Forward.i)
            ((forward.map Forward.i).map answer) (assignAll (List.replicate ops.length none)
              (served.map fun p => (p.1.i, p.2.toJson)))) (body.getTruthy "zc"),
          [.ops (forward.map fun f => (f.i, f.op)) (zc - zc % 2)], st.fetched,
          st.puts ++ edgeDnsCacheForwardedReplies js (lookupCache w (candidates js ops)).isSome forward
            ((forward.map Forward.i).map answer), served⟩ := by
  obtain ⟨body, hcall, hr⟩ := hnode (forward.map fun f => (f.i, f.op)) (zc - zc % 2)
  have hresults : resultsOf body = (forward.map Forward.i).map answer := by
    unfold resultsOf
    rw [hr, List.map_map, List.map_map]
    rfl
  have hfetch : doTunnelBatchFetch w (.ops (forward.map fun f => (f.i, f.op)) (zc - zc % 2))
      = .ok body := by
    unfold doTunnelBatchFetch
    rw [hcall]
    rfl
  refine ⟨body, hresults, ?_⟩
  unfold doTunnelBatch
  simp only [hres, ← hforward, if_neg hsome, hcands, and_false, if_false, hfetch, hresults,
    List.length_map, ne_eq, not_true_eq_false]

/-- The ops that a fetch sends. -/
theorem sent_of_fetch (forward : List Forward) (zc : Nat) :
    ([NodeCall.ops (forward.map fun f => (f.i, f.op)) zc].flatMap NodeCall.sent).map Prod.fst
      = forward.map Forward.i := by
  rw [List.flatMap_singleton]
  show (forward.map fun f => (f.i, f.op)).map Prod.fst = _
  rw [List.map_map]
  rfl

/-- **The batch is out of order** when what is sent is returned as it is. -/
theorem not_transparent_of_displaced (hnode : AnswersInOrder w.node fun i => .num i) (zc : Nat)
    (h : Displaced js w ops) :
    ¬ Transparent js w ops (fun i => .num i) (doTunnelBatch js w ⟨none, zc, ops⟩) := by
  intro htrans
  have hnil := resolveBatch_eq_nil.mpr ⟨h.uncached, h.unfetched⟩
  obtain ⟨i, j, op, op', prep, hlt, hi, hj, hquery, hplain⟩ := h.ahead
  obtain ⟨served, missed, st, hres⟩ : ∃ served missed st,
      resolveBatch js w (candidates js ops) = (served, missed, st) := ⟨_, _, _, rfl⟩
  obtain ⟨forward, hforward⟩ : ∃ forward, forward = forwardAll (plainOps js ops) missed := ⟨_, rfl⟩
  rw [hres] at hnil
  cases hnil
  have hperm := forward_perm hres hforward
  rw [List.map_nil, List.append_nil] at hperm
  have hcand : (⟨i, op, prep⟩ : Candidate) ∈ candidates js ops := mem_candidates.mpr ⟨hi, hquery⟩
  have hmissed : (⟨i, op, prep⟩ : Candidate) ∈ missed := by
    have h := (served_perm hres).mem_iff.mpr hcand
    rwa [List.map_nil, List.append_nil] at h
  have hmem : (⟨j, op', none⟩ : Forward) ∈ plainOps js ops := mem_plainOps.mpr ⟨hj, hplain, rfl⟩
  have hlength : forward.length = ops.length := by
    simpa only [List.length_map, List.length_range] using hperm.length_eq
  have hpos : 0 < ops.length := Nat.zero_lt_of_lt (List.getElem?_eq_some_iff.mp hi).1
  have hcands : 0 < (candidates js ops).length := List.length_pos_of_mem hcand
  obtain ⟨body, hresults, hout⟩ := doTunnelBatch_of_fetch hnode zc hres hforward (by omega)
    (by omega)
  obtain ⟨r, hr, -, hown⟩ := htrans.entries
  rw [hout, if_pos hlength] at hr hown
  cases hr
  -- The node has answered op `k` at place `k`, so the ops were sent in their order.
  have hrange : forward.map Forward.i = List.range ops.length := by
    refine List.ext_getElem? fun k => ?_
    rcases Nat.lt_or_ge k ops.length with hk | hk
    · have hin : k ∈ forward.map Forward.i := hperm.mem_iff.mpr (List.mem_range.mpr hk)
      rw [List.getElem?_range hk]
      rcases hown k ops[k] (List.getElem?_eq_getElem hk) with ⟨-, hentry⟩ | ⟨hout, -⟩
      · rw [hresults, List.getElem?_map] at hentry
        obtain ⟨m, hm, hnum⟩ := Option.map_eq_some_iff.mp hentry
        rw [hm, Nat.cast_injective (Json.num.inj hnum)]
      · rw [sent_of_fetch] at hout
        exact absurd hin hout
    · rw [List.getElem?_eq_none (by simpa only [List.length_map, hlength] using hk),
        List.getElem?_eq_none (by simpa only [List.length_range] using hk)]
  have hsorted : (forward.map Forward.i).Pairwise (· < ·) := by
    rw [hrange]
    exact List.pairwise_lt_range
  rw [hforward, map_i_forwardAll, List.pairwise_append] at hsorted
  have hback : j < i := hsorted.2.2 j (List.mem_map.mpr ⟨_, hmem, rfl⟩) i
    (List.mem_map.mpr ⟨_, hmissed, rfl⟩)
  omega

/-- Entries that were spliced are answers to their ops. -/
theorem ownEntry_of_splice {answer : Nat → Json} (sent : List (Nat × Json))
    {served : List (Candidate × Synth)} {missed : List Candidate} {st : Resolving}
    (hres : resolveBatch js w (candidates js ops) = (served, missed, st))
    (hperm : (sent.map Prod.fst ++ served.map fun p => p.1.i).Perm (List.range ops.length))
    {i : Nat} {op : Json} (hop : ops[i]? = some op) :
    OwnEntry js w ops answer st.fetched sent
      ((spliceTunnelResults (sent.map Prod.fst) ((sent.map Prod.fst).map answer)
        (assignAll (List.replicate ops.length none)
          (served.map fun p => (p.1.i, p.2.toJson)))).map fun v => v.getD .null) i op := by
  have hi : i < ops.length := (List.getElem?_eq_some_iff.mp hop).1
  rcases splice_entries answer hperm hi with ⟨hin, hentry⟩ | ⟨hout, p, hp, rfl, hentry⟩
  · refine .inl ⟨hin, ?_⟩
    rw [List.getElem?_map, hentry]
    rfl
  · have hmem : p.1 ∈ candidates js ops :=
      (served_perm hres).subset (List.mem_append_right _ (List.mem_map.mpr ⟨p, hp, rfl⟩))
    obtain ⟨hop', hcand⟩ := mem_candidates.mp hmem
    rw [hop, Option.some.injEq] at hop'
    refine .inr ⟨hout, p.1.prep, p.2, by rw [hop', hcand], ?_, ?_⟩
    · have hall : _ ∧ ∀ p ∈ (resolveBatch js w (candidates js ops)).1,
          AnswerTo js w ops _ p.1.prep p.2 := resolveBatch_sourced
      rw [hres] at hall
      exact hall.2 p hp
    · rw [List.getElem?_map, hentry]
      rfl

/-- The ops of a batch without a query before another op are sent in their order. -/
theorem forward_eq_range {missed : List Candidate} {st : Resolving} {forward : List Forward}
    (hres : resolveBatch js w (candidates js ops) = ([], missed, st))
    (hforward : forward = forwardAll (plainOps js ops) missed) (hnot : ¬ Displaced js w ops) :
    forward.map Forward.i = List.range ops.length := by
  have hperm := forward_perm hres hforward
  rw [List.map_nil, List.append_nil] at hperm
  have hmissed : missed.Sublist (candidates js ops) := by
    have h : (resolveBatch js w (candidates js ops)).2.1.Sublist _ := resolveAll_sublist _ _
    rwa [hres] at h
  have hnil : (resolveBatch js w (candidates js ops)).1 = [] := by rw [hres]
  obtain ⟨huncached, hunfetched⟩ := resolveBatch_eq_nil.mp hnil
  refine hperm.eq_of_pairwise (fun a b _ _ hab hba => absurd hab (Nat.lt_asymm hba)) ?_
    List.pairwise_lt_range
  rw [hforward, map_i_forwardAll, List.pairwise_append]
  refine ⟨List.pairwise_map.mpr pairwise_plainOps,
    List.pairwise_map.mpr (pairwise_candidates.sublist hmissed), fun j hj i hi => ?_⟩
  obtain ⟨f, hf, rfl⟩ := List.mem_map.mp hj
  obtain ⟨c, hc, rfl⟩ := List.mem_map.mp hi
  obtain ⟨hop', hplain, -⟩ := mem_plainOps.mp hf
  obtain ⟨hop, hcand⟩ := mem_candidates.mp (hmissed.subset hc)
  rcases lt_trichotomy f.i c.i with hlt | heq | hgt
  · exact hlt
  · rw [heq, hop, Option.some.injEq] at hop'
    rw [← hop', hcand] at hplain
    cases hplain
  · exact absurd
      ⟨huncached, hunfetched, c.i, f.i, c.op, f.op, c.prep, hgt, hop, hop', hcand, hplain⟩ hnot

/-- Entries that are the node's answers in the order of the ops. -/
theorem ownEntry_of_range {answer : Nat → Json} {fetched : List DohCall}
    {sent : List (Nat × Json)} {r : List Json}
    (hsent : sent.map Prod.fst = List.range ops.length) (hr : r = (sent.map Prod.fst).map answer)
    {i : Nat} {op : Json} (hop : ops[i]? = some op) :
    OwnEntry js w ops answer fetched sent r i op := by
  have hi : i < ops.length := (List.getElem?_eq_some_iff.mp hop).1
  refine .inl ⟨by rw [hsent]; exact List.mem_range.mpr hi, ?_⟩
  rw [hr, hsent, List.getElem?_map, List.getElem?_range hi]
  rfl

section

variable {answer : Nat → Json} (hnode : AnswersInOrder w.node answer) (zc : Nat)
  {served : List (Candidate × Synth)} {missed : List Candidate} {st : Resolving}
  {forward : List Forward} (hres : resolveBatch js w (candidates js ops) = (served, missed, st))
  (hforward : forward = forwardAll (plainOps js ops) missed)

include hres

theorem fetched_le : st.fetched.length ≤ edgeDnsMaxDohFetchesPerBatch := by
  have h : (resolveBatch js w (candidates js ops)).2.2.fetched.length + _ = _ :=
    resolveAll_budget _ _
  rw [← resolveBatch, hres] at h
  exact Nat.le.intro (h.trans (Nat.zero_add _))

include hforward

theorem transparent_local (hsome : forward.length = 0) :
    Transparent js w ops answer (doTunnelBatch js w ⟨none, zc, ops⟩) := by
  have hout : doTunnelBatch js w ⟨none, zc, ops⟩ =
      ⟨.results (assignAll (List.replicate ops.length none)
        (served.map fun p => (p.1.i, p.2.toJson))) none, [], st.fetched, st.puts, served⟩ := by
    unfold doTunnelBatch
    simp only [hres, ← hforward, if_pos hsome]
  have hperm := forward_perm hres hforward
  rw [List.length_eq_zero_iff.mp hsome] at hperm
  rw [hout]
  refine ⟨Nat.zero_le _, fetched_le hres, List.nodup_nil, fun _ h => (nomatch h), _, rfl, ?_,
    fun i op hop => ownEntry_of_splice [] hres hperm hop⟩
  rw [List.length_map, length_assignAll, List.length_replicate]

include hnode

theorem transparent_verbatim (hsome : forward.length ≠ 0)
    (hcands : (candidates js ops).length = 0) :
    Transparent js w ops answer (doTunnelBatch js w ⟨none, zc, ops⟩) := by
  obtain ⟨sent, hsent⟩ : ∃ sent, sent = ops.zipIdx.map Prod.swap := ⟨_, rfl⟩
  have hlength : forward.length = ops.length := by
    have hnil := (served_perm hres).length_eq
    have hall := (forward_perm hres hforward).length_eq
    rw [hcands, List.length_append, List.length_map] at hnil
    rw [List.length_append, List.length_map, List.length_map, List.length_range] at hall
    omega
  obtain ⟨body, hcall, hr⟩ := hnode sent zc
  have hbatch : doTunnelBatchForward w (.ops sent zc)
      = ⟨.text (some body), [.ops sent zc], [], [], []⟩ := by
    unfold doTunnelBatchForward
    rw [hcall]
    rfl
  have hout : doTunnelBatch js w ⟨none, zc, ops⟩ = doTunnelBatchForward w (.ops sent zc) := by
    unfold doTunnelBatch
    simp only [hres, ← hforward, ← hsent, if_neg hsome]
    rw [if_pos ⟨hlength, hcands⟩]
  have hrange : sent.map Prod.fst = List.range ops.length := by
    rw [hsent, List.map_map, List.range_eq_range', ← List.zipIdx_map_snd]
    rfl
  have hresults : resultsOf body = (sent.map Prod.fst).map answer := by
    unfold resultsOf
    rw [hr, List.map_map]
    rfl
  have hflat : [NodeCall.ops sent zc].flatMap NodeCall.sent = sent := List.flatMap_singleton _ _
  rw [hout, hbatch]
  refine ⟨le_rfl, Nat.zero_le _, ?_, ?_, _, rfl, ?_, fun i op hop => ?_⟩
  · rw [hflat, hrange]
    exact List.nodup_range
  · rw [hflat, hsent]
    intro p hp
    obtain ⟨⟨op, i⟩, hmem, rfl⟩ := List.mem_map.mp hp
    exact List.mk_mem_zipIdx_iff_getElem?.mp hmem
  · rw [hresults, hrange, List.length_map, List.length_range]
  · rw [hflat]
    exact ownEntry_of_range hrange hresults hop

theorem transparent_fetch (hsome : forward.length ≠ 0) (hcands : (candidates js ops).length ≠ 0)
    (hnot : ¬ Displaced js w ops) :
    Transparent js w ops answer (doTunnelBatch js w ⟨none, zc, ops⟩) := by
  obtain ⟨body, hresults, hout⟩ := doTunnelBatch_of_fetch hnode zc hres hforward hsome hcands
  obtain ⟨sent, hsent⟩ : ∃ sent, sent = forward.map fun f => (f.i, f.op) := ⟨_, rfl⟩
  have hfst : forward.map Forward.i = sent.map Prod.fst := by
    rw [hsent, List.map_map]
    rfl
  have hperm := forward_perm hres hforward
  have hflat : [NodeCall.ops sent (zc - zc % 2)].flatMap NodeCall.sent = sent :=
    List.flatMap_singleton _ _
  rw [hfst] at hresults hperm
  rw [hout, ← hsent, hfst]
  refine ⟨le_rfl, fetched_le hres, ?_, ?_, ?_⟩
  · rw [hflat]
    exact (List.nodup_append'.mp (hperm.nodup_iff.mpr List.nodup_range)).1
  · rw [hflat, hsent]
    intro p hp
    obtain ⟨f, hf, rfl⟩ := List.mem_map.mp hp
    exact forward_op hres hforward hf
  · rw [hflat]
    by_cases hlength : forward.length = ops.length
    · have hnil : served = [] := by
        have h := (forward_perm hres hforward).length_eq
        rw [List.length_append, List.length_map, List.length_map, List.length_range, hlength] at h
        exact List.length_eq_zero_iff.mp (by omega)
      subst hnil
      have hrange := forward_eq_range hres hforward hnot
      rw [hfst] at hrange
      rw [if_pos hlength]
      refine ⟨_, rfl, ?_, fun i op hop => ownEntry_of_range hrange hresults hop⟩
      rw [hresults, hrange, List.length_map, List.length_range]
    · rw [if_neg hlength]
      refine ⟨_, rfl, ?_, fun i op hop => ownEntry_of_splice sent hres hperm hop⟩
      unfold spliceTunnelResults
      rw [List.length_map, length_assignAll, length_assignAll, List.length_replicate]

end

/-- **The batch is in order** otherwise. -/
theorem transparent_of_not_displaced {answer : Nat → Json} (hnode : AnswersInOrder w.node answer)
    (zc : Nat) (hnot : ¬ Displaced js w ops) :
    Transparent js w ops answer (doTunnelBatch js w ⟨none, zc, ops⟩) := by
  obtain ⟨served, missed, st, hres⟩ : ∃ served missed st,
      resolveBatch js w (candidates js ops) = (served, missed, st) := ⟨_, _, _, rfl⟩
  by_cases hsome : (forwardAll (plainOps js ops) missed).length = 0
  · exact transparent_local zc hres rfl hsome
  · by_cases hcands : (candidates js ops).length = 0
    · exact transparent_verbatim hnode zc hres rfl hsome hcands
    · exact transparent_fetch hnode zc hres rfl hsome hcands hnot

end

/-- A node that answers op `i` with `answer i`. -/
def nodeOf (answer : Nat → Json) : NodeCall → Except String NodeResponse
  | .ops sent _ => .ok ⟨200, some (.obj [("r", .arr (sent.map fun p => answer p.1))])⟩
  | .zops _ _ => .ok ⟨200, none⟩

theorem nodeOf_answersInOrder (answer : Nat → Json) : AnswersInOrder (nodeOf answer) answer :=
  fun _ _ => ⟨_, rfl, rfl⟩

/-- **Edge DNS is transparent**, whatever the node answers, exactly when the batch is not one of
which no query is answered here while a query stands before another op. -/
theorem doTunnelBatch_transparent_iff (js : Runtime) (w : Outside) (zc : Nat) (ops : List Json) :
    (∀ node answer, AnswersInOrder node answer →
      Transparent js { w with node := node } ops answer
        (doTunnelBatch js { w with node := node } ⟨none, zc, ops⟩)) ↔
      ¬ Displaced js w ops := by
  constructor
  · intro h hdisplaced
    have hnode := nodeOf_answersInOrder fun i => .num i
    refine not_transparent_of_displaced hnode zc ?_ (h _ _ hnode)
    exact ⟨hdisplaced.uncached, hdisplaced.unfetched, hdisplaced.ahead⟩
  · intro hnot node answer hnode
    refine transparent_of_not_displaced hnode zc fun hdisplaced => hnot ?_
    exact ⟨hdisplaced.uncached, hdisplaced.unfetched, hdisplaced.ahead⟩

/-- A query for the address of `a`. -/
def addressQuery (txid : UInt8) : List UInt8 :=
  [txid, txid, 1, 0, 0, 1, 0, 0, 0, 0, 0, 0, 1, 0x61, 0, 0, 1, 0, 1]

def dnsOp (query : List UInt8) : Json :=
  .obj [("op", .str "udp_open"), ("port", .num 53), ("d", .str (base64Encode query))]

/-- The cache is empty, and DoH fails. -/
def bareOutside (answer : Nat → Json) : Outside where
  getAll _ := some fun _ => none
  doh _ := none
  node := nodeOf answer

/-- A query and a `connect`: each gets the answer to the other. -/
theorem tunnelBatch_swapped :
    AnswersInOrder (bareOutside fun i => .num i).node (fun i => .num i) ∧
      (doTunnelBatch .ascii (bareOutside fun i => .num i)
        ⟨none, 0, [dnsOp (addressQuery 7), .obj [("op", .str "connect")]]⟩).reply.entries
          = some [.num (1 : Nat), .num (0 : Nat)] ∧
      ¬ Transparent .ascii (bareOutside fun i => .num i)
        [dnsOp (addressQuery 7), .obj [("op", .str "connect")]] (fun i => .num i)
        (doTunnelBatch .ascii (bareOutside fun i => .num i)
          ⟨none, 0, [dnsOp (addressQuery 7), .obj [("op", .str "connect")]]⟩) := by
  have hentries : (doTunnelBatch .ascii (bareOutside fun i => .num i)
      ⟨none, 0, [dnsOp (addressQuery 7), .obj [("op", .str "connect")]]⟩).reply.entries
        = some [.num (1 : Nat), .num (0 : Nat)] := rfl
  refine ⟨nodeOf_answersInOrder fun i => .num i, hentries, fun h => ?_⟩
  obtain ⟨r, hr, -, hown⟩ := h.entries
  cases hentries.symm.trans hr
  rcases hown 1 _ rfl with ⟨-, hentry⟩ | ⟨hout, -⟩
  · cases hentry
  · exact hout (by decide)

end Rahgozar.AppsScript
