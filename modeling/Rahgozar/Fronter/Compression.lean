import Rahgozar.Lib.Run
import Rahgozar.Lib.Maps
import Rahgozar.Tunnel.Protocol

set_option autoImplicit false

/-! # Compressed batches

A batch goes from the client (`tunnel_batch_request_to` in `src/domain_fronter.rs`) through the
Apps Script of one deployment (`_doTunnelBatch` in `CodeFull.gs`) to the tunnel-node behind it
(`handle_batch` in `tunnel-node/src/main.rs`). The client may put the operations in compressed
form (`zops`) and the node may answer in compressed form (`zr`); both sides say in `zc` what they
understand, bit 0 being zstd. The client keeps the capabilities of each deployment, but decides
by one flag for all of them.
-/

namespace Rahgozar.Fronter

open Rahgozar.Tunnel (BatchOp TunnelResponse batchIsReplaySafe toVec)

/-- `CAP_ZSTD` -/
def capZstd : UInt8 := 1

/-- `SERVER_CAPABILITIES`, and what the client puts in its requests. -/
def serverCapabilities : UInt8 := 3

def hasZstd (caps : UInt8) : Bool := caps &&& capZstd ≠ 0

structure BatchRequest where
  ops : List BatchOp
  zops : Option (List Char)
  zc : Option UInt8
deriving DecidableEq

/-! ## Client -/

/-- The client's knowledge; `heard` is the history of capabilities its replies have carried. -/
structure Client where
  zstdEnabled : Bool
  scriptTunnelCapabilities : AList fun _ : String => UInt8
  heard : List (String × UInt8)

/-- The request `tunnel_batch_request_to` builds. `encoded` is the base64 text of the compressed
operations, if `zstd::encode_all` succeeds. -/
def Client.batchRequest (c : Client) (ops : List BatchOp) (encoded : Option (List Char)) :
    BatchRequest :=
  if c.zstdEnabled then
    match encoded with
    | some compressed => ⟨[], some compressed, some serverCapabilities⟩
    | none => ⟨ops, none, some serverCapabilities⟩
  else ⟨ops, none, some serverCapabilities⟩

/-- `finalize_batch_response`, what it keeps of a reply that parses. -/
def Client.learn (c : Client) (scriptId : String) : Option UInt8 → Client
  | none => c
  | some caps =>
      { zstdEnabled := c.zstdEnabled || hasZstd caps
        scriptTunnelCapabilities := c.scriptTunnelCapabilities.insert scriptId caps
        heard := c.heard ++ [(scriptId, caps)] }

/-- A reply of the deployment has carried the zstd bit. -/
def Client.Advertised (c : Client) (scriptId : String) : Prop :=
  ∃ caps, (scriptId, caps) ∈ c.heard ∧ hasZstd caps = true

/-- `deployment_supports_batch_replay`: the question about bit 1, asked per deployment. -/
def Client.deploymentSupportsBatchReplay (c : Client) (scriptId : String) : Bool :=
  (c.scriptTunnelCapabilities.lookup scriptId).any fun caps => caps &&& 2 ≠ 0

/-! ## Apps Script -/

/-- What `_doTunnelBatch` does with a plain batch: forward it as it is, forward some operations
and splice the results in, or serve it alone. -/
inductive EdgeRoute where
  | verbatim
  | splice (forwardOps : List BatchOp)
  | served

/-- `if (zc) body.zc = zc` -/
def truthy (zc : Option UInt8) : Option UInt8 := zc.filter fun caps => caps ≠ 0

/-- `_doTunnelBatch`: the request the tunnel-node gets. -/
def doTunnelBatch (route : EdgeRoute) (req : BatchRequest) : Option BatchRequest :=
  match req.zops with
  | some zops => some ⟨[], some zops, truthy req.zc⟩
  | none =>
      match route with
      | .verbatim => some ⟨req.ops, none, truthy req.zc⟩
      | .splice forwardOps => some ⟨forwardOps, none, truthy (req.zc.map (· &&& ~~~1))⟩
      | .served => none

/-! ## Node -/

inductive NodeReply where
  | r (results : List TunnelResponse) (zc : Option UInt8)
  | zr (compressed : List Char) (zc : UInt8)
deriving DecidableEq

def NodeReply.isZr : NodeReply → Bool
  | zr _ _ => true
  | r _ _ => false

/-- What is hashed to the fingerprint of a batch; it stands for the fingerprint here. -/
def replayInput (ops : List BatchOp) (compressedResponse : Bool) : Option (List UInt8) :=
  if batchIsReplaySafe ops then some ((if compressedResponse then 1 else 0) :: toVec ops) else none

/-- The replies the node keeps for duplicates. -/
abbrev Node := AList fun _ : List UInt8 => NodeReply

def clientZstd (req : BatchRequest) : Bool := req.zops.isSome || req.zc.any hasZstd

/-- The outside of a batch on the node: the operations in `zops` (or what is wrong with them),
their results, and the compressed text of the results if `zstd::encode_all` succeeds. -/
structure Handling where
  decoded : Except String (List BatchOp)
  results : List TunnelResponse
  encoded : Option (List Char)

/-- The body of a batch response. -/
def batchReply (zstd : Bool) (h : Handling) : NodeReply :=
  match zstd, h.encoded with
  | true, some compressed => .zr compressed serverCapabilities
  | _, _ => .r h.results (some serverCapabilities)

/-- `handle_batch` once it has the operations: a duplicate gets the reply that is kept. -/
def serveBatch (n : Node) (ops : List BatchOp) (zstd : Bool) (h : Handling) : NodeReply × Node :=
  match replayInput ops zstd with
  | none => (batchReply zstd h, n)
  | some key =>
      match n.lookup key with
      | some body => (body, n)
      | none => (batchReply zstd h, n.insert key (batchReply zstd h))

/-- The operations of a request. -/
def batchOps (req : BatchRequest) (h : Handling) : Except String (List BatchOp) :=
  if req.zops.isSome then h.decoded else .ok req.ops

/-- `handle_batch` -/
def handleBatch (n : Node) (req : BatchRequest) (h : Handling) : NodeReply × Node :=
  match batchOps req h with
  | .error e => (.r [TunnelResponse.error e] none, n)
  | .ok ops => serveBatch n ops (clientZstd req) h

/-! ## The system -/

structure Network where
  client : Client
  nodes : String → Node

/-- A batch on its way to a deployment and its node, a reply (with its `zc`) that the client
takes in, and an entry that leaves a node's registry. -/
inductive BatchEvent where
  | send (scriptId : String) (ops : List BatchOp) (encoded : Option (List Char))
      (route : EdgeRoute) (handling : Handling)
  | receive (scriptId : String) (zc : Option UInt8)
  | forget (scriptId : String) (key : List UInt8)

namespace Network

def init : Network := ⟨⟨false, ∅, []⟩, fun _ => ∅⟩

/-- What the node of a deployment makes of a batch, if one reaches it. -/
def answer (s : Network) (scriptId : String) (ops : List BatchOp) (encoded : Option (List Char))
    (route : EdgeRoute) (h : Handling) : Option (BatchRequest × NodeReply × Node) :=
  (doTunnelBatch route (s.client.batchRequest ops encoded)).map fun req =>
    (req, handleBatch (s.nodes scriptId) req h)

def step (s : Network) : BatchEvent → Option Network
  | .send scriptId ops encoded route h =>
      match s.answer scriptId ops encoded route h with
      | none => some s
      | some (_, _, n) => some { s with nodes := Function.update s.nodes scriptId n }
  | .receive scriptId zc => some { s with client := s.client.learn scriptId zc }
  | .forget scriptId key =>
      some { s with nodes := Function.update s.nodes scriptId ((s.nodes scriptId).erase key) }

/-! ## The rule and the condition -/

/-- A batch goes to a deployment in the form `zops` only if the deployment has advertised zstd. -/
def ZopsAdvertised (s : Network) : BatchEvent → Prop
  | .send scriptId ops encoded _ _ =>
      (s.client.batchRequest ops encoded).zops.isSome = true → s.client.Advertised scriptId
  | _ => True

/-- A node answers in the form `zr` only a request with the zstd bit. -/
def ZrRequested (s : Network) : BatchEvent → Prop
  | .send scriptId ops encoded route h =>
      ∀ req reply n, s.answer scriptId ops encoded route h = some (req, reply, n) →
        reply.isZr = true → req.zc.any hasZstd = true
  | _ => True

/-- A batch that can be compressed goes out before any deployment has advertised zstd, or to one
that has. -/
def NoForeignAdvert (s : Network) : BatchEvent → Prop
  | .send scriptId _ encoded _ _ =>
      encoded.isSome = true → (∃ d, s.client.Advertised d) → s.client.Advertised scriptId
  | _ => True

/-! ## Invariants -/

/-- What a node keeps in the form `zr` is kept for clients that take it. -/
def Kept (n : Node) : Prop :=
  ∀ key reply, n.lookup key = some reply → reply.isZr = true → ∃ rest, key = 1 :: rest

/-- The flag says whether any deployment has advertised. -/
structure Inv (s : Network) : Prop where
  flag : s.client.zstdEnabled = true ↔ ∃ d, s.client.Advertised d
  kept : ∀ d, Kept (s.nodes d)

theorem inv_init : Inv init where
  flag := by simp [init, Client.Advertised]
  kept d key reply h := by simp [init] at h

theorem flag_learn {c : Client} (h : c.zstdEnabled = true ↔ ∃ d, c.Advertised d)
    (scriptId : String) (zc : Option UInt8) :
    (c.learn scriptId zc).zstdEnabled = true ↔ ∃ d, (c.learn scriptId zc).Advertised d := by
  cases zc with
  | none => exact h
  | some caps =>
      simp only [Client.learn, Bool.or_eq_true, h, Client.Advertised, List.mem_append,
        List.mem_singleton, Prod.mk.injEq]
      constructor
      · rintro (⟨d, caps', hmem, hz⟩ | hz)
        · exact ⟨d, caps', .inl hmem, hz⟩
        · exact ⟨scriptId, caps, .inr ⟨rfl, rfl⟩, hz⟩
      · rintro ⟨d, caps', hmem | ⟨-, rfl⟩, hz⟩
        · exact .inl ⟨d, caps', hmem, hz⟩
        · exact .inr hz

theorem batchReply_isZr {zstd : Bool} {h : Handling} (hz : (batchReply zstd h).isZr = true) :
    zstd = true := by
  cases zstd with
  | true => rfl
  | false => cases hz

theorem replayInput_zstd {ops : List BatchOp} {zstd : Bool} {key : List UInt8}
    (h : replayInput ops zstd = some key) : zstd = true ↔ ∃ rest, key = 1 :: rest := by
  unfold replayInput at h
  cases hsafe : batchIsReplaySafe ops with
  | false => simp [hsafe] at h
  | true =>
      rw [hsafe, if_pos rfl, Option.some.injEq] at h
      subst h
      cases zstd <;> simp

theorem serveBatch_zr {n : Node} (hn : Kept n) (ops : List BatchOp) (zstd : Bool) (h : Handling) :
    ((serveBatch n ops zstd h).1.isZr = true → zstd = true) ∧ Kept (serveBatch n ops zstd h).2 := by
  unfold serveBatch
  cases hkey : replayInput ops zstd with
  | none => exact ⟨batchReply_isZr, hn⟩
  | some key =>
      simp only
      cases hbody : n.lookup key with
      | some body => exact ⟨fun hz => (replayInput_zstd hkey).mpr (hn key body hbody hz), hn⟩
      | none =>
          refine ⟨batchReply_isZr, fun key' reply hlookup hz => ?_⟩
          by_cases hk : key' = key
          · subst hk
            rw [AList.lookup_insert] at hlookup
            cases hlookup
            exact (replayInput_zstd hkey).mp (batchReply_isZr hz)
          · rw [AList.lookup_insert_ne hk] at hlookup
            exact hn key' reply hlookup hz

/-- A node answers in the form `zr` only a client that takes it. -/
theorem handleBatch_zr {n : Node} (hn : Kept n) (req : BatchRequest) (h : Handling) :
    ((handleBatch n req h).1.isZr = true → clientZstd req = true) ∧
      Kept (handleBatch n req h).2 := by
  unfold handleBatch
  cases batchOps req h with
  | error e => exact ⟨fun hz => (by cases hz), hn⟩
  | ok ops => exact serveBatch_zr hn ops (clientZstd req) h

/-- A request of this client that a node takes for one of a zstd client has the zstd bit: the
Apps Script passes it on with `zops` and in the verbatim forward, and clears it in the splice. -/
theorem zc_of_clientZstd {c : Client} {ops : List BatchOp} {encoded : Option (List Char)}
    {route : EdgeRoute} {req : BatchRequest}
    (hreq : doTunnelBatch route (c.batchRequest ops encoded) = some req)
    (hz : clientZstd req = true) : req.zc.any hasZstd = true := by
  have hthree : (truthy (some serverCapabilities)).any hasZstd = true := by decide
  have htwo : (truthy (some (serverCapabilities &&& ~~~1))).any hasZstd = false := by decide
  have hzc : (c.batchRequest ops encoded).zc = some serverCapabilities := by
    unfold Client.batchRequest
    cases c.zstdEnabled <;> cases encoded <;> rfl
  unfold doTunnelBatch at hreq
  rw [hzc] at hreq
  split at hreq
  · cases hreq
    exact hthree
  · split at hreq
    · cases hreq
      exact hthree
    · cases hreq
      simp [clientZstd, htwo] at hz
    · cases hreq

theorem answer_eq {s : Network} {scriptId : String} {ops : List BatchOp}
    {encoded : Option (List Char)} {route : EdgeRoute} {h : Handling} {req : BatchRequest}
    {reply : NodeReply} {n : Node}
    (hanswer : s.answer scriptId ops encoded route h = some (req, reply, n)) :
    doTunnelBatch route (s.client.batchRequest ops encoded) = some req ∧
      handleBatch (s.nodes scriptId) req h = (reply, n) := by
  obtain ⟨req', hreq, heq⟩ := Option.map_eq_some_iff.mp hanswer
  rw [Prod.mk.injEq] at heq
  obtain ⟨rfl, heq⟩ := heq
  exact ⟨hreq, heq⟩

theorem step_inv {s t : Network} {e : BatchEvent} (hs : Inv s) (h : s.step e = some t) :
    Inv t := by
  cases e with
  | send scriptId ops encoded route handling =>
      simp only [step] at h
      split at h
      · cases h
        exact hs
      · rename_i req _ _ hanswer
        obtain ⟨-, hn⟩ := answer_eq hanswer
        cases h
        refine ⟨hs.flag, fun d => ?_⟩
        by_cases hd : d = scriptId
        · subst hd
          have := (handleBatch_zr (hs.kept d) req handling).2
          simpa [hn] using this
        · simpa [Function.update_of_ne hd] using hs.kept d
  | receive scriptId zc =>
      cases h
      exact ⟨flag_learn hs.flag scriptId zc, hs.kept⟩
  | forget scriptId key =>
      cases h
      refine ⟨hs.flag, fun d => ?_⟩
      by_cases hd : d = scriptId
      · subst hd
        intro key' reply hlookup hz
        simp only [Function.update_self] at hlookup
        by_cases hk : key' = key
        · subst hk
          simp at hlookup
        · rw [AList.lookup_erase_ne hk] at hlookup
          exact hs.kept d key' reply hlookup hz
      · simpa [Function.update_of_ne hd] using hs.kept d

theorem zrRequested {s : Network} (hs : Inv s) (e : BatchEvent) : ZrRequested s e := by
  cases e with
  | receive scriptId zc => trivial
  | forget scriptId key => trivial
  | send scriptId ops encoded route handling =>
      intro req reply n hanswer hz
      obtain ⟨hreq, hn⟩ := answer_eq hanswer
      have hclient := (handleBatch_zr (hs.kept scriptId) req handling).1
      rw [hn] at hclient
      exact zc_of_clientZstd hreq (hclient hz)

theorem zopsAdvertised_iff {s : Network} (hs : Inv s) (e : BatchEvent) :
    ZopsAdvertised s e ↔ NoForeignAdvert s e := by
  cases e with
  | receive scriptId zc => exact Iff.rfl
  | forget scriptId key => exact Iff.rfl
  | send scriptId ops encoded route handling =>
      simp only [ZopsAdvertised, NoForeignAdvert, ← hs.flag, Client.batchRequest]
      cases s.client.zstdEnabled <;> cases encoded <;> simp

/-- **Compressed batches.** In a run, batches go out compressed only to deployments that have
advertised zstd, and nodes answer compressed only requests that ask for it, exactly when no
batch that can be compressed goes to a deployment that has not advertised zstd after another
one has. -/
theorem compressed_iff_noForeignAdvert (es : List BatchEvent) :
    StepRun.AllSteps step (fun s e => ZopsAdvertised s e ∧ ZrRequested s e) init es ↔
      StepRun.AllSteps step NoForeignAdvert init es :=
  StepRun.allSteps_congr (fun _ _ _ hs h => step_inv hs h)
    (fun _ e hs => (and_iff_left (zrRequested hs e)).trans (zopsAdvertised_iff hs e)) inv_init es

/-- A reply of one deployment turns compression on for another. -/
theorem zops_to_old_node :
    ¬ StepRun.AllSteps step (fun s e => ZopsAdvertised s e ∧ ZrRequested s e) init
      [.receive "new" (some 3), .send "old" [] (some []) .verbatim ⟨.ok [], [], none⟩] := by
  intro h
  obtain ⟨-, h⟩ := h _ rfl
  obtain ⟨⟨hzops, -⟩, -⟩ := h _ rfl
  obtain ⟨caps, hmem, -⟩ := hzops rfl
  simp [Client.learn, init] at hmem

/-! ## The sibling: replays

Bit 1 is looked up under the deployment itself. -/

/-- What is kept of a deployment was in one of its own replies. -/
def Recorded (c : Client) : Prop :=
  ∀ d caps, c.scriptTunnelCapabilities.lookup d = some caps → (d, caps) ∈ c.heard

theorem recorded_learn {c : Client} (h : Recorded c) (scriptId : String) (zc : Option UInt8) :
    Recorded (c.learn scriptId zc) := by
  cases zc with
  | none => exact h
  | some caps =>
      intro d caps' hl
      simp only [Client.learn] at hl ⊢
      by_cases hd : d = scriptId
      · subst hd
        rw [AList.lookup_insert] at hl
        cases hl
        exact List.mem_append_right _ List.mem_cons_self
      · rw [AList.lookup_insert_ne hd] at hl
        exact List.mem_append_left _ (h d caps' hl)

end Network

end Rahgozar.Fronter
