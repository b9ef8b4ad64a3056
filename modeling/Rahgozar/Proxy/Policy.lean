import Rahgozar.Proxy.Routing

set_option autoImplicit false

/-! # One routing policy for all entry points

`passthrough_hosts` and `block_doh` are policies for every connection. The tunnels are dispatched by
`classify_early_route`; of the plain HTTP handlers only the one of the Drive mode asks it. The
tunnel mux refuses destinations that it has lately found unreachable, before the route is looked at;
this does not get in the way of the policies, since only what was routed to the mux is remembered.

The lists are compared with the host as the entry point spells it, so that an IPv6 address in
brackets is another host to them than the address itself.
-/

namespace Rahgozar.Proxy

/-! ## The proxy with its negative cache -/

/-- `normalize_cache_host` -/
def normalizeCacheHost (host : List Char) : List Char :=
  toAsciiLowercase (if host.getLast? = some '.' then host.dropLast else host)

/-- Beside the cache: the destinations that went to the tunnel mux. -/
structure ProxyServer where
  handles : Handles
  cache : List (List Char × Nat)
  tunnelled : List (List Char × Nat)

inductive ProxyEvent where
  | request (r : Request)
  /-- `record_unreachable_if_match`, when a connection through the mux has failed. -/
  | recordUnreachable (host : List Char) (port : Nat)
  /-- An entry has run out, or had to make room. -/
  | forget (key : List Char × Nat)

namespace ProxyServer

/-- The parts of a bundle that a mode has. -/
def new (ctx : RewriteCtx) : ProxyServer :=
  ⟨⟨ctx, ctx.mode.usesAppsScriptRelay, ctx.mode = .full, ctx.mode = .drive⟩, [], []⟩

def isUnreachable (s : ProxyServer) (host : List Char) (port : Nat) : Bool :=
  decide ((normalizeCacheHost host, port) ∈ s.cache)

def outcome (s : ProxyServer) (r : Request) : Outcome := handle s.handles s.isUnreachable r

def step (s : ProxyServer) : ProxyEvent → Option ProxyServer
  | .request r =>
      match s.outcome r with
      | .tunnel host port => some { s with tunnelled := (host, port) :: s.tunnelled }
      | _ => some s
  | .recordUnreachable host port =>
      if (host, port) ∈ s.tunnelled then
        some { s with cache := (normalizeCacheHost host, port) :: s.cache }
      else none
  | .forget key => some { s with cache := s.cache.filter (· ≠ key) }

/-! ## The rule and the condition -/

/-- What the policies ask for, of an outcome. -/
def Follows (ctx : RewriteCtx) (host : List Char) (port : Nat) (o : Outcome) : Prop :=
  match classifyEarlyRoute ctx host port with
  | .passthroughHostsMatch => o = .rawTcp host port
  | .blockDoh => o = .rejected
  | _ => True

/-- What becomes of the request follows the policies for its destination. -/
def Obeys (s : ProxyServer) (r : Request) : Prop :=
  ∀ d ∈ r.destination, Follows s.handles.ctx d.1 d.2 (s.outcome r)

/-- The policies find the host, as it is spelled, where they find it without its brackets; or its
spelling is sent as raw TCP as a DoH host, or is in the negative cache. -/
def SpelledAlike (ctx : RewriteCtx) (s : ProxyServer) (host : List Char) (port : Nat) : Prop :=
  match classifyEarlyRoute ctx (targetHost host) port with
  | .passthroughHostsMatch =>
      classifyEarlyRoute ctx host port = .passthroughHostsMatch ∨
        classifyEarlyRoute ctx host port = .bypassDoh
  | .blockDoh =>
      classifyEarlyRoute ctx host port = .blockDoh ∨
        classifyEarlyRoute ctx host port = .full ∧ s.isUnreachable host port = true
  | _ => True

/-- The entry points that ask must be asked in a spelling that is found. A plain HTTP request
outside of the Drive mode is not asked about: with a relay it must not be for a host of either
policy (a blocked host apart if its body cannot be read), without one not for a blocked host. -/
def NotSkipped (ctx : RewriteCtx) (s : ProxyServer) (r : Request) : Prop :=
  ∀ d ∈ r.target,
    match r with
    | .http method _ _ bodyRead =>
        if Request.isConnect method = true ∨ ctx.mode = .drive then SpelledAlike ctx s d.1 d.2
        else if ctx.mode.usesAppsScriptRelay then
          classifyEarlyRoute ctx (targetHost d.1) d.2 ≠ .passthroughHostsMatch ∧
            (bodyRead = true → classifyEarlyRoute ctx (targetHost d.1) d.2 ≠ .blockDoh)
        else classifyEarlyRoute ctx (targetHost d.1) d.2 ≠ .blockDoh
    | .socks5 _ _ => SpelledAlike ctx s d.1 d.2

theorem spelledAlike_of_bare {ctx : RewriteCtx} {s : ProxyServer} {host : List Char} {port : Nat}
    (h : targetHost host = host) : SpelledAlike ctx s host port := by
  unfold SpelledAlike
  rw [h]
  cases classifyEarlyRoute ctx host port <;> simp

/-! ## The negative cache -/

theorem canonicalHost_normalize (host : List Char) :
    canonicalHost host = trimEndDots (normalizeCacheHost host) := by
  unfold canonicalHost normalizeCacheHost
  split_ifs with hdot
  · obtain ⟨front, rfl⟩ := List.getLast?_eq_some_iff.mp hdot
    rw [List.dropLast_concat]
    simp [toAsciiLowercase, trimEndDots]
  · rfl

/-- Hosts that share a key of the cache have the same route. -/
theorem classifyEarlyRoute_of_key {ctx : RewriteCtx} {host host' : List Char} {port : Nat}
    (h : normalizeCacheHost host = normalizeCacheHost host') :
    classifyEarlyRoute ctx host port = classifyEarlyRoute ctx host' port := by
  apply classifyEarlyRoute_congr
  rw [canonicalHost_normalize, canonicalHost_normalize, h]

/-- Only what is routed to the mux goes there. -/
theorem handle_eq_tunnel {s : Handles} {unreachable : List Char → Nat → Bool} {r : Request}
    {host : List Char} {port : Nat} (h : handle s unreachable r = .tunnel host port) :
    classifyEarlyRoute s.ctx host port = .full := by
  have hdispatch : ∀ host' port', dispatchTunnel s host' port' = .tunnel host port →
      classifyEarlyRoute s.ctx host port = .full := by
    intro host' port' hd
    unfold dispatchTunnel at hd
    split at hd
    all_goals rename_i hroute
    all_goals try cases hd
    · split_ifs at hd
      cases hd
      exact hroute
    · split_ifs at hd
  cases r with
  | socks5 host' port' =>
      simp only [handle] at h
      split_ifs at h
      exact hdispatch _ _ h
  | http method target headers bodyRead =>
      simp only [handle] at h
      split_ifs at h
      · exact hdispatch _ _ h
      · unfold doPlainHttpDrive at h
        split at h
        · cases h
        · split at h <;> cases h
      · unfold doPlainHttp at h
        split_ifs at h
      · unfold doPlainHttpPassthrough at h
        split at h <;> cases h

structure Inv (ctx : RewriteCtx) (s : ProxyServer) : Prop where
  handles : s.handles = (new ctx).handles
  tunnelled : ∀ d ∈ s.tunnelled, classifyEarlyRoute ctx d.1 d.2 = .full
  cache : ∀ key ∈ s.cache, ∃ d ∈ s.tunnelled, normalizeCacheHost d.1 = key.1 ∧ d.2 = key.2

theorem inv_new (ctx : RewriteCtx) : Inv ctx (new ctx) where
  handles := rfl
  tunnelled _ h := by cases h
  cache _ h := by cases h

theorem Inv.step {ctx : RewriteCtx} {s t : ProxyServer} {e : ProxyEvent} (h : Inv ctx s)
    (ht : s.step e = some t) : Inv ctx t := by
  cases e with
  | request r =>
      simp only [ProxyServer.step] at ht
      split at ht
      · rename_i host port hout
        cases ht
        have hroute := handle_eq_tunnel hout
        rw [h.handles] at hroute
        refine ⟨h.handles, fun d hd => ?_, fun key hkey => ?_⟩
        · rcases List.mem_cons.mp hd with rfl | hd
          · exact hroute
          · exact h.tunnelled d hd
        · obtain ⟨d, hd, hsame⟩ := h.cache key hkey
          exact ⟨d, List.mem_cons_of_mem _ hd, hsame⟩
      · cases ht
        exact h
  | recordUnreachable host port =>
      simp only [ProxyServer.step] at ht
      split_ifs at ht with hmem
      cases ht
      refine ⟨h.handles, h.tunnelled, fun key hkey => ?_⟩
      rcases List.mem_cons.mp hkey with rfl | hkey
      · exact ⟨(host, port), hmem, rfl, rfl⟩
      · exact h.cache key hkey
  | forget key =>
      cases ht
      exact ⟨h.handles, h.tunnelled, fun k hk => h.cache k (List.mem_of_mem_filter hk)⟩

/-- A destination in the negative cache is one that is routed to the mux. -/
theorem Inv.full_of_unreachable {ctx : RewriteCtx} {s : ProxyServer} {host : List Char}
    {port : Nat} (h : Inv ctx s) (hun : s.isUnreachable host port = true) :
    classifyEarlyRoute ctx host port = .full := by
  obtain ⟨d, hd, hkey, hport⟩ := h.cache _ (of_decide_eq_true hun)
  rw [classifyEarlyRoute_of_key hkey.symm, ← show d.2 = port from hport]
  exact h.tunnelled d hd

/-! ## The entry points -/

section

variable {ctx : RewriteCtx} {host : List Char} {port : Nat}

theorem mode_of_full (h : classifyEarlyRoute ctx host port = .full) : ctx.mode = .full := by
  unfold classifyEarlyRoute at h
  split_ifs at h
  assumption

theorem mode_of_drive (h : classifyEarlyRoute ctx host port = .drive) : ctx.mode = .drive := by
  unfold classifyEarlyRoute at h
  split_ifs at h
  assumption

theorem mode_of_localBypass (h : classifyEarlyRoute ctx host port = .localBypass) :
    ctx.mode = .localBypass := by
  unfold classifyEarlyRoute at h
  split_ifs at h
  assumption

theorem mode_of_continue (h : classifyEarlyRoute ctx host port = .continue_) :
    ctx.mode ≠ .drive := by
  unfold classifyEarlyRoute at h
  split_ifs at h
  assumption

end

/-- A tunnel follows the policies for a host exactly if they find it in its spelling. -/
theorem Inv.follows_tunnel_iff {ctx : RewriteCtx} {s : ProxyServer} (h : Inv ctx s)
    (host : List Char) (port : Nat) :
    Follows ctx (targetHost host) port
      (if s.handles.tunnelMux && s.isUnreachable host port then .rejected
      else dispatchTunnel s.handles host port) ↔ SpelledAlike ctx s host port := by
  have hctx : s.handles.ctx = ctx := by rw [h.handles]; rfl
  have hmux : s.handles.tunnelMux = decide (ctx.mode = .full) := by rw [h.handles]; rfl
  have hdrive : s.handles.driveMux = decide (ctx.mode = .drive) := by rw [h.handles]; rfl
  unfold Follows SpelledAlike
  by_cases hun : s.isUnreachable host port = true
  · -- what is in the cache is routed to the mux
    have hfull := h.full_of_unreachable hun
    have hmode : ctx.mode = .full := mode_of_full hfull
    rw [hfull, hun, hmux, hmode]
    cases classifyEarlyRoute ctx (targetHost host) port <;> simp
  · rw [Bool.not_eq_true] at hun
    rw [hun, Bool.and_false, if_neg Bool.false_ne_true]
    unfold dispatchTunnel
    rw [hctx, hmux, hdrive]
    cases hroute : classifyEarlyRoute ctx host port with
    | full =>
        rw [mode_of_full hroute]
        cases classifyEarlyRoute ctx (targetHost host) port <;> simp
    | drive =>
        rw [mode_of_drive hroute]
        cases classifyEarlyRoute ctx (targetHost host) port <;> simp
    | _ => cases classifyEarlyRoute ctx (targetHost host) port <;> simp

theorem follows_drive_iff {ctx : RewriteCtx} {s : ProxyServer} (h : Inv ctx s)
    (hmode : ctx.mode = .drive) {target : List Char} {headers : List (List Char × List Char)}
    {host path : List Char} {port : Nat}
    (hres : resolvePlainHttpTarget target headers = some (host, port, path)) :
    Follows ctx (targetHost host) port (doPlainHttpDrive s.handles target headers) ↔
      SpelledAlike ctx s host port := by
  have hctx : s.handles.ctx = ctx := by rw [h.handles]; rfl
  unfold Follows SpelledAlike doPlainHttpDrive
  rw [hres, hctx]
  dsimp only
  cases hroute : classifyEarlyRoute ctx host port with
  | full => exact absurd (hmode.symm.trans (mode_of_full hroute)) (by decide)
  | localBypass => exact absurd (hmode.symm.trans (mode_of_localBypass hroute)) (by decide)
  | continue_ => exact absurd hmode (mode_of_continue hroute)
  | _ => cases classifyEarlyRoute ctx (targetHost host) port <;> simp

/-- Through the relay: exactly what neither policy is about, or cannot be read. -/
theorem follows_relay_iff {ctx : RewriteCtx} {host target : List Char} {port : Nat}
    {headers : List (List Char × List Char)} {bodyRead : Bool} :
    Follows ctx host port (doPlainHttp target headers bodyRead) ↔
      classifyEarlyRoute ctx host port ≠ .passthroughHostsMatch ∧
        (bodyRead = true → classifyEarlyRoute ctx host port ≠ .blockDoh) := by
  unfold Follows doPlainHttp
  cases classifyEarlyRoute ctx host port <;> cases bodyRead <;> simp

/-- Without a relay: exactly what is not to be blocked. -/
theorem follows_passthrough_iff {ctx : RewriteCtx} {host target path : List Char} {port : Nat}
    {headers : List (List Char × List Char)}
    (hres : resolvePlainHttpTarget target headers = some (host, port, path)) :
    Follows ctx (targetHost host) port (doPlainHttpPassthrough target headers) ↔
      classifyEarlyRoute ctx (targetHost host) port ≠ .blockDoh := by
  unfold Follows doPlainHttpPassthrough
  rw [hres]
  cases classifyEarlyRoute ctx (targetHost host) port <;> simp

/-- Where a request with the method `CONNECT`, and any other, is handled. -/
theorem Inv.outcome_http {ctx : RewriteCtx} {s : ProxyServer} (h : Inv ctx s)
    (method target : List Char) (headers : List (List Char × List Char)) (bodyRead : Bool) :
    s.outcome (.http method target headers bodyRead) =
      if Request.isConnect method then
        if s.handles.tunnelMux && s.isUnreachable (parseHostPort target).1 (parseHostPort target).2
          then .rejected
        else dispatchTunnel s.handles (parseHostPort target).1 (parseHostPort target).2
      else if ctx.mode = .drive then doPlainHttpDrive s.handles target headers
      else if ctx.mode.usesAppsScriptRelay then doPlainHttp target headers bodyRead
      else doPlainHttpPassthrough target headers := by
  simp only [outcome, handle, h.handles, new]
  split_ifs <;> simp_all

theorem Inv.obeys_iff {ctx : RewriteCtx} {s : ProxyServer} (h : Inv ctx s) (r : Request) :
    s.Obeys r ↔ NotSkipped ctx s r := by
  have hctx : s.handles.ctx = ctx := by rw [h.handles]; rfl
  have hobeys : s.Obeys r ↔
      ∀ d ∈ r.target, Follows ctx (targetHost d.1) d.2 (s.outcome r) := by
    simp only [Obeys, Request.destination, Option.mem_map, forall_exists_index, and_imp, hctx,
      forall_apply_eq_imp_iff₂]
  rw [hobeys]
  refine forall₂_congr fun d hd => ?_
  cases r with
  | socks5 host port =>
      cases hd
      exact h.follows_tunnel_iff host port
  | http method target headers bodyRead =>
      rw [h.outcome_http]
      by_cases hconnect : Request.isConnect method = true
      · simp only [Request.target, hconnect, if_true, Option.mem_def, Option.some.injEq] at hd
        subst hd
        simp only [hconnect, if_true, true_or]
        exact h.follows_tunnel_iff _ _
      · -- a plain request is for what its target resolves to
        obtain ⟨path, hres⟩ : ∃ path, resolvePlainHttpTarget target headers =
            some (d.1, d.2, path) := by
          simp only [Request.target, hconnect, Option.mem_def] at hd
          obtain ⟨res, hres, rfl⟩ := Option.map_eq_some_iff.mp hd
          exact ⟨res.2.2, hres⟩
        by_cases hdrive : ctx.mode = .drive
        · simp only [hconnect, hdrive, if_true, or_true, if_false, Bool.false_eq_true]
          exact follows_drive_iff h hdrive hres
        · simp only [hconnect, hdrive, if_false, or_self, Bool.false_eq_true]
          split_ifs
          · exact follows_relay_iff
          · exact follows_passthrough_iff hres

/-- **The routing policies hold at an entry point** exactly if it asks for them in a spelling that
they find, or if they have nothing to say. -/
theorem obeys_iff_notSkipped (ctx : RewriteCtx) (es : List ProxyEvent) :
    StepRun.AllStates step (fun s => ∀ r, s.Obeys r ↔ NotSkipped ctx s r) (new ctx) es :=
  StepRun.allStates_of_inv (fun _ _ _ h ht => h.step ht) (fun _ h r => h.obeys_iff r)
    (inv_new ctx) es

/-- A host that is to be left alone is asked for in plain HTTP, with the relay running; a DNS server
that is to be blocked, with no relay at all; and an IPv6 address that is to be left alone, in the
brackets that `CONNECT` has and SOCKS5 has not. -/
theorem passthrough_host_relayed :
    ¬ Obeys (new ⟨.appsScript, ["example.com".toList], [], true, false⟩)
        (.http "GET".toList "http://example.com/".toList [] true) ∧
      ¬ Obeys (new ⟨.direct, [], [], true, false⟩)
        (.http "GET".toList "https://dns.google/".toList [] true) ∧
      ¬ Obeys (new ⟨.appsScript, ["2001:db8::1".toList], [], true, false⟩)
        (.http "CONNECT".toList "[2001:db8::1]:443".toList [] true) ∧
      Obeys (new ⟨.appsScript, ["2001:db8::1".toList], [], true, false⟩)
        (.socks5 "2001:db8::1".toList 443) := by
  refine ⟨?_, ?_, ?_, ?_⟩
  · intro h
    have hout := h ("example.com".toList, 80) (by decide +kernel)
    rw [Follows, show classifyEarlyRoute _ "example.com".toList 80 = .passthroughHostsMatch by
      decide +kernel] at hout
    revert hout
    decide +kernel
  · intro h
    have hout := h ("dns.google".toList, 443) (by decide +kernel)
    rw [Follows, show classifyEarlyRoute _ "dns.google".toList 443 = .blockDoh by
      decide +kernel] at hout
    revert hout
    decide +kernel
  · intro h
    have hout := h ("2001:db8::1".toList, 443) (by decide +kernel)
    rw [Follows, show classifyEarlyRoute _ "2001:db8::1".toList 443 = .passthroughHostsMatch by
      decide +kernel] at hout
    revert hout
    decide +kernel
  · exact ((inv_new _).obeys_iff _).mpr fun d hd => by
      cases hd
      exact spelledAlike_of_bare (by decide +kernel)

end ProxyServer

end Rahgozar.Proxy
