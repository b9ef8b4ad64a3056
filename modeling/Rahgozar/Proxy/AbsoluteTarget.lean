import Mathlib.Data.List.TakeWhile
import Rahgozar.Drive.Names
import Rahgozar.Proxy.Routing

set_option autoImplicit false

/-! # Request targets in absolute form (`src/proxy_server.rs`)

A plain HTTP request names its target as a URI. `resolve_plain_http_target` takes it apart by
searching for `/` and `:`, and `rewrite_plain_http_request_head` puts what it found into the request
that is sent on. The URIs are those of RFC 3986 with the schemes `http` and `https`: a host, behind
it a port, a path and a query that may be missing, and in front of it a user.
-/

namespace Rahgozar.Proxy

open Drive (stripPrefix rsplitOnce parseUnsigned)

/-! ## The request that is sent on -/

/-- The headers that are not sent on, in lower case. -/
def hopByHopHeaders : List String :=
  ["proxy-authorization", "proxy-connection", "connection", "keep-alive"]

def requestLine (method path version : List Char) : List Char :=
  method ++ ' ' :: (path ++ ' ' :: (version ++ "\r\n".toList))

def headerLine (h : List Char × List Char) : List Char :=
  if hopByHopHeaders.any fun name => toAsciiLowercase h.1 = name.toList then []
  else h.1 ++ ": ".toList ++ h.2 ++ "\r\n".toList

/-- `rewrite_plain_http_request_head` -/
def rewritePlainHttpRequestHead (method version : List Char)
    (headers : List (List Char × List Char))
    (path : List Char) : List Char :=
  requestLine method path version ++
    (headers.flatMap headerLine ++ "Connection: close\r\n\r\n".toList)

/-- The host and the port that `do_plain_http_passthrough` connects to, and the head it sends
there. -/
def plainHttpForward (method version target : List Char) (headers : List (List Char × List Char)) :
    Option (List Char × Nat × List Char) :=
  (resolvePlainHttpTarget target headers).map fun (host, port, path) =>
    (host, port, rewritePlainHttpRequestHead method version headers path)

/-! ## URIs -/

def isRegNameChar (c : Char) : Bool := c.isAlphanum || "-._~!$&'()*+,;=%".toList.contains c

def isUserinfoChar (c : Char) : Bool := isRegNameChar c || c = ':'

/-- A character of an IP literal between its brackets. -/
def isLiteralChar (c : Char) : Bool := isRegNameChar c || c = ':'

def isPathChar (c : Char) : Bool := isUserinfoChar c || c = '@' || c = '/'

def isQueryChar (c : Char) : Bool := isPathChar c || c = '?'

/-- A host: a registered name or an IPv4 address, or an address in brackets. -/
def IsHost (host : List Char) : Prop :=
  (host ≠ [] ∧ ∀ c ∈ host, isRegNameChar c = true) ∨
    ∃ addr, host = '[' :: (addr ++ [']']) ∧ ∀ c ∈ addr, isLiteralChar c = true

/-- The digits of a port. -/
structure IsPort (digits : List Char) : Prop where
  ne_nil : digits ≠ []
  all_digits : ∀ c ∈ digits, c.isDigit = true
  lt : Nat.ofDigitChars 10 digits 0 < 2 ^ 16

/-- An absolute URI of HTTP, without a fragment. A scheme is spelled in any case. -/
structure Uri where
  scheme : List Char
  userinfo : Option (List Char)
  host : List Char
  port : Option (List Char)
  path : List Char
  query : Option (List Char)
  scheme_http : toAsciiLowercase scheme = "http".toList ∨ toAsciiLowercase scheme = "https".toList
  userinfo_chars : ∀ user ∈ userinfo, ∀ c ∈ user, isUserinfoChar c = true
  host_ok : IsHost host
  port_ok : ∀ digits ∈ port, IsPort digits
  path_start : path = [] ∨ path.head? = some '/'
  path_chars : ∀ c ∈ path, isPathChar c = true
  query_chars : ∀ q ∈ query, ∀ c ∈ q, isQueryChar c = true

namespace Uri

def portText (u : Uri) : List Char := (u.port.map (':' :: ·)).getD []

def authority (u : Uri) : List Char :=
  (u.userinfo.map (· ++ ['@'])).getD [] ++ (u.host ++ u.portText)

def queryText (u : Uri) : List Char := (u.query.map ('?' :: ·)).getD []

def text (u : Uri) : List Char :=
  u.scheme ++ ("://".toList ++ (u.authority ++ (u.path ++ u.queryText)))

/-- The port the URI names, or the one of its scheme. -/
def portNumber (u : Uri) : Nat :=
  match u.port with
  | some digits => Nat.ofDigitChars 10 digits 0
  | none => if toAsciiLowercase u.scheme = "http".toList then 80 else 443

/-- The path and the query; an empty path is `/`. -/
def originForm (u : Uri) : List Char := (if u.path = [] then ['/'] else u.path) ++ u.queryText

/-- The target is resolved to the parts of the URI, and they are where the request is sent and what
its line says. -/
def Named (u : Uri) (method version : List Char) (headers : List (List Char × List Char)) : Prop :=
  resolvePlainHttpTarget u.text headers = some (u.host, u.portNumber, u.originForm) ∧
    ∃ rest, plainHttpForward method version u.text headers =
      some (u.host, u.portNumber, requestLine method u.originForm version ++ rest)

/-- The scheme in lower case, no user, and no query without a path. -/
def Simple (u : Uri) : Prop :=
  (u.scheme = "http".toList ∨ u.scheme = "https".toList) ∧ u.userinfo = none ∧
    (u.path = [] → u.query = none)

end Uri

/-! ## Splitting the authority -/

theorem notMem_of_isPort {digits : List Char} (h : IsPort digits) {c : Char}
    (hc : c.isDigit = false) : c ∉ digits := by
  intro hmem
  rw [h.all_digits c hmem] at hc
  cases hc

theorem parseUnsigned_of_isPort {digits : List Char} (h : IsPort digits) :
    parseUnsigned (2 ^ 16) digits = some (Nat.ofDigitChars 10 digits 0) := by
  have hplus : Drive.digitsOf digits = digits := by
    refine Drive.digitsOf_of_head fun hhead => ?_
    exact notMem_of_isPort h (by decide) (List.mem_of_head? hhead)
  refine Drive.parseUnsigned_eq_some_iff.mpr ⟨⟨?_, ?_, ?_⟩, ?_⟩
  · rw [hplus]
    exact h.ne_nil
  · rw [hplus]
    exact h.all_digits
  · rw [hplus]
    exact h.lt
  · rw [hplus]

/-- A number has digits and a sign only. -/
theorem notMem_of_parseUnsigned {size n : Nat} {text : List Char}
    (h : parseUnsigned size text = some n) {c : Char} (hdigit : c.isDigit = false)
    (hplus : c ≠ '+') :
    c ∉ text := by
  obtain ⟨hnumber, -⟩ := Drive.parseUnsigned_eq_some_iff.mp h
  intro hmem
  have hdigits : c ∉ Drive.digitsOf text := by
    intro hin
    rw [hnumber.digits c hin] at hdigit
    cases hdigit
  unfold Drive.digitsOf at hdigits
  split at hdigits
  · obtain heq | hrest := List.mem_cons.mp hmem
    · exact hplus heq
    · exact hdigits hrest
  · exact hdigits hmem

/-- A host keeps its colons in brackets. -/
theorem colon_of_isHost {host : List Char} (h : IsHost host) :
    ':' ∉ host ∨ host.head? = some '[' := by
  obtain ⟨-, hchars⟩ | ⟨addr, rfl, -⟩ := h
  · exact Or.inl fun hmem => absurd (hchars _ hmem) (by decide)
  · exact Or.inr rfl

theorem isHost_ne_nil {host : List Char} (h : IsHost host) : host ≠ [] := by
  obtain ⟨hne, -⟩ | ⟨addr, rfl, -⟩ := h
  · exact hne
  · exact List.cons_ne_nil _ _

/-- A character outside of hosts is not in one. -/
theorem notMem_of_isHost {host : List Char} (h : IsHost host) {c : Char}
    (hname : isRegNameChar c = false) (hcolon : c ≠ ':') (hopen : c ≠ '[') (hclose : c ≠ ']') :
    c ∉ host := by
  intro hmem
  obtain ⟨-, hchars⟩ | ⟨addr, rfl, hchars⟩ := h
  · rw [hchars c hmem] at hname
    cases hname
  · obtain heq | hin := List.mem_cons.mp hmem
    · exact hopen heq
    · obtain haddr | hend := List.mem_append.mp hin
      · have hliteral := hchars c haddr
        unfold isLiteralChar at hliteral
        rw [hname, Bool.false_or, decide_eq_true_iff] at hliteral
        exact hcolon hliteral
      · exact hclose (List.mem_singleton.mp hend)

/-- A host and a port are found. -/
theorem splitAuthority_port {host digits : List Char} (h : IsHost host) (hport : IsPort digits)
    (defaultPort : Nat) :
    splitAuthority (host ++ ':' :: digits) defaultPort =
      (host, Nat.ofDigitChars 10 digits 0) := by
  have hcolon : ':' ∉ digits := notMem_of_isPort hport (by decide)
  have hone : ¬ (1 < (host ++ ':' :: digits).count ':' ∧
      (host ++ ':' :: digits).head? ≠ some '[') := by
    rintro ⟨hcount, hhead⟩
    obtain hnone | hopen := colon_of_isHost h
    · rw [List.count_append, List.count_eq_zero.mpr hnone, List.count_cons_self,
        List.count_eq_zero.mpr hcolon] at hcount
      exact absurd hcount (by decide)
    · rw [List.head?_append, hopen] at hhead
      exact hhead rfl
  unfold splitAuthority
  rw [if_neg hone, Drive.rsplitOnce_append host hcolon]
  simp only [parseUnsigned_of_isPort hport]

/-- A host without a port is found. -/
theorem splitAuthority_host {host : List Char} (h : IsHost host) (defaultPort : Nat) :
    splitAuthority host defaultPort = (host, defaultPort) := by
  unfold splitAuthority
  split
  · rfl
  · cases hsplit : rsplitOnce ':' host with
    | none => rfl
    | some parts =>
        obtain ⟨before, after⟩ := parts
        obtain ⟨heq, -⟩ := Drive.rsplitOnce_eq_some hsplit
        -- The last colon is inside the brackets, so what is behind it is not a number.
        have hclose : ']' ∈ after := by
          obtain ⟨-, hchars⟩ | ⟨addr, haddr, -⟩ := h
          · exact absurd (hchars ':' (heq ▸ List.mem_append_right _ List.mem_cons_self)) (by decide)
          · have hlast : (before ++ ':' :: after).getLast? = some ']' := by
              rw [← heq, haddr, ← List.cons_append, List.getLast?_concat]
            rw [List.getLast?_append, List.getLast?_cons] at hlast
            have hafter : after.getLast?.getD ':' = ']' := Option.some.inj hlast
            cases hend : after.getLast? with
            | none =>
                rw [hend] at hafter
                exact absurd hafter (by decide)
            | some c =>
                rw [hend] at hafter
                exact List.mem_of_getLast? (hend.trans (congrArg some hafter))
        have hparse : parseUnsigned (2 ^ 16) after = none := by
          cases hnumber : parseUnsigned (2 ^ 16) after with
          | none => rfl
          | some n => exact absurd hclose (notMem_of_parseUnsigned hnumber (by decide) (by decide))
        simp only [hparse]

/-- What is neither a digit nor a sign stays in the host. -/
theorem mem_splitAuthority {authority : List Char} {c : Char} (hmem : c ∈ authority)
    (hdigit : c.isDigit = false) (hplus : c ≠ '+') (hcolon : c ≠ ':') (defaultPort : Nat) :
    c ∈ (splitAuthority authority defaultPort).1 := by
  unfold splitAuthority
  split
  · exact hmem
  · split
    · exact hmem
    · rename_i before after hsplit
      split
      · rename_i port hport
        obtain ⟨rfl, -⟩ := Drive.rsplitOnce_eq_some hsplit
        obtain hbefore | hafter := List.mem_append.mp hmem
        · exact hbefore
        · obtain heq | hin := List.mem_cons.mp hafter
          · exact absurd heq hcolon
          · exact absurd hin (notMem_of_parseUnsigned hport hdigit hplus)
      · exact hmem

/-! ## Resolving a URI -/

theorem slash_notMem_authority (u : Uri) : '/' ∉ u.authority := by
  have hhost : '/' ∉ u.host := notMem_of_isHost u.host_ok (by decide) (by decide) (by decide)
    (by decide)
  unfold Uri.authority Uri.portText
  intro hmem
  obtain huser | hrest := List.mem_append.mp hmem
  · cases huserinfo : u.userinfo with
    | none =>
        rw [huserinfo] at huser
        cases huser
    | some user =>
        rw [huserinfo] at huser
        obtain hin | hat := List.mem_append.mp huser
        · exact absurd (u.userinfo_chars user huserinfo _ hin) (by decide)
        · exact absurd (List.mem_singleton.mp hat) (by decide)
  · obtain hin | hport := List.mem_append.mp hrest
    · exact hhost hin
    · cases hp : u.port with
      | none =>
          rw [hp] at hport
          cases hport
      | some digits =>
          rw [hp] at hport
          obtain heq | hdigit := List.mem_cons.mp hport
          · exact absurd heq (by decide)
          · exact notMem_of_isPort (u.port_ok digits hp) (by decide) hdigit

theorem authority_ne_nil (u : Uri) : u.authority ≠ [] := by
  intro h
  have hrest := (List.append_eq_nil_iff.mp h).2
  exact isHost_ne_nil u.host_ok (List.append_eq_nil_iff.mp hrest).1

/-- The text up to the first slash, and the rest. -/
theorem takeWhile_slash {front : List Char} (rest : List Char) (h : '/' ∉ front) :
    (front ++ '/' :: rest).takeWhile (· ≠ '/') = front ∧
      (front ++ '/' :: rest).dropWhile (· ≠ '/') = '/' :: rest := by
  have hall : ∀ c ∈ front, decide (c ≠ '/') = true :=
    fun c hc => decide_eq_true fun heq => h (heq ▸ hc)
  rw [List.takeWhile_append_of_pos hall, List.dropWhile_append_of_pos hall]
  exact ⟨by simp, by simp⟩

/-- An authority with a path behind it. -/
theorem resolveAbsolute_path {front rest : List Char} (h : '/' ∉ front) (hne : front ≠ [])
    (defaultPort : Nat) :
    resolveAbsolute (front ++ '/' :: rest) defaultPort =
      some ((splitAuthority front defaultPort).1, (splitAuthority front defaultPort).2,
        '/' :: rest) := by
  obtain ⟨htake, hdrop⟩ := takeWhile_slash rest h
  have hmem : '/' ∈ front ++ '/' :: rest := List.mem_append_right _ List.mem_cons_self
  have hempty : ¬ front.isEmpty = true := fun hnil => hne (List.isEmpty_iff.mp hnil)
  unfold resolveAbsolute
  simp only [htake, hdrop]
  rw [if_pos hmem, if_neg hempty]

/-- An authority with nothing behind it. -/
theorem resolveAbsolute_bare {front : List Char} (h : '/' ∉ front) (hne : front ≠ [])
    (defaultPort : Nat) :
    resolveAbsolute front defaultPort =
      some ((splitAuthority front defaultPort).1, (splitAuthority front defaultPort).2, ['/']) := by
  have htake : front.takeWhile (· ≠ '/') = front :=
    List.takeWhile_eq_self_iff.mpr fun c hc => decide_eq_true fun heq => h (heq ▸ hc)
  have hempty : ¬ front.isEmpty = true := fun hnil => hne (List.isEmpty_iff.mp hnil)
  unfold resolveAbsolute
  simp only [htake]
  rw [if_neg h, if_neg hempty]

/-- The host that is found keeps what is in front of the first slash and is neither a digit, a sign
nor a colon. -/
theorem mem_host_of_resolveAbsolute {rest host path : List Char} {defaultPort port : Nat} {c : Char}
    (h : resolveAbsolute rest defaultPort = some (host, port, path))
    (hmem : c ∈ rest.takeWhile (· ≠ '/')) (hdigit : c.isDigit = false) (hplus : c ≠ '+')
    (hcolon : c ≠ ':') : c ∈ host := by
  have hin := mem_splitAuthority hmem hdigit hplus hcolon defaultPort
  unfold resolveAbsolute at h
  simp only at h
  split at h
  · cases h
  · cases h
    exact hin

/-- The authority of a URI without a user is split into its host and its port. -/
theorem splitAuthority_uri (u : Uri) (huser : u.userinfo = none) (defaultPort : Nat)
    (hdefault : defaultPort = if toAsciiLowercase u.scheme = "http".toList then 80 else 443) :
    splitAuthority u.authority defaultPort = (u.host, u.portNumber) := by
  unfold Uri.authority Uri.portText Uri.portNumber
  rw [huser]
  cases hport : u.port with
  | none =>
      show splitAuthority ([] ++ (u.host ++ [])) defaultPort = (u.host, _)
      rw [List.nil_append, List.append_nil, splitAuthority_host u.host_ok, hdefault]
  | some digits =>
      show splitAuthority ([] ++ (u.host ++ ':' :: digits)) defaultPort = (u.host, _)
      rw [List.nil_append, splitAuthority_port u.host_ok (u.port_ok digits hport)]

/-- What is behind the scheme. -/
def Uri.behindScheme (u : Uri) : List Char := u.authority ++ (u.path ++ u.queryText)

theorem resolveAbsolute_simple (u : Uri) (huser : u.userinfo = none)
    (hquery : u.path = [] → u.query = none) (defaultPort : Nat)
    (hdefault : defaultPort = if toAsciiLowercase u.scheme = "http".toList then 80 else 443) :
    resolveAbsolute u.behindScheme defaultPort = some (u.host, u.portNumber, u.originForm) := by
  have hslash := slash_notMem_authority u
  have hne := authority_ne_nil u
  have hsplit := splitAuthority_uri u huser defaultPort hdefault
  unfold Uri.behindScheme Uri.originForm
  cases hpath : u.path with
  | nil =>
      have hnone : u.queryText = [] := by rw [Uri.queryText, hquery hpath]; rfl
      rw [hnone, List.append_nil, List.append_nil, resolveAbsolute_bare hslash hne, hsplit,
        if_pos rfl, List.append_nil]
  | cons c path =>
      have hc : c = '/' := by
        obtain hnil | hhead := u.path_start
        · rw [hpath] at hnil
          cases hnil
        · rw [hpath] at hhead
          exact Option.some.inj hhead
      subst hc
      rw [List.cons_append, resolveAbsolute_path hslash hne, hsplit, if_neg (List.cons_ne_nil _ _),
        List.cons_append]

/-- A character of the authority stays in front of the first slash. -/
theorem mem_takeWhile_authority {u : Uri} {c : Char} (h : c ∈ u.authority) :
    c ∈ u.behindScheme.takeWhile (· ≠ '/') := by
  have hall : ∀ d ∈ u.authority, decide (d ≠ '/') = true :=
    fun d hd => decide_eq_true fun heq => slash_notMem_authority u (heq ▸ hd)
  unfold Uri.behindScheme
  rw [List.takeWhile_append_of_pos hall]
  exact List.mem_append_left _ h

/-- A user, or a query without a path, ends up in the host. -/
theorem simple_of_resolveAbsolute (u : Uri) {defaultPort port : Nat} {path : List Char}
    (h : resolveAbsolute u.behindScheme defaultPort = some (u.host, port, path)) :
    u.userinfo = none ∧ (u.path = [] → u.query = none) := by
  constructor
  · cases huser : u.userinfo with
    | none => rfl
    | some user =>
        have hat : '@' ∈ u.authority := by
          unfold Uri.authority
          rw [huser]
          exact List.mem_append_left _ (List.mem_append_right _ List.mem_cons_self)
        have hin := mem_host_of_resolveAbsolute h (mem_takeWhile_authority hat) (by decide)
          (by decide) (by decide)
        exact absurd hin
          (notMem_of_isHost u.host_ok (by decide) (by decide) (by decide) (by decide))
  · intro hpath
    cases hquery : u.query with
    | none => rfl
    | some q =>
        have hmark : '?' ∈ u.behindScheme.takeWhile (· ≠ '/') := by
          have hall : ∀ d ∈ u.authority ++ ['?'], decide (d ≠ '/') = true := by
            intro d hd
            obtain hin | hlast := List.mem_append.mp hd
            · exact decide_eq_true fun heq => slash_notMem_authority u (heq ▸ hin)
            · rw [List.mem_singleton.mp hlast]
              decide
          have htext : u.behindScheme = u.authority ++ ['?'] ++ q := by
            unfold Uri.behindScheme Uri.queryText
            rw [hpath, hquery, List.append_assoc]
            rfl
          rw [htext, List.takeWhile_append_of_pos hall]
          exact List.mem_append_left _ (List.mem_append_right _ List.mem_cons_self)
        have hin := mem_host_of_resolveAbsolute h hmark (by decide) (by decide) (by decide)
        exact absurd hin
          (notMem_of_isHost u.host_ok (by decide) (by decide) (by decide) (by decide))

/-! ## Schemes -/

theorem stripPrefix_append (start rest : List Char) :
    stripPrefix start (start ++ rest) = some rest := by
  unfold stripPrefix
  rw [if_pos (List.isPrefixOf_iff_prefix.mpr (List.prefix_append _ _)), List.drop_left]

theorem text_eq (u : Uri) : u.text = u.scheme ++ ("://".toList ++ u.behindScheme) := rfl

theorem resolve_http {u : Uri} (h : u.scheme = "http".toList)
    (headers : List (List Char × List Char)) :
    resolvePlainHttpTarget u.text headers = resolveAbsolute u.behindScheme 80 := by
  have htext : u.text = "http://".toList ++ u.behindScheme := by
    rw [text_eq, h]
    rfl
  unfold resolvePlainHttpTarget
  rw [htext, stripPrefix_append]

theorem resolve_https {u : Uri} (h : u.scheme = "https".toList)
    (headers : List (List Char × List Char)) :
    resolvePlainHttpTarget u.text headers = resolveAbsolute u.behindScheme 443 := by
  have htext : u.text = "https://".toList ++ u.behindScheme := by
    rw [text_eq, h]
    rfl
  have hhttp : stripPrefix "http://".toList ("https://".toList ++ u.behindScheme) = none := rfl
  unfold resolvePlainHttpTarget
  rw [htext, hhttp, stripPrefix_append]

/-- A text that begins with the scheme and with another text of its length. -/
theorem scheme_eq_of_text {u : Uri} (start rest : List Char) (h : u.text = start ++ rest)
    (hlen : u.scheme.length = start.length) : u.scheme = start :=
  List.append_inj_left h hlen

/-- The scheme is looked for in lower case. -/
theorem scheme_of_resolve {u : Uri} {headers : List (List Char × List Char)}
    {r : List Char × Nat × List Char} (h : resolvePlainHttpTarget u.text headers = some r) :
    u.scheme = "http".toList ∨ u.scheme = "https".toList := by
  have hlen : u.scheme.length = (toAsciiLowercase u.scheme).length := (List.length_map _).symm
  unfold resolvePlainHttpTarget at h
  cases hhttp : stripPrefix "http://".toList u.text with
  | some rest =>
      have htext := Drive.stripPrefix_eq_some hhttp
      obtain hscheme | hscheme := u.scheme_http
      · rw [hscheme] at hlen
        exact Or.inl (scheme_eq_of_text _ ("://".toList ++ rest) htext hlen)
      · -- Five characters of the scheme, the last of them a colon.
        rw [hscheme] at hlen
        have heq := scheme_eq_of_text "http:".toList ("//".toList ++ rest) htext hlen
        rw [heq] at hscheme
        exact absurd hscheme (by decide)
  | none =>
      cases hhttps : stripPrefix "https://".toList u.text with
      | some rest =>
          have htext := Drive.stripPrefix_eq_some hhttps
          obtain hscheme | hscheme := u.scheme_http
          · rw [hscheme] at hlen
            exact Or.inl (scheme_eq_of_text _ ("s://".toList ++ rest) htext hlen)
          · rw [hscheme] at hlen
            exact Or.inr (scheme_eq_of_text _ ("://".toList ++ rest) htext hlen)
      | none =>
          simp only [hhttp, hhttps] at h
          split at h
          · rename_i hslash
            exfalso
            cases hscheme : u.scheme with
            | nil =>
                have hlower := u.scheme_http
                rw [hscheme] at hlower
                exact absurd hlower (by decide)
            | cons c scheme =>
                rw [text_eq, hscheme] at hslash
                have hc : c = '/' := Option.some.inj hslash
                have hlower := u.scheme_http
                rw [hscheme, hc] at hlower
                obtain heq | heq := hlower
                · exact absurd (List.cons.inj heq).1 (by decide)
                · exact absurd (List.cons.inj heq).1 (by decide)
          · cases h

/-! ## The targets that are resolved to their parts -/

theorem resolve_of_simple {u : Uri} (h : u.Simple) (headers : List (List Char × List Char)) :
    resolvePlainHttpTarget u.text headers = some (u.host, u.portNumber, u.originForm) := by
  obtain ⟨hhttp | hhttps, huser, hquery⟩ := h
  · rw [resolve_http hhttp]
    exact resolveAbsolute_simple u huser hquery 80 (by rw [hhttp]; rfl)
  · rw [resolve_https hhttps]
    exact resolveAbsolute_simple u huser hquery 443 (by rw [hhttps]; rfl)

theorem simple_of_resolve {u : Uri} {headers : List (List Char × List Char)} {port : Nat}
    {path : List Char} (h : resolvePlainHttpTarget u.text headers = some (u.host, port, path)) :
    u.Simple := by
  obtain hhttp | hhttps := scheme_of_resolve h
  · rw [resolve_http hhttp] at h
    exact ⟨Or.inl hhttp, simple_of_resolveAbsolute u h⟩
  · rw [resolve_https hhttps] at h
    exact ⟨Or.inr hhttps, simple_of_resolveAbsolute u h⟩

/-- **Which targets are taken apart as URIs.** Those whose scheme is in lower case, without a user,
and without a query that has no path in front of it. -/
theorem uriNamed_iff (u : Uri) (method version : List Char)
    (headers : List (List Char × List Char)) : u.Named method version headers ↔ u.Simple := by
  constructor
  · rintro ⟨hresolve, -⟩
    exact simple_of_resolve hresolve
  · intro h
    have hresolve := resolve_of_simple h headers
    refine ⟨hresolve, headers.flatMap headerLine ++ "Connection: close\r\n\r\n".toList, ?_⟩
    unfold plainHttpForward
    rw [hresolve]
    rfl

/-- `http://user@example.com/` -/
def userUri : Uri where
  scheme := "http".toList
  userinfo := some "user".toList
  host := "example.com".toList
  port := none
  path := "/".toList
  query := none
  scheme_http := Or.inl (by decide)
  userinfo_chars := by
    rintro _ ⟨⟩
    exact List.all_eq_true.mp rfl
  host_ok := Or.inl ⟨by decide, List.all_eq_true.mp rfl⟩
  port_ok := fun _ h => nomatch h
  path_start := Or.inr rfl
  path_chars := List.all_eq_true.mp rfl
  query_chars := fun _ h => nomatch h

/-- With a user in front of the host, the user is taken for a part of it. -/
theorem user_taken_for_host :
    resolvePlainHttpTarget userUri.text [] = some ("user@example.com".toList, 80, "/".toList) ∧
      ¬ userUri.Named "GET".toList "HTTP/1.1".toList [] := by
  refine ⟨by decide, ?_⟩
  rintro ⟨hresolve, -⟩
  exact absurd hresolve (by decide)

end Rahgozar.Proxy
