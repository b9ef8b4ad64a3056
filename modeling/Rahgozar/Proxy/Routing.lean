import Rahgozar.Lib.Run
import Rahgozar.Drive.Peers

set_option autoImplicit false

/-! # Where a connection goes (`src/proxy_server.rs`)

A client reaches the proxy as an HTTP `CONNECT`, as a SOCKS5 `CONNECT`, or with a plain HTTP request
in absolute form. The file has the three entry points down to the choice of a route: what is read
from the socket afterwards, and the steps of `dispatch_tunnel` that need it, are one outcome here.
Host names and request targets are lists of characters.
-/

namespace Rahgozar.Proxy

open Drive (trim stripPrefix rsplitOnce parseUnsigned)

/-! ## Modes -/

inductive Mode where
  | appsScript
  | direct
  | full
  | localBypass
  | drive
deriving DecidableEq

namespace Mode

/-- `Mode::from_str` -/
def fromStr : String → Option Mode
  | "apps_script" => some .appsScript
  | "direct" => some .direct
  | "google_only" => some .direct
  | "full" => some .full
  | "local_bypass" => some .localBypass
  | "drive" => some .drive
  | _ => none

def usesAppsScriptRelay : Mode → Bool
  | .appsScript | .full => true
  | _ => false

end Mode

/-! ## Matching of host names -/

def toAsciiLowercase (text : List Char) : List Char := text.map Char.toLower

/-- `trim_end_matches('.')` -/
def trimEndDots (text : List Char) : List Char := (text.reverse.dropWhile (· = '.')).reverse

/-- The form in which a host is compared with the lists. -/
def canonicalHost (host : List Char) : List Char := trimEndDots (toAsciiLowercase host)

def defaultDohHosts : List String :=
  ["cloudflare-dns.com", "chrome.cloudflare-dns.com", "mozilla.cloudflare-dns.com",
    "1dot1dot1dot1.cloudflare-dns.com", "dns.google", "dns.google.com", "dns.quad9.net",
    "dns11.quad9.net", "dns.adguard-dns.com", "unfiltered.adguard-dns.com",
    "family.adguard-dns.com", "dns.nextdns.io", "doh.opendns.com", "doh.cleanbrowsing.org",
    "doh.dns.sb", "dns0.eu", "dns.alidns.com", "doh.pub", "dns.mullvad.net"]

/-- `h` is `e`, or ends in it after a dot. -/
def isOrEndsIn (h e : List Char) : Bool := h = e || ('.' :: e).isSuffixOf h

def hostMatchesDohEntry (h entry : List Char) : Bool :=
  let e := toAsciiLowercase (trimEndDots (trim entry))
  let e := (stripPrefix ['.'] e).getD e
  !e.isEmpty && isOrEndsIn h e

def matchesDohHost (host : List Char) (extra : List (List Char)) : Bool :=
  let h := canonicalHost host
  !h.isEmpty && ((defaultDohHosts.any fun s => hostMatchesDohEntry h s.toList) ||
    extra.any fun s => hostMatchesDohEntry h s)

def matchesPassthrough (host : List Char) (list : List (List Char)) : Bool :=
  let h := canonicalHost host
  list.any fun entry =>
    let e := toAsciiLowercase (trimEndDots (trim entry))
    !e.isEmpty &&
      match stripPrefix ['.'] e with
      | some suffix => isOrEndsIn h suffix
      | none => h = e

/-! ## The early route -/

inductive EarlyRoute where
  | passthroughHostsMatch
  | localBypass
  | blockDoh
  | bypassDoh
  | full
  | drive
  | continue_
deriving DecidableEq

/-- What a route is chosen by, of the fields of `RewriteCtx`. -/
structure RewriteCtx where
  mode : Mode
  passthroughHosts : List (List Char)
  bypassDohHosts : List (List Char)
  blockDoh : Bool
  bypassDoh : Bool
deriving DecidableEq

def classifyEarlyRoute (ctx : RewriteCtx) (host : List Char) (port : Nat) : EarlyRoute :=
  if matchesPassthrough host ctx.passthroughHosts then .passthroughHostsMatch
  else if ctx.blockDoh && port = 443 && matchesDohHost host ctx.bypassDohHosts then .blockDoh
  else if ctx.mode = .localBypass then .localBypass
  else if ctx.bypassDoh && port = 443 && matchesDohHost host ctx.bypassDohHosts then .bypassDoh
  else if ctx.mode = .drive then .drive
  else if ctx.mode = .full then .full
  else .continue_

theorem matchesPassthrough_congr {host host' : List Char} {list : List (List Char)}
    (h : canonicalHost host = canonicalHost host') :
    matchesPassthrough host list = matchesPassthrough host' list := by
  unfold matchesPassthrough
  rw [h]

theorem matchesDohHost_congr {host host' : List Char} {extra : List (List Char)}
    (h : canonicalHost host = canonicalHost host') :
    matchesDohHost host extra = matchesDohHost host' extra := by
  unfold matchesDohHost
  rw [h]

/-- The route looks at a host in its canonical form only. -/
theorem classifyEarlyRoute_congr {ctx : RewriteCtx} {host host' : List Char} {port : Nat}
    (h : canonicalHost host = canonicalHost host') :
    classifyEarlyRoute ctx host port = classifyEarlyRoute ctx host' port := by
  unfold classifyEarlyRoute
  rw [matchesPassthrough_congr h, matchesDohHost_congr h]

/-! ## Requests -/

inductive Request where
  /-- A parsed request head, with what reading its body comes to. -/
  | http (method target : List Char) (headers : List (List Char × List Char)) (bodyRead : Bool)
  /-- SOCKS5 `CONNECT`. -/
  | socks5 (host : List Char) (port : Nat)

def eqIgnoreAsciiCase (a b : List Char) : Bool := toAsciiLowercase a = toAsciiLowercase b

def parseHostPort (target : List Char) : List Char × Nat :=
  match rsplitOnce ':' target with
  | some (h, p) => (h, (parseUnsigned (2 ^ 16) p).getD 443)
  | none => (target, 443)

def splitAuthority (authority : List Char) (defaultPort : Nat) : List Char × Nat :=
  if 1 < authority.count ':' ∧ authority.head? ≠ some '[' then (authority, defaultPort)
  else
    match rsplitOnce ':' authority with
    | none => (authority, defaultPort)
    | some (h, p) =>
        match parseUnsigned (2 ^ 16) p with
        | some port => (h, port)
        | none => (authority, defaultPort)

/-- The absolute forms of `resolve_plain_http_target`. -/
def resolveAbsolute (rest : List Char) (defaultPort : Nat) :
    Option (List Char × Nat × List Char) :=
  let authority := rest.takeWhile (· ≠ '/')
  let path := if '/' ∈ rest then rest.dropWhile (· ≠ '/') else ['/']
  if authority.isEmpty then none
  else
    let (host, port) := splitAuthority authority defaultPort
    some (host, port, path)

def resolvePlainHttpTarget (target : List Char) (headers : List (List Char × List Char)) :
    Option (List Char × Nat × List Char) :=
  match stripPrefix "http://".toList target with
  | some rest => resolveAbsolute rest 80
  | none =>
      match stripPrefix "https://".toList target with
      | some rest => resolveAbsolute rest 443
      | none =>
          if target.head? = some '/' then
            (headers.find? fun h => eqIgnoreAsciiCase h.1 "host".toList).map fun h =>
              let (host, port) := splitAuthority h.2 80
              (host, port, target)
          else none

def Request.isConnect (method : List Char) : Bool := eqIgnoreAsciiCase method "CONNECT".toList

/-- The host and the port of a request as its entry point reads them: an HTTP target keeps the
brackets of an IPv6 address, SOCKS5 has none. -/
def Request.target : Request → Option (List Char × Nat)
  | .http method target headers _ =>
      if Request.isConnect method then some (parseHostPort target)
      else (resolvePlainHttpTarget target headers).map fun r => (r.1, r.2.1)
  | .socks5 host port => some (host, port)

/-- Brackets of an IPv6 address are taken off before the dial. -/
def targetHost (host : List Char) : List Char :=
  ((host.dropWhile (· = '[')).reverse.dropWhile (· = ']')).reverse

/-- What a request is for, whatever its entry point: the host that would be dialled, and the
port. -/
def Request.destination (r : Request) : Option (List Char × Nat) :=
  r.target.map fun d => (targetHost d.1, d.2)

/-! ## The entry points -/

/-- What becomes of a request. -/
inductive Outcome where
  /-- A TCP connection to the host itself, or through `upstream_socks5`. -/
  | rawTcp (host : List Char) (port : Nat)
  /-- Closed, or answered with an error, without a connection. -/
  | rejected
  /-- `try_local_bypass_tunnel` -/
  | fragmented (host : List Char) (port : Nat)
  /-- Through the tunnel mux, and through the Drive mux. -/
  | tunnel (host : List Char) (port : Nat)
  | driveTunnel (host : List Char) (port : Nat)
  /-- Through the Apps Script relay. -/
  | relayed (url : List Char)
  /-- On to the steps of `dispatch_tunnel` that read from the socket. -/
  | continue_ (host : List Char) (port : Nat)
deriving DecidableEq

/-- The bundle a connection is served with. -/
structure Handles where
  ctx : RewriteCtx
  fronter : Bool
  tunnelMux : Bool
  driveMux : Bool

def dispatchTunnel (s : Handles) (host : List Char) (port : Nat) : Outcome :=
  match classifyEarlyRoute s.ctx host port with
  | .passthroughHostsMatch => .rawTcp (targetHost host) port
  | .localBypass => .fragmented host port
  | .blockDoh => .rejected
  | .bypassDoh => .rawTcp (targetHost host) port
  | .full => if s.tunnelMux then .tunnel host port else .rejected
  | .drive => if s.driveMux then .driveTunnel host port else .rejected
  | .continue_ => .continue_ host port

/-- The URL a plain request is relayed with. -/
def relayUrl (target : List Char) (headers : List (List Char × List Char)) : List Char :=
  if "http://".toList.isPrefixOf target || "https://".toList.isPrefixOf target then target
  else
    let host := headers.find? fun h => eqIgnoreAsciiCase h.1 "host".toList
    "http://".toList ++ (host.map Prod.snd).getD [] ++ target

/-- `do_plain_http`: over the limit, or with a broken body, the request is not relayed. -/
def doPlainHttp (target : List Char) (headers : List (List Char × List Char)) (bodyRead : Bool) :
    Outcome :=
  if bodyRead then .relayed (relayUrl target headers) else .rejected

def doPlainHttpDrive (s : Handles) (target : List Char) (headers : List (List Char × List Char)) :
    Outcome :=
  match resolvePlainHttpTarget target headers with
  | none => .rejected
  | some (host, port, _) =>
      match classifyEarlyRoute s.ctx host port with
      | .blockDoh => .rejected
      | .drive => .driveTunnel (targetHost host) port
      | .passthroughHostsMatch | .bypassDoh | .localBypass | .full | .continue_ =>
          .rawTcp (targetHost host) port

def doPlainHttpPassthrough (target : List Char) (headers : List (List Char × List Char)) :
    Outcome :=
  match resolvePlainHttpTarget target headers with
  | none => .rejected
  | some (host, port, _) => .rawTcp (targetHost host) port

/-- `handle_http_client` and `handle_socks5_client`; `unreachable` is the negative cache of the
tunnel mux. -/
def handle (s : Handles) (unreachable : List Char → Nat → Bool) : Request → Outcome
  | .http method target headers bodyRead =>
      if Request.isConnect method then
        let (host, port) := parseHostPort target
        if s.tunnelMux && unreachable host port then .rejected else dispatchTunnel s host port
      else if s.ctx.mode = .drive then
        if s.driveMux then doPlainHttpDrive s target headers else .rejected
      else if s.fronter then doPlainHttp target headers bodyRead
      else doPlainHttpPassthrough target headers
  | .socks5 host port =>
      if s.tunnelMux && unreachable host port then .rejected else dispatchTunnel s host port

end Rahgozar.Proxy
