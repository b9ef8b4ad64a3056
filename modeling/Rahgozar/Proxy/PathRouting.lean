import Rahgozar.Drive.Destination
import Rahgozar.Drive.Names
import Rahgozar.Settings.WhiteSpace

set_option autoImplicit false

/-! # Routing by path (`src/proxy_server.rs`)

A pattern of `relay_url_patterns` sends a part of a Google host over the relay: its host is pulled
out of the SNI rewrite, so that the paths can be seen, and what no pattern names goes to the Google
edge by `forward_via_sni_rewrite_http`. The patterns are normalised at startup, and hosts and URLs
are compared with them in three more places.
-/

namespace Rahgozar.Proxy

open Drive (trim stripPrefix)
open Distinct (firstOfEach)
open Settings (Text noScheme patternHost validateRelayUrlPattern)

/-! ## The lists -/

def sniRewriteSuffixes : List String :=
  ["google.com", "gstatic.com", "googleusercontent.com", "googleapis.com", "ggpht.com",
    "youtube.com", "youtu.be", "youtube-nocookie.com", "ytimg.com", "gvt1.com", "gvt2.com",
    "doubleclick.net", "googlesyndication.com", "googleadservices.com", "google-analytics.com",
    "googletagmanager.com", "googletagservices.com", "fonts.googleapis.com", "blogspot.com",
    "blogger.com"]

def youtubeRelayHosts : List String :=
  ["youtube.com", "youtu.be", "youtube-nocookie.com", "youtubei.googleapis.com"]

def defaultRelayUrlPatterns : List String := ["youtube.com/youtubei/"]

/-- One of the entries is the host, or a domain it is in. -/
def inList (h : Text) (list : List Text) : Bool := list.any fun e => isOrEndsIn h e

/-! ## At startup -/

def normalizePattern (raw : Text) : Text :=
  let rest := noScheme (toAsciiLowercase (trim raw))
  trimEndDots (rest.takeWhile (· ≠ '/')) ++ rest.dropWhile (· ≠ '/')

def hostMatchesYoutubeRelay (host : Text) : Bool :=
  inList (canonicalHost host) (youtubeRelayHosts.map String.toList)

def hostIsSniRewriteCapable (host : Text) : Bool :=
  inList (canonicalHost host) (sniRewriteSuffixes.map String.toList)

/-- The host of a normalised pattern, as the startup reads it. -/
def hostPart (p : Text) : Text := (p.takeWhile (· ≠ '/')).dropWhile (· = '.')

structure ResolvedRouting where
  youtubeViaRelayEffective : Bool
  relayUrlPatterns : List Text
  forceMitmHosts : List Text
  skippedForceMitmHosts : List Text
  suppressedYtPatterns : List Text
  exitNodeFullModeActive : Bool

def exitNodeFullMode (config : Settings.Config) : Bool :=
  config.exitNode.enabled && eqIgnoreAsciiCase config.exitNode.mode "full".toList &&
    !config.exitNode.relayUrl.isEmpty && !config.exitNode.psk.isEmpty

/-- The user's patterns. An entry of white space is passed over. -/
def userPatterns (config : Settings.Config) : List Text :=
  (config.relayUrlPatterns.filter fun p => !(trim p).isEmpty).map fun p => normalizePattern (trim p)

def ResolvedRouting.fromConfig (config : Settings.Config) (mode : Mode) : ResolvedRouting :=
  let exitNodeFullModeActive := exitNodeFullMode config && mode = .appsScript
  let youtubeViaRelayEffective := config.youtubeViaRelay || exitNodeFullModeActive
  let suppressed := fun p => youtubeViaRelayEffective && hostMatchesYoutubeRelay (hostPart p)
  let relayUrlPatterns :=
    if mode = .appsScript then
      firstOfEach id
        ((if youtubeViaRelayEffective then [] else defaultRelayUrlPatterns.map String.toList) ++
          (userPatterns config).filter fun p => !suppressed p)
    else []
  let suppressedYtPatterns :=
    if mode = .appsScript then (userPatterns config).filter suppressed else []
  let hosts := firstOfEach id ((relayUrlPatterns.map hostPart).filter fun host => !host.isEmpty)
  { youtubeViaRelayEffective
    relayUrlPatterns
    forceMitmHosts := hosts.filter hostIsSniRewriteCapable
    skippedForceMitmHosts := hosts.filter fun host => !hostIsSniRewriteCapable host
    suppressedYtPatterns
    exitNodeFullModeActive }

/-! ## At dispatch -/

def hostInForceMitmList (host : Text) (list : List Text) : Bool := inList (canonicalHost host) list

def matchesSniRewrite (host : Text) (youtubeViaRelay : Bool) (forceMitmHosts : List Text) : Bool :=
  let h := canonicalHost host
  if youtubeViaRelay && inList h (youtubeRelayHosts.map String.toList) then false
  else if inList h forceMitmHosts then false
  else inList h (sniRewriteSuffixes.map String.toList)

/-- The address for the host, or for the nearest of the domains it is in. -/
def hostsOverride (hosts : List (Text × Text)) (host : Text) : Option Text :=
  let parts := (canonicalHost host).splitOn '.'
  (hosts.lookup (canonicalHost host)).orElse fun _ =>
    (parts.tail.tails.filter (· ≠ [])).findSome? fun parent =>
      hosts.lookup (List.intercalate ['.'] parent)

def shouldUseSniRewrite (hosts : List (Text × Text)) (host : Text) (port : Nat)
    (youtubeViaRelay : Bool) (forceMitmHosts : List Text) : Bool :=
  if port ≠ 443 then false
  else if hostInForceMitmList host forceMitmHosts then false
  else matchesSniRewrite host youtubeViaRelay forceMitmHosts || (hostsOverride hosts host).isSome

/-! ## In a MITM session -/

/-- The path of a URL or a pattern, which is `/` where there is none. -/
def pathOf (text : Text) : Text :=
  match text.dropWhile (· ≠ '/') with
  | [] => ['/']
  | path => path

def urlMatchesRelayPattern (url : Text) (patterns : List Text) : Bool :=
  let stripped := noScheme (toAsciiLowercase url)
  let rawHost := stripped.takeWhile (· ≠ '/')
  let urlHost := trimEndDots (rawHost.takeWhile (· ≠ ':'))
  patterns.any fun p =>
    isOrEndsIn urlHost (p.takeWhile (· ≠ '/')) && (pathOf p).isPrefixOf (pathOf stripped)

/-- A request that `handle_mitm_request` has read. The path is as it goes into the URL. -/
structure MitmRequest where
  method : Text
  scheme : Text
  host : Text
  port : Nat
  path : Text

namespace MitmRequest

def url (q : MitmRequest) : Text :=
  let defaultPort := if q.scheme = "https".toList then 443 else 80
  if q.port = defaultPort then q.scheme ++ "://".toList ++ q.host ++ q.path
  else q.scheme ++ "://".toList ++ q.host ++ [':'] ++ (toString q.port).toList ++ q.path

/-- `forwarder_eligible` -/
def forwarderEligible (r : ResolvedRouting) (q : MitmRequest) : Bool :=
  let methodIsSafeForForwarder := eqIgnoreAsciiCase q.method "GET".toList ||
    eqIgnoreAsciiCase q.method "HEAD".toList || eqIgnoreAsciiCase q.method "OPTIONS".toList
  q.scheme = "https".toList && q.port = 443 && methodIsSafeForForwarder &&
    !r.exitNodeFullModeActive && !r.relayUrlPatterns.isEmpty &&
    hostInForceMitmList q.host r.forceMitmHosts &&
    !urlMatchesRelayPattern q.url r.relayUrlPatterns

/-- The request goes to `forward_via_sni_rewrite_http`: its connection has not been tunnelled, it is
no preflight, which is answered before, and it is eligible. -/
def isForwarded (r : ResolvedRouting) (hosts : List (Text × Text)) (q : MitmRequest) : Bool :=
  !shouldUseSniRewrite hosts q.host q.port r.youtubeViaRelayEffective r.forceMitmHosts &&
    !eqIgnoreAsciiCase q.method "OPTIONS".toList && q.forwarderEligible r

end MitmRequest

/-! ## Domains -/

theorem isOrEndsIn_iff {h e : Text} : isOrEndsIn h e = true ↔ h = e ∨ '.' :: e <:+ h := by
  unfold isOrEndsIn
  rw [Bool.or_eq_true, decide_eq_true_eq, List.isSuffixOf_iff_suffix]

theorem isOrEndsIn_self (h : Text) : isOrEndsIn h h = true := isOrEndsIn_iff.mpr (Or.inl rfl)

theorem isOrEndsIn_trans {h e f : Text} (he : isOrEndsIn h e = true) (hf : isOrEndsIn e f = true) :
    isOrEndsIn h f = true := by
  rw [isOrEndsIn_iff] at he hf ⊢
  obtain rfl | he := he
  · exact hf
  obtain rfl | hf := hf
  · exact Or.inr he
  · exact Or.inr (hf.trans ((List.suffix_cons '.' e).trans he))

/-- Of two domains of a host, one is in the other. -/
theorem isOrEndsIn_total {h e f : Text} (he : isOrEndsIn h e = true) (hf : isOrEndsIn h f = true) :
    isOrEndsIn e f = true ∨ isOrEndsIn f e = true := by
  have hshorter : ∀ {a b : Text}, '.' :: a <:+ '.' :: b → isOrEndsIn b a = true := by
    intro a b hab
    rw [isOrEndsIn_iff]
    obtain heq | hsuffix := List.suffix_cons_iff.mp hab
    · exact Or.inl (List.cons.inj heq).2.symm
    · exact Or.inr hsuffix
  rw [isOrEndsIn_iff] at he hf
  obtain rfl | he := he
  · exact Or.inl (isOrEndsIn_iff.mpr hf)
  obtain rfl | hf := hf
  · exact Or.inr (isOrEndsIn_iff.mpr (Or.inr he))
  · obtain h | h := List.suffix_or_suffix_of_suffix he hf
    · exact Or.inr (hshorter h)
    · exact Or.inl (hshorter h)

theorem inList_iff {h : Text} {list : List Text} :
    inList h list = true ↔ ∃ e ∈ list, isOrEndsIn h e = true := by
  unfold inList
  rw [List.any_eq_true]

theorem inList_of_isOrEndsIn {h e : Text} {list : List Text} (he : isOrEndsIn h e = true)
    (hin : inList e list = true) : inList h list = true := by
  obtain ⟨f, hf, hef⟩ := inList_iff.mp hin
  exact inList_iff.mpr ⟨f, hf, isOrEndsIn_trans he hef⟩

/-- A forced host is not tunnelled. -/
theorem shouldUseSniRewrite_of_forced {host : Text} {list : List Text}
    (h : hostInForceMitmList host list = true) (hosts : List (Text × Text)) (port : Nat)
    (youtubeViaRelay : Bool) :
    shouldUseSniRewrite hosts host port youtubeViaRelay list = false := by
  unfold shouldUseSniRewrite
  rw [if_pos h]
  exact ite_self _

/-! ## Lower case and dots -/

theorem toLower_toLower (c : Char) : c.toLower.toLower = c.toLower := by
  rw [← Char.toNat_inj, Drive.toNat_toLower, Drive.toNat_toLower]
  split_ifs <;> omega

theorem toAsciiLowercase_idem (text : Text) :
    toAsciiLowercase (toAsciiLowercase text) = toAsciiLowercase text := by
  unfold toAsciiLowercase
  rw [List.map_map]
  exact List.map_congr_left fun c _ => toLower_toLower c

/-- The text is in lower case. -/
def IsLower (text : Text) : Prop := toAsciiLowercase text = text

theorem isLower_iff {text : Text} : IsLower text ↔ ∀ c ∈ text, c.toLower = c := by
  unfold IsLower toAsciiLowercase
  conv_lhs => rw [← List.map_id text]
  rw [List.map_map]
  exact List.map_inj_left

theorem IsLower.of_subset {text part : Text} (h : IsLower text) (hsub : part ⊆ text) :
    IsLower part :=
  isLower_iff.mpr fun c hc => isLower_iff.mp h c (hsub hc)

theorem isLower_toAsciiLowercase (text : Text) : IsLower (toAsciiLowercase text) :=
  toAsciiLowercase_idem text

theorem noScheme_suffix (text : Text) : noScheme text <:+ text := by
  have hstrip : ∀ {start rest : Text}, stripPrefix start text = some rest → rest <:+ text :=
    fun h => ⟨_, (Drive.stripPrefix_eq_some h).symm⟩
  unfold noScheme
  cases hhttps : stripPrefix "https://".toList text with
  | some rest => exact hstrip hhttps
  | none =>
      cases hhttp : stripPrefix "http://".toList text with
      | some rest => exact hstrip hhttp
      | none => exact List.suffix_refl text

theorem trimEndDots_prefix_self (text : Text) : trimEndDots text <+: text := by
  rw [← List.reverse_suffix]
  unfold trimEndDots
  rw [List.reverse_reverse]
  exact List.dropWhile_suffix _

theorem trimEndDots_idem (text : Text) : trimEndDots (trimEndDots text) = trimEndDots text := by
  unfold trimEndDots
  rw [List.reverse_reverse, List.dropWhile_idempotent]

/-- A host in lower case and without dots behind it is in its canonical form. -/
theorem canonicalHost_patternHost (trimmed : Text) :
    canonicalHost (patternHost trimmed) = patternHost trimmed := by
  have hlower : IsLower (patternHost trimmed) := by
    apply (isLower_toAsciiLowercase trimmed).of_subset
    intro c hc
    exact (noScheme_suffix _).subset
      ((List.takeWhile_prefix _).subset ((trimEndDots_prefix_self _).subset hc))
  unfold canonicalHost
  rw [hlower]
  exact trimEndDots_idem _

/-! ## A pattern and its normal form -/

/-- The path of a pattern that has been trimmed. -/
def patternPath (trimmed : Text) : Text := pathOf (noScheme (toAsciiLowercase trimmed))

theorem trim_trim (p : Text) : trim (trim p) = trim p := Trim.trim_idem p

theorem takeWhile_dropWhile (p : Char → Bool) (text : Text) :
    (text.dropWhile p).takeWhile p = [] := by
  induction text with
  | nil => rfl
  | cons c text ih =>
      by_cases hc : p c = true
      · rw [List.dropWhile_cons_of_pos hc]
        exact ih
      · rw [List.dropWhile_cons_of_neg hc, List.takeWhile_cons_of_neg hc]

theorem takeWhile_host {host : Text} (hhost : '/' ∉ host) (text : Text) :
    (host ++ text.dropWhile (· ≠ '/')).takeWhile (· ≠ '/') = host ∧
      (host ++ text.dropWhile (· ≠ '/')).dropWhile (· ≠ '/') = text.dropWhile (· ≠ '/') := by
  have hall : ∀ c ∈ host, decide (c ≠ '/') = true :=
    fun c hc => decide_eq_true fun heq => hhost (heq ▸ hc)
  rw [List.takeWhile_append_of_pos hall, List.dropWhile_append_of_pos hall,
    List.dropWhile_idempotent, takeWhile_dropWhile]
  exact ⟨List.append_nil host, rfl⟩

theorem slash_notMem_patternHost (trimmed : Text) : '/' ∉ patternHost trimmed := by
  intro h
  have hmem := List.mem_takeWhile_imp ((trimEndDots_prefix_self _).subset h)
  exact absurd hmem (by decide)

/-- The normal form of a pattern has its host and its path. -/
theorem normalizePattern_trim (p : Text) :
    (normalizePattern (trim p)).takeWhile (· ≠ '/') = patternHost (trim p) ∧
      pathOf (normalizePattern (trim p)) = patternPath (trim p) := by
  obtain ⟨hhost, hpath⟩ := takeWhile_host (slash_notMem_patternHost (trim p))
    (noScheme (toAsciiLowercase (trim p)))
  unfold normalizePattern
  rw [trim_trim]
  refine ⟨hhost, ?_⟩
  unfold patternPath pathOf
  rw [← hpath]
  rfl

/-- The user's pattern is accepted by the configuration. -/
def Accepted (p : Text) : Prop := validateRelayUrlPattern p = .ok ()

/-- The host of an accepted pattern is not empty, and does not begin with a dot. -/
theorem Accepted.host {p : Text} (h : Accepted p) :
    patternHost (trim p) ≠ [] ∧ (patternHost (trim p)).head? ≠ some '.' ∧
      ':' ∉ patternHost (trim p) := by
  have hkept : ¬Settings.HostRefused (patternHost (trim p)) := by
    rw [← Settings.refuses_validateRelayUrlPattern]
    exact Refusal.not_refuses_of_eq_ok h
  refine ⟨fun hnil => hkept (Or.inl hnil), fun hdot => ?_, fun hcolon => ?_⟩
  · obtain ⟨rest, hrest⟩ := List.head?_eq_some_iff.mp hdot
    apply hkept
    refine Or.inr (Or.inr ⟨[], ?_, ?_⟩)
    · rw [hrest]
      unfold List.splitOn
      rw [List.splitOnP_cons_eq_if_modifyHead]
      exact List.mem_cons_self
    · exact ⟨_, rfl⟩
  · have hldh := Settings.isLdh_of_not_refused hkept hcolon (by decide)
    exact absurd hldh (by decide)

theorem Accepted.trim_ne_nil {p : Text} (h : Accepted p) : trim p ≠ [] := by
  intro hnil
  apply h.host.1
  rw [hnil]
  rfl

theorem Accepted.hostPart {p : Text} (h : Accepted p) :
    hostPart (normalizePattern (trim p)) = patternHost (trim p) := by
  unfold Proxy.hostPart
  rw [(normalizePattern_trim p).1]
  cases hhost : patternHost (trim p) with
  | nil => rfl
  | cons c rest =>
      have hdot : c ≠ '.' := by
        rintro rfl
        exact h.host.2.1 (by rw [hhost]; rfl)
      exact List.dropWhile_cons_of_neg (by simpa using hdot)

/-! ## The URL of a host and a path -/

/-- A name of a host, in any case and with any dots behind it. -/
structure IsHostName (host : Text) : Prop where
  no_slash : '/' ∉ host
  no_colon : ':' ∉ host

theorem notMem_toAsciiLowercase {x : Char} (hx : x.toNat < 65 ∨ 122 < x.toNat) {text : Text}
    (h : x ∉ text) : x ∉ toAsciiLowercase text := by
  intro hmem
  obtain ⟨c, hc, hlower⟩ := List.mem_map.mp hmem
  rw [(Drive.toLower_eq_iff hx c).mp hlower] at hc
  exact h hc

theorem noScheme_https (rest : Text) : noScheme ("https://".toList ++ rest) = rest := by
  unfold noScheme stripPrefix
  rw [if_pos (List.isPrefixOf_iff_prefix.mpr (List.prefix_append _ _)), List.drop_left]
  rfl

/-- Up to a symbol that is not before it. -/
theorem takeWhile_ne {x : Char} {before : Text} (h : x ∉ before) (rest : Text) :
    (before ++ x :: rest).takeWhile (· ≠ x) = before ∧
      (before ++ x :: rest).dropWhile (· ≠ x) = x :: rest := by
  have hall : ∀ c ∈ before, decide (c ≠ x) = true :=
    fun c hc => decide_eq_true fun heq => h (heq ▸ hc)
  rw [List.takeWhile_append_of_pos hall, List.dropWhile_append_of_pos hall,
    List.takeWhile_cons_of_neg (by simp), List.dropWhile_cons_of_neg (by simp)]
  exact ⟨List.append_nil before, rfl⟩

/-- The URL is compared by the canonical form of its host, and by its path in lower case. -/
theorem urlMatchesRelayPattern_https {host port path : Text} (hhost : IsHostName host)
    (hport : port = [] ∨ port = ":443".toList) (hpath : path.head? = some '/')
    (patterns : List Text) :
    urlMatchesRelayPattern ("https://".toList ++ (host ++ port ++ path)) patterns =
      patterns.any fun p => isOrEndsIn (canonicalHost host) (p.takeWhile (· ≠ '/')) &&
        (pathOf p).isPrefixOf (toAsciiLowercase path) := by
  obtain ⟨rest, rfl⟩ := List.head?_eq_some_iff.mp hpath
  have hslash : '/' ∉ toAsciiLowercase host ++ port := by
    rw [List.mem_append]
    rintro (h | h)
    · exact notMem_toAsciiLowercase (by decide) hhost.no_slash h
    · obtain rfl | rfl := hport
      · cases h
      · exact absurd h (by decide)
  have hcolon := notMem_toAsciiLowercase (x := ':') (by decide) hhost.no_colon
  have hlower : toAsciiLowercase ("https://".toList ++ (host ++ port ++ '/' :: rest)) =
      "https://".toList ++ (toAsciiLowercase host ++ port ++ '/' :: toAsciiLowercase rest) := by
    have hport' : toAsciiLowercase port = port := by
      obtain rfl | rfl := hport
      · rfl
      · rfl
    unfold toAsciiLowercase at hport' ⊢
    rw [List.map_append, List.map_append, List.map_append, hport']
    rfl
  have hurlHost : trimEndDots ((toAsciiLowercase host ++ port).takeWhile (· ≠ ':')) =
      canonicalHost host := by
    unfold canonicalHost
    obtain rfl | rfl := hport
    · rw [List.append_nil, List.takeWhile_eq_self_iff.mpr]
      intro c hc
      exact decide_eq_true fun heq => hcolon (heq ▸ hc)
    · rw [show ":443".toList = ':' :: "443".toList from rfl, (takeWhile_ne hcolon _).1]
  obtain ⟨hbefore, hbehind⟩ := takeWhile_ne hslash (toAsciiLowercase rest)
  have hpathOf : pathOf (toAsciiLowercase host ++ port ++ '/' :: toAsciiLowercase rest) =
      toAsciiLowercase ('/' :: rest) := by
    unfold pathOf
    rw [hbehind]
    rfl
  unfold urlMatchesRelayPattern
  rw [hlower, noScheme_https]
  dsimp only
  rw [hbefore, hurlHost, hpathOf]

/-! ## What a pattern names -/

/-- The pattern, as the user wrote it, names the URL of a host and a path: the host is the
pattern's or in its domain, and the path begins with the pattern's in any case. -/
def Names (p host path : Text) : Prop :=
  isOrEndsIn (canonicalHost host) (patternHost (trim p)) = true ∧
    patternPath (trim p) <+: toAsciiLowercase path

theorem pathOf_head? (text : Text) : (pathOf text).head? = some '/' := by
  have hhead := List.head?_dropWhile_not (fun c => decide (c ≠ '/')) text
  unfold pathOf
  cases hpath : text.dropWhile (· ≠ '/') with
  | nil => rfl
  | cons c rest =>
      rw [hpath] at hhead
      have hc : c = '/' := not_not.mp (of_decide_eq_false hhead)
      rw [hc]
      rfl

theorem Names.path_head? {p host path : Text} (h : Names p host path) :
    path.head? = some '/' := by
  have hpath := h.2
  unfold patternPath at hpath
  obtain ⟨rest, hrest⟩ := List.head?_eq_some_iff.mp (pathOf_head? (noScheme _))
  rw [hrest] at hpath
  cases path with
  | nil => exact absurd (List.prefix_nil.mp hpath) (List.cons_ne_nil _ _)
  | cons c path =>
      have hc : '/' = c.toLower := (List.cons_prefix_cons.mp hpath).1
      rw [List.head?_cons, (Drive.toLower_eq_iff (by decide) c).mp hc.symm]

theorem isLower_patternPath (trimmed : Text) : IsLower (patternPath trimmed) := by
  unfold patternPath pathOf
  split
  · rfl
  · apply (isLower_toAsciiLowercase trimmed).of_subset
    intro c hc
    exact (noScheme_suffix _).subset ((List.dropWhile_suffix _).subset hc)

/-- A URL that a kept pattern names matches. -/
theorem Names.urlMatches {p host port path : Text} (h : Names p host path) (hhost : IsHostName host)
    (hport : port = [] ∨ port = ":443".toList) {patterns : List Text}
    (hkept : normalizePattern (trim p) ∈ patterns) :
    urlMatchesRelayPattern ("https://".toList ++ (host ++ port ++ path)) patterns = true := by
  obtain ⟨hpatternHost, hpatternPath⟩ := normalizePattern_trim p
  rw [urlMatchesRelayPattern_https hhost hport h.path_head?, List.any_eq_true]
  refine ⟨_, hkept, ?_⟩
  rw [hpatternHost, hpatternPath, Bool.and_eq_true]
  exact ⟨h.1, List.isPrefixOf_iff_prefix.mpr h.2⟩

/-- What names the host and the path of a pattern names what the pattern names. -/
theorem Names.of_pattern {p q host path : Text} (h : Names p host path)
    (hq : Names q (patternHost (trim p)) (patternPath (trim p))) : Names q host path := by
  obtain ⟨hhost, hpath⟩ := hq
  rw [canonicalHost_patternHost] at hhost
  rw [isLower_patternPath] at hpath
  exact ⟨isOrEndsIn_trans h.1 hhost, hpath.trans h.2⟩

/-! ## What is kept at startup -/

namespace ResolvedRouting

variable {config : Settings.Config} {mode : Mode}

/-- The pattern is dropped where all of YouTube is relayed. -/
def Suppressed (config : Settings.Config) (mode : Mode) (p : Text) : Prop :=
  (fromConfig config mode).youtubeViaRelayEffective = true ∧
    hostMatchesYoutubeRelay (patternHost (trim p)) = true

theorem mem_userPatterns {q : Text} :
    q ∈ userPatterns config ↔
      ∃ p ∈ config.relayUrlPatterns, trim p ≠ [] ∧ normalizePattern (trim p) = q := by
  unfold userPatterns
  rw [List.mem_map]
  simp only [List.mem_filter, Bool.not_eq_true', List.isEmpty_eq_false_iff, and_assoc]

theorem mem_relayUrlPatterns (haccepted : ∀ p ∈ config.relayUrlPatterns, Accepted p) {q : Text} :
    q ∈ (fromConfig config mode).relayUrlPatterns ↔ mode = .appsScript ∧
      (((fromConfig config mode).youtubeViaRelayEffective = false ∧
          q ∈ defaultRelayUrlPatterns.map String.toList) ∨
        ∃ p ∈ config.relayUrlPatterns,
          ¬Suppressed config mode p ∧ normalizePattern (trim p) = q) := by
  have huser : (q ∈ (userPatterns config).filter fun p =>
      !((fromConfig config mode).youtubeViaRelayEffective &&
        hostMatchesYoutubeRelay (hostPart p))) ↔
      ∃ p ∈ config.relayUrlPatterns, ¬Suppressed config mode p ∧ normalizePattern (trim p) = q := by
    rw [List.mem_filter, mem_userPatterns]
    constructor
    · rintro ⟨⟨p, hp, -, rfl⟩, hkept⟩
      refine ⟨p, hp, fun hsuppressed => ?_, rfl⟩
      rw [(haccepted p hp).hostPart, hsuppressed.1, hsuppressed.2] at hkept
      cases hkept
    · rintro ⟨p, hp, hkept, rfl⟩
      refine ⟨⟨p, hp, (haccepted p hp).trim_ne_nil, rfl⟩, ?_⟩
      rw [(haccepted p hp).hostPart, Bool.not_eq_true', ← Bool.not_eq_true, Bool.and_eq_true]
      exact hkept
  by_cases hmode : mode = .appsScript
  · have hpatterns : (fromConfig config mode).relayUrlPatterns = firstOfEach id
        ((if (fromConfig config mode).youtubeViaRelayEffective then []
            else defaultRelayUrlPatterns.map String.toList) ++
          (userPatterns config).filter fun p =>
            !((fromConfig config mode).youtubeViaRelayEffective &&
              hostMatchesYoutubeRelay (hostPart p))) := if_pos hmode
    rw [hpatterns, Distinct.mem_firstOfEach_id, List.mem_append, huser]
    cases (fromConfig config mode).youtubeViaRelayEffective with
    | true => simp [hmode]
    | false => simp [hmode]
  · have hpatterns : (fromConfig config mode).relayUrlPatterns = [] := if_neg hmode
    rw [hpatterns]
    simp [hmode]

theorem mem_forceMitmHosts {f : Text} :
    f ∈ (fromConfig config mode).forceMitmHosts ↔
      (∃ q ∈ (fromConfig config mode).relayUrlPatterns, hostPart q = f) ∧ f ≠ [] ∧
        hostIsSniRewriteCapable f = true := by
  show f ∈ (firstOfEach id ((((fromConfig config mode).relayUrlPatterns).map hostPart).filter
    fun host => !host.isEmpty)).filter hostIsSniRewriteCapable ↔ _
  rw [List.mem_filter, Distinct.mem_firstOfEach_id, List.mem_filter, List.mem_map,
    Bool.not_eq_true', List.isEmpty_eq_false_iff, and_assoc]

/-- A pattern is kept if its host is forced. -/
theorem kept_of_forced (haccepted : ∀ p ∈ config.relayUrlPatterns, Accepted p) {p : Text}
    (hp : p ∈ config.relayUrlPatterns)
    (hforced : patternHost (trim p) ∈ (fromConfig config mode).forceMitmHosts) :
    normalizePattern (trim p) ∈ (fromConfig config mode).relayUrlPatterns := by
  obtain ⟨⟨q, hq, hhost⟩, -, -⟩ := mem_forceMitmHosts.mp hforced
  rw [mem_relayUrlPatterns haccepted] at hq ⊢
  obtain ⟨hmode, hq⟩ := hq
  refine ⟨hmode, Or.inr ⟨p, hp, fun hsuppressed => ?_, rfl⟩⟩
  obtain ⟨heffective, -⟩ | ⟨p', hp', hkept, rfl⟩ := hq
  · rw [hsuppressed.1] at heffective
    cases heffective
  · rw [(haccepted p' hp').hostPart] at hhost
    exact hkept ⟨hsuppressed.1, by rw [hhost]; exact hsuppressed.2⟩

/-- A pattern outside YouTube is kept. -/
theorem kept_of_other (haccepted : ∀ p ∈ config.relayUrlPatterns, Accepted p)
    (hmode : mode = .appsScript) {p : Text} (hp : p ∈ config.relayUrlPatterns)
    (hother : hostMatchesYoutubeRelay (patternHost (trim p)) = false) :
    normalizePattern (trim p) ∈ (fromConfig config mode).relayUrlPatterns := by
  refine (mem_relayUrlPatterns haccepted).mpr ⟨hmode, Or.inr ⟨p, hp, fun hsuppressed => ?_, rfl⟩⟩
  rw [hsuppressed.2] at hother
  cases hother

end ResolvedRouting

/-! ## Whether the predicates agree -/

open ResolvedRouting (fromConfig Suppressed mem_relayUrlPatterns mem_forceMitmHosts kept_of_forced
  kept_of_other)

/-- The URL of a forwarded request, and why it is forwarded. -/
structure MitmRequest.Forwarded (r : ResolvedRouting) (q : MitmRequest) : Prop where
  url : q.url = "https://".toList ++ (q.host ++ [] ++ q.path)
  not_exit : r.exitNodeFullModeActive = false
  forced : hostInForceMitmList q.host r.forceMitmHosts = true
  no_match : urlMatchesRelayPattern q.url r.relayUrlPatterns = false

theorem MitmRequest.forwarded {r : ResolvedRouting} {hosts : List (Text × Text)} {q : MitmRequest}
    (h : q.isForwarded r hosts = true) : q.Forwarded r := by
  unfold isForwarded forwarderEligible at h
  simp only [Bool.and_eq_true, Bool.not_eq_true', decide_eq_true_eq] at h
  obtain ⟨-, ⟨⟨⟨⟨⟨hscheme, hport⟩, -⟩, hexit⟩, -⟩, hforced⟩, hmatch⟩ := h
  refine ⟨?_, hexit, hforced, hmatch⟩
  unfold url
  rw [hscheme, hport]
  rw [if_pos rfl, if_pos rfl, List.append_assoc, List.append_nil]
  rfl

/-- What `from_config` and the matchers owe to a user's patterns: where the host of one is forced,
what it names matches; and nothing that one names is forwarded past the relay. -/
def PatternsAgree (config : Settings.Config) (mode : Mode) : Prop :=
  (∀ p ∈ config.relayUrlPatterns, ∀ host port path : Text, IsHostName host →
    (port = [] ∨ port = ":443".toList) →
    patternHost (trim p) ∈ (fromConfig config mode).forceMitmHosts → Names p host path →
    urlMatchesRelayPattern ("https://".toList ++ (host ++ port ++ path))
      (fromConfig config mode).relayUrlPatterns = true) ∧
  ∀ p ∈ config.relayUrlPatterns, ∀ (hosts : List (Text × Text)) (q : MitmRequest),
    IsHostName q.host → Names p q.host q.path → q.isForwarded (fromConfig config mode) hosts = false

/-- A pattern of YouTube that is dropped is named by one that is kept, if its host is in the domain
of one that is kept and pulled out of the SNI rewrite. -/
def DroppedCovered (config : Settings.Config) : Prop :=
  ∀ p ∈ config.relayUrlPatterns, hostMatchesYoutubeRelay (patternHost (trim p)) = true →
    (∃ q ∈ config.relayUrlPatterns, hostMatchesYoutubeRelay (patternHost (trim q)) = false ∧
      hostIsSniRewriteCapable (patternHost (trim q)) = true ∧
      isOrEndsIn (patternHost (trim p)) (patternHost (trim q)) = true) →
    ∃ q ∈ config.relayUrlPatterns, hostMatchesYoutubeRelay (patternHost (trim q)) = false ∧
      Names q (patternHost (trim p)) (patternPath (trim p))

section

variable {config : Settings.Config} {mode : Mode}

theorem hostMatchesYoutubeRelay_of_isOrEndsIn {p f : Text}
    (hf : isOrEndsIn (canonicalHost f) (patternHost (trim p)) = true)
    (hp : hostMatchesYoutubeRelay (patternHost (trim p)) = true) :
    hostMatchesYoutubeRelay f = true := by
  unfold hostMatchesYoutubeRelay at hp ⊢
  rw [canonicalHost_patternHost] at hp
  exact inList_of_isOrEndsIn hf hp

/-- What a dropped pattern names is forwarded only where a kept one names no more than a part of
it. -/
theorem not_forwarded_of_dropped (haccepted : ∀ p ∈ config.relayUrlPatterns, Accepted p)
    (hcovered : DroppedCovered config) {p : Text} (hp : p ∈ config.relayUrlPatterns)
    (hsuppressed : Suppressed config mode p) {q : MitmRequest} (hhost : IsHostName q.host)
    (hnames : Names p q.host q.path) (h : q.Forwarded (fromConfig config mode)) : False := by
  obtain ⟨f, hf, hunder⟩ := inList_iff.mp h.forced
  obtain ⟨⟨n, hn, hnf⟩, -, hcapable⟩ := mem_forceMitmHosts.mp hf
  obtain ⟨hmode, ⟨heffective, -⟩ | ⟨p', hp', hkept, rfl⟩⟩ := (mem_relayUrlPatterns haccepted).mp hn
  · rw [hsuppressed.1] at heffective
    cases heffective
  rw [(haccepted p' hp').hostPart] at hnf
  subst hnf
  have hother : hostMatchesYoutubeRelay (patternHost (trim p')) = false := by
    rw [← Bool.not_eq_true]
    exact fun hyoutube => hkept ⟨hsuppressed.1, hyoutube⟩
  obtain hin | hin := isOrEndsIn_total hnames.1 hunder
  -- the forced host has the host of the pattern in its domain
  · obtain ⟨p'', hp'', hother'', hnames''⟩ := hcovered p hp hsuppressed.2
      ⟨p', hp', hother, hcapable, hin⟩
    have hmatch := (hnames.of_pattern hnames'').urlMatches hhost (Or.inl rfl)
      (kept_of_other haccepted hmode hp'' hother'')
    rw [← h.url, h.no_match] at hmatch
    cases hmatch
  -- a domain of YouTube's would have been dropped
  · rw [hostMatchesYoutubeRelay_of_isOrEndsIn (by rwa [canonicalHost_patternHost])
      hsuppressed.2] at hother
    cases hother

/-- The request for what a pattern names at the least. -/
def requestFor (p : Text) : MitmRequest :=
  ⟨"GET".toList, "https".toList, patternHost (trim p), 443, patternPath (trim p)⟩

theorem isHostName_patternHost {p : Text} (h : Accepted p) : IsHostName (patternHost (trim p)) :=
  ⟨slash_notMem_patternHost _, h.host.2.2⟩

theorem names_self (p : Text) : Names p (patternHost (trim p)) (patternPath (trim p)) := by
  refine ⟨?_, ?_⟩
  · rw [canonicalHost_patternHost]
    exact isOrEndsIn_self _
  · rw [isLower_patternPath]

theorem requestFor_url (p : Text) : (requestFor p).url =
    "https://".toList ++ (patternHost (trim p) ++ [] ++ patternPath (trim p)) := by
  rw [List.append_nil]
  rfl

/-- The request is forwarded if its host is forced and its URL matches nothing. -/
theorem isForwarded_requestFor {r : ResolvedRouting} {p : Text}
    (hexit : r.exitNodeFullModeActive = false) (hpatterns : r.relayUrlPatterns ≠ [])
    (hforced : hostInForceMitmList (patternHost (trim p)) r.forceMitmHosts = true)
    (hmatch : urlMatchesRelayPattern (requestFor p).url r.relayUrlPatterns = false) :
    (requestFor p).isForwarded r [] = true := by
  unfold MitmRequest.isForwarded MitmRequest.forwarderEligible
  rw [show (requestFor p).host = patternHost (trim p) from rfl,
    shouldUseSniRewrite_of_forced hforced, hexit, List.isEmpty_eq_false_iff.mpr hpatterns, hforced,
    hmatch]
  rfl

/-- Where all of YouTube is relayed, what the request matches is a pattern of the user's that is
not dropped. -/
theorem names_of_matches (haccepted : ∀ p ∈ config.relayUrlPatterns, Accepted p) {p : Text}
    (hp : p ∈ config.relayUrlPatterns)
    (heffective : (fromConfig config mode).youtubeViaRelayEffective = true)
    (hmatch : urlMatchesRelayPattern (requestFor p).url
      (fromConfig config mode).relayUrlPatterns = true) :
    ∃ q ∈ config.relayUrlPatterns, hostMatchesYoutubeRelay (patternHost (trim q)) = false ∧
      Names q (patternHost (trim p)) (patternPath (trim p)) := by
  rw [requestFor_url, urlMatchesRelayPattern_https (isHostName_patternHost (haccepted p hp))
    (Or.inl rfl) (names_self p).path_head?, List.any_eq_true] at hmatch
  obtain ⟨n, hn, hmatch⟩ := hmatch
  obtain ⟨-, ⟨hnot, -⟩ | ⟨q, hq, hkept, rfl⟩⟩ := (mem_relayUrlPatterns haccepted).mp hn
  · rw [heffective] at hnot
    cases hnot
  obtain ⟨hpatternHost, hpatternPath⟩ := normalizePattern_trim q
  rw [hpatternHost, hpatternPath, Bool.and_eq_true] at hmatch
  refine ⟨q, hq, ?_, hmatch.1, List.isPrefixOf_iff_prefix.mp hmatch.2⟩
  rw [← Bool.not_eq_true]
  exact fun hyoutube => hkept ⟨heffective, hyoutube⟩

/-- If nothing that a pattern names is forwarded, every dropped pattern is covered. -/
theorem droppedCovered_of_not_forwarded (haccepted : ∀ p ∈ config.relayUrlPatterns, Accepted p)
    (hnot : ∀ p ∈ config.relayUrlPatterns,
      (requestFor p).isForwarded (fromConfig config mode) [] = false)
    (hmode : mode = .appsScript) (hyoutube : config.youtubeViaRelay = true)
    (hexit : exitNodeFullMode config = false) : DroppedCovered config := by
  rintro p hp - ⟨q, hq, hother, hcapable, hin⟩
  have heffective : (fromConfig config mode).youtubeViaRelayEffective = true := by
    show (config.youtubeViaRelay || _) = true
    rw [hyoutube, Bool.true_or]
  have hactive : (fromConfig config mode).exitNodeFullModeActive = false := by
    show (exitNodeFullMode config && _) = false
    rw [hexit, Bool.false_and]
  have hkept := kept_of_other haccepted hmode hq hother
  have hforced : hostInForceMitmList (patternHost (trim p))
      (fromConfig config mode).forceMitmHosts = true := by
    refine inList_iff.mpr ⟨patternHost (trim q), mem_forceMitmHosts.mpr
      ⟨⟨_, hkept, (haccepted q hq).hostPart⟩, (haccepted q hq).host.1, hcapable⟩, ?_⟩
    rwa [canonicalHost_patternHost]
  refine names_of_matches haccepted hp heffective (Bool.of_not_eq_false fun hno => ?_)
  have hyes := isForwarded_requestFor hactive (List.ne_nil_of_mem hkept) hforced hno
  rw [hnot p hp] at hyes
  cases hyes

/-- If every dropped pattern is covered, nothing that a pattern names is forwarded. -/
theorem not_forwarded_of_droppedCovered (haccepted : ∀ p ∈ config.relayUrlPatterns, Accepted p)
    (hcovered : mode = .appsScript → config.youtubeViaRelay = true →
      exitNodeFullMode config = false → DroppedCovered config)
    {p : Text} (hp : p ∈ config.relayUrlPatterns) {q : MitmRequest} (hhost : IsHostName q.host)
    (hnames : Names p q.host q.path) (h : q.Forwarded (fromConfig config mode)) : False := by
  obtain ⟨f, hf, -⟩ := inList_iff.mp h.forced
  obtain ⟨⟨n, hn, -⟩, -, -⟩ := mem_forceMitmHosts.mp hf
  have hmode := ((mem_relayUrlPatterns haccepted).mp hn).1
  by_cases hsuppressed : Suppressed config mode p
  · have heffective : (config.youtubeViaRelay ||
        (fromConfig config mode).exitNodeFullModeActive) = true := hsuppressed.1
    rw [h.not_exit, Bool.or_false] at heffective
    have hexit : (exitNodeFullMode config && decide (mode = .appsScript)) = false := h.not_exit
    rw [decide_eq_true hmode, Bool.and_true] at hexit
    exact not_forwarded_of_dropped haccepted (hcovered hmode heffective hexit) hp hsuppressed
      hhost hnames h
  · have hkept := (mem_relayUrlPatterns haccepted).mpr
      ⟨hmode, Or.inr ⟨p, hp, hsuppressed, rfl⟩⟩
    have hmatch := hnames.urlMatches hhost (Or.inl rfl) hkept
    rw [← h.url, h.no_match] at hmatch
    cases hmatch

/-- **The predicates agree** on what the user's patterns name, unless a dropped pattern is not
covered. -/
theorem patternsAgree_iff (haccepted : ∀ p ∈ config.relayUrlPatterns, Accepted p) :
    PatternsAgree config mode ↔
      (mode = .appsScript → config.youtubeViaRelay = true → exitNodeFullMode config = false →
        DroppedCovered config) := by
  constructor
  · rintro ⟨-, hforwarded⟩
    refine droppedCovered_of_not_forwarded haccepted fun p hp => ?_
    exact hforwarded p hp [] (requestFor p) (isHostName_patternHost (haccepted p hp)) (names_self p)
  · intro hcovered
    constructor
    · intro p hp host port path hhost hport hforced hnames
      exact hnames.urlMatches hhost hport (kept_of_forced haccepted hp hforced)
    · intro p hp hosts q hhost hnames
      by_contra hforwarded
      exact not_forwarded_of_droppedCovered haccepted hcovered hp hhost hnames
        (MitmRequest.forwarded (eq_true_of_ne_false hforwarded))

end

/-- A configuration that relays all of YouTube. -/
def youtubeRelayed (patterns : List String) : Settings.Object :=
  [("mode", .str "apps_script".toList), ("auth_key", .str "secret-test-secret-test".toList),
    ("script_id", .str "X".toList), ("youtube_via_relay", .bool true),
    ("relay_url_patterns", .arr (patterns.map fun p => .str p.toList))]

/-- A kept pattern covers the one that is dropped. -/
theorem patternsAgree_covered : ∃ config,
    Settings.Config.deserialize (youtubeRelayed
      ["googleapis.com/", "youtubei.googleapis.com/youtubei/"]) = some config ∧
    PatternsAgree config .appsScript := by
  refine ⟨_, rfl, (patternsAgree_iff ?_).mpr ?_⟩
  · intro p hp
    obtain rfl | rfl : p = "googleapis.com/".toList ∨
        p = "youtubei.googleapis.com/youtubei/".toList := by
      simpa using hp
    · rfl
    · rfl
  · intro _ _ _ p hp hyoutube _
    obtain rfl | rfl : p = "googleapis.com/".toList ∨
        p = "youtubei.googleapis.com/youtubei/".toList := by
      simpa using hp
    · exact absurd hyoutube (by decide)
    · exact ⟨"googleapis.com/".toList, List.mem_cons_self, by decide, by decide, by decide⟩
/-- A pattern of the user is accepted, and what it names is forwarded: it has been dropped as
redundant, and the other pattern forces the domain its host is in. -/
theorem dropped_pattern_forwarded : ∃ config,
    Settings.Config.deserialize (youtubeRelayed
      ["googleapis.com/specific-api/", "youtubei.googleapis.com/youtubei/"]) = some config ∧
    (∀ p ∈ config.relayUrlPatterns, Accepted p) ∧ ¬PatternsAgree config .appsScript := by
  refine ⟨_, rfl, ?_, ?_⟩
  · intro p hp
    obtain rfl | rfl : p = "googleapis.com/specific-api/".toList ∨
        p = "youtubei.googleapis.com/youtubei/".toList := by
      simpa using hp
    · rfl
    · rfl
  · rintro ⟨-, hforwarded⟩
    have hnot := hforwarded "youtubei.googleapis.com/youtubei/".toList
      (List.mem_cons_of_mem _ List.mem_cons_self) []
      ⟨"GET".toList, "https".toList, "youtubei.googleapis.com".toList, 443,
        "/youtubei/v1/player".toList⟩
      ⟨by decide, by decide⟩ ⟨by decide, by decide⟩
    exact absurd hnot (by decide)

end Rahgozar.Proxy
