import Rahgozar.AppsScript.SheetCache
import Rahgozar.Lib.Run

set_option autoImplicit false

/-! # The cache path and the plain path

A run is a sequence of requests, between which the sheet may be cleared by hand. The origin is a
function of what is sent to it, so the plain path has one answer to a request at all times. The
state records the requests beside the sheet, so that a hit can be compared with the miss that stored
the row.
-/

namespace Rahgozar.AppsScript

/-! ## Runs -/

/-- The sheet, and the requests so far, the last one first. -/
structure SheetState where
  sheet : Sheet
  served : List Served

inductive SheetEvent where
  | request (x : Execution) (req : Json)
  | clearExpiredCache (now : Nat)
  | clearEntireCache

section

variable (pf : Platform) (origin : Origin)

/-- What the plain path returns for a request. -/
def plainOutput (req : Json) : Option Output :=
  (urlOf req).map fun url => (relayPlain pf origin url req).1

/-- The outputs have the same values in these fields. -/
def SameFields (keys : List String) (a b : Output) : Prop := ∀ key ∈ keys, a.field key = b.field key

/-- A miss is answered as the plain path answers, with one fetch; a hit has the status and the body
of an earlier miss, of a request that the plain path answers in the same way. -/
def Served.Agrees (earlier : List Served) (r : Served) : Prop :=
  match r.lookup with
  | .unused | .threw => True
  | .hit => ∃ y ∈ earlier, y.lookup = .miss ∧
      plainOutput pf origin y.req = plainOutput pf origin r.req ∧
      ∃ out out', r.output = .ok out ∧ y.output = .ok out' ∧ SameFields ["s", "b"] out out'
  | .miss => r.fetches.length = 1 ∧
      ∃ out plain, r.output = .ok out ∧ plainOutput pf origin r.req = some plain ∧
        SameFields ["s", "h", "b"] out plain

/-- Every request agrees, those before it being the earlier ones. -/
def AllAgree : List Served → Prop
  | [] => True
  | r :: earlier => r.Agrees pf origin earlier ∧ AllAgree earlier

/-! ## What a request has to meet -/

/-- What `_fetchAndCache` sends for a URL that escaping leaves as it is. -/
def bareSent (url : String) : Sent where
  method := "get"
  url := url
  headers := []
  payload := none
  contentType := none
  followRedirects := true
  validateHttpsCertificates := true

/-- Both paths send the same for this request: no header is passed on, redirects are followed, the
body is not asked for as it is, and escaping leaves the URL as it is. -/
structure Bare (url : String) (req : Json) : Prop where
  headers : ∀ h ∈ headersOf req, ∀ p ∈ h.entries, inTable skipHeaders (pf.toLowerCase p.1) = true
  redirects : req.get "r" ≠ some (.bool false)
  raw : req.get "raw" ≠ some (.bool true)
  escape : pf.escapeUrl url = url

/-- The calls that storing a response makes. -/
def storeCalls (metaOpens : Bool) (resp : Response) : List Call :=
  if 500 ≤ resp.code then []
  else
    match ttlSeconds pf resp with
    | .error _ => []
    | .ok ttl =>
        if ttl = 0 then []
        else (if gzips pf resp then [.gzip] else []) ++
          if cacheMaxBodyBytes < (storedBody pf resp).length then []
          else if metaOpens then [.ensureRowsAllocated, .getNextCursor, .setValues, .advanceCursor]
          else [.appendRow]

/-- Nothing throws while the response is stored: its `Cache-Control` is a text, and the calls that
are made succeed. -/
structure Storable (x : Execution) (resp : Response) : Prop where
  cacheControl : resp.code < 500 → ∀ v ∈ cacheControlOf resp.headers, ∃ s, v = .str s
  calls : ∀ c ∈ storeCalls pf (x.ok .openMeta) resp, x.ok c = true

/-- What a cacheable request has to meet. The row that is found for it is a row of its URL, and its
body is read as it was written; when there is none and the sheet is there to store one, the fetch
returns a response that can be stored. -/
structure Plain (sheet : Sheet) (x : Execution) (url : String) (req : Json) : Prop where
  hit : ∀ row, findInCache pf x sheet url (headersOf req) = .ok (some row) →
    Bare pf url req ∧ row.url = url ∧ pf.readCell row.body = .str row.body
  miss : findInCache pf x sheet url (headersOf req) = .ok none → x.ok .openForStore = true →
    Bare pf url req ∧ ∃ resp, origin (bareSent url) = .ok resp ∧ Storable pf x resp

namespace SheetState

def empty : SheetState := ⟨.empty, []⟩

def step (s : SheetState) : SheetEvent → Option SheetState
  | .request x req =>
      let (r, sheet) := doSingle pf origin x s.sheet req
      some ⟨sheet, r :: s.served⟩
  | .clearExpiredCache now => some { s with sheet := s.sheet.clearExpiredCache now }
  | .clearEntireCache => some { s with sheet := .clearEntireCache }

def Meets (s : SheetState) : SheetEvent → Prop
  | .request x req =>
      canUseCache pf req = .ok true → ∀ url ∈ urlOf req, Plain pf origin s.sheet x url req
  | .clearExpiredCache _ => True
  | .clearEntireCache => True

end SheetState

end

/-! ## The two fetches -/

section

variable {pf : Platform} {origin : Origin} {req : Json} {url : String}

theorem methodOf_of_isGet (h : isGet req = true) :
    methodOf pf.toEngine req = .ok (pf.toLowerCase "GET") := by
  unfold isGet at h
  unfold methodOf
  cases hm : req.getTruthy "m" with
  | none => rfl
  | some v =>
      rw [hm] at h
      cases v with
      | str m =>
          have hget : m = "GET" := eq_of_beq h
          rw [hget]
      | null => cases h
      | bool b => cases h
      | num n => cases h
      | arr items => cases h
      | obj fields => cases h

theorem canUseCache_eq_true (h : canUseCache pf req = .ok true) :
    isGet req = true ∧ req.getTruthy "b" = none ∧
      ∀ h ∈ headersOf req, h.get "hasOwnProperty" = none := by
  unfold canUseCache at h
  split at h
  · cases h
  rename_i hget
  split at h
  · cases h
  rename_i hbody
  split at h
  · cases h
  split at h
  · cases h
  refine ⟨by simpa using hget, Option.not_isSome_iff_eq_none.mp hbody, fun head hhead => ?_⟩
  rw [Option.mem_def.mp hhead] at h
  dsimp only at h
  split at h
  · cases h
  · rename_i hown
    exact Option.not_isSome_iff_eq_none.mp hown

/-- The headers that the plain path sends. -/
def sentHeaders (pf : Platform) (req : Json) : Option (List (String × Json)) :=
  (headersOf req).map fun h => h.entries.filter fun p => !inTable skipHeaders (pf.toLowerCase p.1)

/-- `_buildOpts` does not throw for a cacheable request. -/
theorem buildOpts_of_canUseCache (h : canUseCache pf req = .ok true) :
    buildOpts pf.toEngine req = .ok {
      method := some (pf.toLowerCase "GET")
      muteHttpExceptions := some true
      followRedirects := some (match req.get "r" with | some (.bool false) => false | _ => true)
      validateHttpsCertificates := some true
      escaping := some false
      headers := sentHeaders pf req
      payload := none
      contentType := none } := by
  obtain ⟨hget, hbody, hown⟩ := canUseCache_eq_true h
  unfold buildOpts sentHeaders
  rw [methodOf_of_isGet hget, hbody]
  cases hhead : headersOf req with
  | none => rfl
  | some head =>
      have hforward : forwardedHeaders pf.toEngine head
          = .ok (head.entries.filter fun p => !inTable skipHeaders (pf.toLowerCase p.1)) := by
        unfold forwardedHeaders
        rw [hown head hhead]
        rfl
      dsimp only
      rw [hforward]
      rfl

/-- One fetch is made on the plain path. -/
theorem length_relayPlain (h : canUseCache pf req = .ok true) :
    (relayPlain pf origin url req).2.length = 1 := by
  unfold relayPlain
  rw [buildOpts_of_canUseCache h]
  dsimp only
  split
  · rfl
  · split
    · rfl
    · rfl

/-- What the plain path sends for a request that meets `Bare`. -/
theorem sent_buildOpts (h : canUseCache pf req = .ok true) (hbare : Bare pf url req) :
    ∃ opts, buildOpts pf.toEngine req = .ok opts ∧ FetchArg.sent pf ⟨url, opts⟩ = bareSent url := by
  refine ⟨_, buildOpts_of_canUseCache h, ?_⟩
  have hmethod : pf.toLowerCase "GET" = "get" := pf.toLowerCase_ascii "GET" (by decide +kernel)
  have hheaders : (sentHeaders pf req).getD [] = [] := by
    unfold sentHeaders
    cases hhead : headersOf req with
    | none => rfl
    | some head =>
        refine List.filter_eq_nil_iff.mpr fun p hp => ?_
        rw [hbare.headers head hhead p hp]
        decide
  have hfollow : (match req.get "r" with | some (.bool false) => false | _ => true) = true := by
    split
    · rename_i hr
      exact absurd hr hbare.redirects
    · rfl
  unfold FetchArg.sent bareSent
  dsimp only [Option.getD_some]
  rw [hmethod, hheaders, hfollow]
  rfl

/-- `_fetchAndCache` sends the same. -/
theorem sent_cacheOpts (hbare : Bare pf url req) :
    FetchArg.sent pf ⟨url, cacheOpts⟩ = bareSent url := by
  unfold FetchArg.sent bareSent cacheOpts
  dsimp only [Option.getD_none]
  rw [if_pos rfl, hbare.escape]

/-- The plain path returns the answer of the origin to what is sent for the URL. -/
theorem relayPlain_of_bare {resp : Response} (h : canUseCache pf req = .ok true)
    (hbare : Bare pf url req) (hresp : origin (bareSent url) = .ok resp) :
    (relayPlain pf origin url req).1 = .json (answerEntry resp) := by
  obtain ⟨opts, hopts, hsent⟩ := sent_buildOpts h hbare
  unfold relayPlain
  rw [hopts]
  dsimp only
  rw [hsent, hresp]
  dsimp only
  split
  · rename_i hraw
    exact absurd hraw hbare.raw
  · rfl

/-- Requests of one URL that meet `Bare` have one answer. -/
theorem relayPlain_congr {req' : Json} (h : canUseCache pf req = .ok true) (hbare : Bare pf url req)
    (h' : canUseCache pf req' = .ok true) (hbare' : Bare pf url req') :
    (relayPlain pf origin url req).1 = (relayPlain pf origin url req').1 := by
  cases hresp : origin (bareSent url) with
  | ok resp => rw [relayPlain_of_bare h hbare hresp, relayPlain_of_bare h' hbare' hresp]
  | error err =>
      obtain ⟨opts, hopts, hsent⟩ := sent_buildOpts h hbare
      obtain ⟨opts', hopts', hsent'⟩ := sent_buildOpts h' hbare'
      unfold relayPlain
      rw [hopts, hopts']
      dsimp only
      rw [hsent, hsent', hresp]

/-- No header of such a request is in the key. -/
theorem getCacheKey_of_bare (hbare : Bare pf url req) :
    ∃ hash, getCacheKey pf url (headersOf req) = .ok hash := by
  have hpart : ∀ name ∈ varyKeyHeaders,
      keyPart pf (headersOf req) name = .ok (name ++ ":<none>") := by
    intro name hname
    have hlower : inTable skipHeaders (pf.toLowerCase name) = false := by
      rcases List.mem_cons.mp hname with rfl | hname
      · rw [pf.toLowerCase_ascii _ (by decide +kernel)]
        decide +kernel
      · rw [List.mem_singleton.mp hname, pf.toLowerCase_ascii _ (by decide +kernel)]
        decide +kernel
    have hnone : ((headersOf req).bind fun h => getHeaderCaseInsensitive pf h name) = none := by
      refine Option.bind_eq_none_iff.mpr fun head hhead => ?_
      refine Option.map_eq_none_iff.mpr (List.find?_eq_none.mpr fun p hp heq => ?_)
      have hskip := hbare.headers head hhead p hp
      rw [eq_of_beq heq, hlower] at hskip
      cases hskip
    unfold keyPart
    rw [hnone]
  refine ⟨md5Hex pf ("|".intercalate [url, "accept-encoding:<none>", "accept-language:<none>"]), ?_⟩
  unfold getCacheKey varyKeyHeaders
  rw [List.mapM_cons, List.mapM_cons, hpart _ List.mem_cons_self,
    hpart _ (List.mem_cons_of_mem _ List.mem_cons_self)]
  rfl

end

/-! ## What is stored -/

/-- A row that is written comes beside those that were there. -/
theorem Sheet.mem_setRow {sheet : Sheet} {n : Nat} {row row' : Row}
    (h : some row' ∈ (sheet.setRow n row).rows) : some row' ∈ sheet.rows ∨ row' = row := by
  unfold Sheet.setRow at h
  split at h
  · rcases List.mem_or_eq_of_mem_set h with hmem | heq
    · exact Or.inl hmem
    · exact Or.inr (Option.some.inj heq)
  · rcases List.mem_append.mp h with hmem | hmem
    · rcases List.mem_append.mp hmem with hmem | hmem
      · exact Or.inl hmem
      · cases (List.mem_replicate.mp hmem).2
    · exact Or.inr (Option.some.inj (List.mem_singleton.mp hmem))

theorem Sheet.mem_writeRow {x : Execution} {sheet : Sheet} {row row' : Row}
    (h : some row' ∈ (sheet.writeRow x row).1.rows) : some row' ∈ sheet.rows ∨ row' = row := by
  unfold Sheet.writeRow at h
  split at h
  · split at h
    · dsimp only at h
      split at h
      · exact Sheet.mem_setRow h
      · exact Sheet.mem_setRow h
    · exact Or.inl h
  · split at h
    · exact Sheet.mem_setRow h
    · exact Or.inl h

section

variable {pf : Platform} {x : Execution} {sheet : Sheet} {url : String} {headers : Option Json}
variable {resp : Response}

/-- A row with the response that is stored under this URL. -/
structure Row.Holds (pf : Platform) (url : String) (resp : Response) (row : Row) : Prop where
  url : row.url = url
  status : row.status = resp.code
  body : row.body = storedBody pf resp
  z : row.z = gzips pf resp

theorem mem_store {row : Row} (h : some row ∈ (store pf x sheet url headers resp).1.rows) :
    some row ∈ sheet.rows ∨ row.Holds pf url resp := by
  unfold store at h
  split at h
  · exact Or.inl h
  split at h
  · exact Or.inl h
  split at h
  · exact Or.inl h
  split at h
  · exact Or.inl h
  split at h
  · exact Or.inl h
  split at h
  · exact Or.inl h
  rcases Sheet.mem_writeRow h with hmem | rfl
  · exact Or.inl hmem
  · exact Or.inr ⟨rfl, rfl, rfl, rfl⟩

/-- What is stored is served with the body of the response. -/
theorem Row.Holds.bodyField {row : Row} (h : row.Holds pf url resp)
    (hread : pf.readCell row.body = .str row.body) :
    row.bodyField pf = .ok (.str (base64Encode resp.content)) := by
  unfold Row.bodyField
  rw [hread, h.z, h.body]
  unfold storedBody
  split
  · rw [pf.base64Decode_encode]
    show (do
      let raw ← pf.ungzip (pf.gzip resp.content)
      pure (Json.str (base64Encode raw))) = _
    rw [pf.ungzip_gzip]
    rfl
  · rfl

theorem ttlSeconds_of_text (pf : Platform)
    (h : ∀ v ∈ cacheControlOf resp.headers, ∃ s, v = .str s) :
    ∃ ttl, ttlSeconds pf resp = .ok ttl := by
  have hparse : ∃ ttl, parseMaxAge pf (cacheControlOf resp.headers) = .ok ttl := by
    cases hcc : cacheControlOf resp.headers with
    | none => exact ⟨_, rfl⟩
    | some v =>
        obtain ⟨s, rfl⟩ := h v hcc
        unfold parseMaxAge
        dsimp only
        split
        · exact ⟨_, rfl⟩
        · split
          · exact ⟨_, rfl⟩
          · exact ⟨_, rfl⟩
  obtain ⟨ttl, hparse⟩ := hparse
  unfold ttlSeconds
  rw [hparse]
  show ∃ t, (if ttl = 0 then pure 0 else _) = Except.ok t
  split
  · exact ⟨_, rfl⟩
  · split
    · exact ⟨_, rfl⟩
    · exact ⟨_, rfl⟩

theorem Sheet.writeRow_done {row : Row}
    (h : ∀ c ∈ (if x.ok .openMeta then
      [Call.ensureRowsAllocated, .getNextCursor, .setValues, .advanceCursor] else [.appendRow]),
      x.ok c = true) : (sheet.writeRow x row).2 = true := by
  unfold Sheet.writeRow
  split
  · rename_i hmeta
    rw [if_pos hmeta] at h
    rw [h .ensureRowsAllocated (by decide), h .getNextCursor (by decide), h .setValues (by decide),
      h .advanceCursor (by decide)]
    rfl
  · rename_i hmeta
    rw [if_neg hmeta] at h
    rw [h .appendRow (by decide)]
    rfl

/-- A response that can be stored is stored without a throw. -/
theorem store_done {hash : String} (h : Storable pf x resp)
    (hkey : getCacheKey pf url headers = .ok hash) :
    (store pf x sheet url headers resp).2 = true := by
  have hcalls := h.calls
  unfold storeCalls at hcalls
  unfold store
  split
  · rfl
  rename_i hcode
  rw [if_neg hcode] at hcalls
  obtain ⟨ttl, httl⟩ := ttlSeconds_of_text pf (h.cacheControl (not_le.mp hcode))
  rw [httl] at hcalls ⊢
  dsimp only at hcalls ⊢
  split
  · rfl
  rename_i hzero
  rw [if_neg hzero] at hcalls
  obtain ⟨hgzip, hwrite⟩ := List.forall_mem_append.mp hcalls
  split
  · rename_i hfails
    obtain ⟨hz, hgz⟩ := (Bool.and_eq_true _ _).mp hfails
    rw [if_pos hz] at hgzip
    rw [hgzip .gzip (by decide)] at hgz
    cases hgz
  split
  · rfl
  rename_i hfits
  rw [if_neg hfits] at hwrite
  rw [hkey]
  exact Sheet.writeRow_done hwrite

/-! ## One request -/

variable {origin : Origin} {req : Json}

theorem mem_of_findInCache {row : Row} (h : findInCache pf x sheet url headers = .ok (some row)) :
    some row ∈ sheet.rows := by
  unfold findInCache at h
  split at h
  · cases h
  split at h
  · cases h
  split at h
  · cases h
  obtain ⟨hfind, -⟩ := Option.filter_eq_some_iff.mp (Except.ok.inj h)
  obtain ⟨r, hmem, hr⟩ := List.mem_filterMap.mp (List.mem_of_find?_eq_some hfind)
  have hr : r = some row := hr
  rwa [hr] at hmem

theorem getFromCache_cases (pf : Platform) (x : Execution) (sheet : Sheet) (url : String)
    (headers : Option Json) :
    (∃ err, getFromCache pf x sheet url headers = .error err) ∨
    (∃ row fresh body, findInCache pf x sheet url headers = .ok (some row) ∧
      row.bodyField pf = .ok body ∧
      getFromCache pf x sheet url headers = .ok (some (row.status, fresh, body))) ∨
    (findInCache pf x sheet url headers = .ok none ∧
      getFromCache pf x sheet url headers = .ok none) := by
  cases hfind : findInCache pf x sheet url headers with
  | error err =>
      refine Or.inl ⟨err, ?_⟩
      unfold getFromCache
      rw [hfind]
      rfl
  | ok found =>
      cases found with
      | none =>
          refine Or.inr (Or.inr ⟨rfl, ?_⟩)
          unfold getFromCache
          rw [hfind]
          rfl
      | some row =>
          have hget : getFromCache pf x sheet url headers = (do
              let body ← row.bodyField pf
              let fresh ← refreshCachedHeaders pf row.headers row.timestamp x.now
              pure (some (row.status, fresh, body))) := by
            unfold getFromCache
            rw [hfind]
            rfl
          rw [hget]
          cases hbody : row.bodyField pf with
          | error err => exact Or.inl ⟨err, rfl⟩
          | ok body =>
              cases hfresh : refreshCachedHeaders pf row.headers row.timestamp x.now with
              | error err => exact Or.inl ⟨err, rfl⟩
              | ok fresh => exact Or.inr (Or.inl ⟨row, fresh, body, rfl, hbody, rfl⟩)

/-- What the cache path can come to. -/
theorem doCached_cases (pf : Platform) (origin : Origin) (x : Execution) (sheet : Sheet)
    (url : String) (req : Json) :
    (∃ err, doCached pf origin x sheet url req = (⟨req, .threw, .error err, []⟩, sheet)) ∨
    (∃ row fresh body, findInCache pf x sheet url (headersOf req) = .ok (some row) ∧
      row.bodyField pf = .ok body ∧
      doCached pf origin x sheet url req
        = (⟨req, .hit, .ok (.json (cacheEntry row.status fresh body true)), []⟩, sheet)) ∨
    (findInCache pf x sheet url (headersOf req) = .ok none ∧ x.ok .openForStore = false ∧
      doCached pf origin x sheet url req
        = (⟨req, .miss, .ok (relayPlain pf origin url req).1, (relayPlain pf origin url req).2⟩,
          sheet)) ∨
    (findInCache pf x sheet url (headersOf req) = .ok none ∧ x.ok .openForStore = true ∧
      ∀ resp, origin (FetchArg.sent pf ⟨url, cacheOpts⟩) = .ok resp →
        (store pf x sheet url (headersOf req) resp).2 = true →
        doCached pf origin x sheet url req
          = (⟨req, .miss, .ok (.json (cacheEntry resp.code resp.headers
              (.str (base64Encode resp.content)) false)), [⟨url, cacheOpts⟩]⟩,
            (store pf x sheet url (headersOf req) resp).1)) := by
  unfold doCached
  rcases getFromCache_cases pf x sheet url (headersOf req) with
    ⟨err, hget⟩ | ⟨row, fresh, body, hfind, hbody, hget⟩ | ⟨hfind, hget⟩
  · rw [hget]
    exact Or.inl ⟨err, rfl⟩
  · rw [hget]
    exact Or.inr (Or.inl ⟨row, fresh, body, hfind, hbody, rfl⟩)
  · rw [hget]
    refine Or.inr (Or.inr ?_)
    unfold fetchAndCache
    cases hopen : x.ok .openForStore with
    | false => exact Or.inl ⟨hfind, rfl, rfl⟩
    | true =>
        refine Or.inr ⟨hfind, rfl, fun resp hresp hdone => ?_⟩
        have hstore : store pf x sheet url (headersOf req) resp
            = ((store pf x sheet url (headersOf req) resp).1, true) := Prod.ext rfl hdone
        dsimp only
        rw [hresp]
        dsimp only
        rw [hstore]
        rfl

end

/-! ## Whole runs -/

section

variable (pf : Platform) (origin : Origin)

/-- The row was stored by a miss of a request that meets `Bare`. -/
structure StoredBy (row : Row) (resp : Response) (y : Served) : Prop where
  holds : row.Holds pf row.url resp
  cacheable : canUseCache pf y.req = .ok true
  url : urlOf y.req = some row.url
  bare : Bare pf row.url y.req
  lookup : y.lookup = .miss
  output : y.output = .ok (.json (cacheEntry resp.code resp.headers
    (.str (base64Encode resp.content)) false))

structure SheetState.Inv (s : SheetState) : Prop where
  agree : AllAgree pf origin s.served
  rows : ∀ row, some row ∈ s.sheet.rows → ∃ y ∈ s.served, ∃ resp, StoredBy pf row resp y

end

section

variable {pf : Platform} {origin : Origin} {x : Execution} {sheet : Sheet} {url : String}
variable {req : Json} {served : List Served}

/-- A hit of a row that an earlier miss stored. -/
theorem hit_agrees {row : Row} {y : Served} {resp : Response} {fresh body : Json}
    (hcan : canUseCache pf req = .ok true) (hurl : urlOf req = some url) (hbare : Bare pf url req)
    (hrow : row.url = url) (hread : pf.readCell row.body = .str row.body)
    (hbody : row.bodyField pf = .ok body) (hy : y ∈ served) (hstored : StoredBy pf row resp y) :
    Served.Agrees pf origin served
      ⟨req, .hit, .ok (.json (cacheEntry row.status fresh body true)), []⟩ := by
  subst hrow
  have hbody : body = .str (base64Encode resp.content) := by
    rw [hstored.holds.bodyField hread] at hbody
    exact (Except.ok.inj hbody).symm
  refine ⟨y, hy, hstored.lookup, ?_, _, _, rfl, hstored.output, ?_⟩
  · unfold plainOutput
    rw [hstored.url, hurl, Option.map_some, Option.map_some,
      relayPlain_congr hstored.cacheable hstored.bare hcan hbare]
  · rw [hbody, hstored.holds.status]
    intro key hkey
    rcases List.mem_cons.mp hkey with rfl | hkey
    · rfl
    · rw [List.mem_singleton.mp hkey]
      rfl

/-- A miss whose row was stored, or did not have to be. -/
theorem miss_agrees {resp : Response} (hcan : canUseCache pf req = .ok true)
    (hurl : urlOf req = some url) (hbare : Bare pf url req)
    (hresp : origin (bareSent url) = .ok resp) :
    Served.Agrees pf origin served ⟨req, .miss, .ok (.json (cacheEntry resp.code resp.headers
      (.str (base64Encode resp.content)) false)), [⟨url, cacheOpts⟩]⟩ := by
  refine ⟨rfl, _, .json (answerEntry resp), rfl, ?_, ?_⟩
  · unfold plainOutput
    rw [hurl, Option.map_some, relayPlain_of_bare hcan hbare hresp]
  · intro key hkey
    rcases List.mem_cons.mp hkey with rfl | hkey
    · rfl
    rcases List.mem_cons.mp hkey with rfl | hkey
    · rfl
    · rw [List.mem_singleton.mp hkey]
      rfl

/-- A miss while there is no sheet to store a row in. -/
theorem plain_miss_agrees (hcan : canUseCache pf req = .ok true) (hurl : urlOf req = some url) :
    Served.Agrees pf origin served ⟨req, .miss, .ok (relayPlain pf origin url req).1,
      (relayPlain pf origin url req).2⟩ := by
  refine ⟨length_relayPlain hcan, _, _, rfl, ?_, fun _ _ => rfl⟩
  unfold plainOutput
  rw [hurl, Option.map_some]

/-- A request on the cache path keeps the invariant. -/
theorem doCached_inv (hInv : SheetState.Inv pf origin ⟨sheet, served⟩)
    (hcan : canUseCache pf req = .ok true) (hurl : urlOf req = some url)
    (hplain : Plain pf origin sheet x url req) :
    SheetState.Inv pf origin ⟨(doCached pf origin x sheet url req).2,
      (doCached pf origin x sheet url req).1 :: served⟩ := by
  have hkept : ∀ (r : Served) (row : Row), some row ∈ sheet.rows →
      ∃ y ∈ r :: served, ∃ resp, StoredBy pf row resp y := by
    intro r row hrow
    obtain ⟨y, hy, hstored⟩ := hInv.rows row hrow
    exact ⟨y, List.mem_cons_of_mem _ hy, hstored⟩
  rcases doCached_cases pf origin x sheet url req with
    ⟨err, hout⟩ | ⟨row, fresh, body, hfind, hbody, hout⟩ | ⟨hfind, hopen, hout⟩ |
    ⟨hfind, hopen, hout⟩
  · rw [hout]
    exact ⟨⟨trivial, hInv.agree⟩, hkept _⟩
  · rw [hout]
    obtain ⟨hbare, hrow, hread⟩ := hplain.hit row hfind
    obtain ⟨y, hy, resp, hstored⟩ := hInv.rows row (mem_of_findInCache hfind)
    exact ⟨⟨hit_agrees hcan hurl hbare hrow hread hbody hy hstored, hInv.agree⟩, hkept _⟩
  · rw [hout]
    exact ⟨⟨plain_miss_agrees hcan hurl, hInv.agree⟩, hkept _⟩
  · obtain ⟨hbare, resp, hresp, hstorable⟩ := hplain.miss hfind hopen
    obtain ⟨hash, hkey⟩ := getCacheKey_of_bare hbare
    have hout := hout resp ((congrArg origin (sent_cacheOpts hbare)).trans hresp)
      (store_done hstorable hkey)
    rw [hout]
    refine ⟨⟨miss_agrees hcan hurl hbare hresp, hInv.agree⟩, fun row hrow => ?_⟩
    rcases mem_store hrow with hmem | hholds
    · exact hkept _ row hmem
    · refine ⟨_, List.mem_cons_self, resp, ?_⟩
      have hrowUrl := hholds.url
      subst hrowUrl
      exact ⟨hholds, hcan, hurl, hbare, rfl, rfl⟩

theorem Sheet.mem_clearExpiredCache {now : Nat} {row : Row}
    (h : some row ∈ (sheet.clearExpiredCache now).rows) : some row ∈ sheet.rows := by
  obtain ⟨r, hr, heq⟩ := List.mem_map.mp h
  have hsome := (Option.filter_eq_some_iff.mp heq).1
  rwa [hsome] at hr

namespace SheetState

variable {s t : SheetState} {e : SheetEvent}

theorem step_inv (hInv : s.Inv pf origin) (hmeets : s.Meets pf origin e)
    (hstep : s.step pf origin e = some t) : t.Inv pf origin := by
  cases e with
  | clearExpiredCache now =>
      cases hstep
      exact ⟨hInv.agree, fun row hrow => hInv.rows row (Sheet.mem_clearExpiredCache hrow)⟩
  | clearEntireCache =>
      cases hstep
      exact ⟨hInv.agree, fun _ hrow => (nomatch hrow)⟩
  | request x req =>
      have hkept : ∀ r : Served, r.lookup = .unused → Inv pf origin ⟨s.sheet, r :: s.served⟩ := by
        intro r hr
        refine ⟨⟨?_, hInv.agree⟩, fun row hrow => ?_⟩
        · unfold Served.Agrees
          rw [hr]
          trivial
        · obtain ⟨y, hy, hstored⟩ := hInv.rows row hrow
          exact ⟨y, List.mem_cons_of_mem _ hy, hstored⟩
      have ht : t = ⟨(doSingle pf origin x s.sheet req).2,
        (doSingle pf origin x s.sheet req).1 :: s.served⟩ := (Option.some.inj hstep).symm
      rw [ht]
      unfold doSingle
      split
      · exact hkept _ rfl
      rename_i url hurl
      split
      · exact hkept _ rfl
      · exact hkept _ rfl
      · rename_i hcan
        exact doCached_inv hInv hcan hurl (hmeets hcan url hurl)

theorem empty_inv : (empty).Inv pf origin := ⟨trivial, fun _ hrow => (nomatch hrow)⟩

/-- Along a run whose requests meet the condition, the cache path answers as the plain path does. -/
theorem run_agrees (pf : Platform) (origin : Origin) (events : List SheetEvent)
    (hall : StepRun.AllSteps (step pf origin) (Meets pf origin) .empty events) :
    StepRun.AllStates (step pf origin) (fun s => AllAgree pf origin s.served) .empty events :=
  StepRun.allStates_of_allSteps (I := Inv pf origin)
    (fun _ _ _ hInv hmeets hstep => step_inv hInv hmeets hstep) (fun _ hInv => hInv.agree)
    empty_inv hall

end SheetState

end

/-! ## Runs on one page -/

def pageUrl : String := "https://a.example/"

/-- Two digits. -/
def twoDigits (n : Nat) : String :=
  String.ofList [Nat.digitChar (n / 10), Nat.digitChar (n % 10)]

/-- The minutes and seconds of a time. -/
def minutesText (ms : Nat) : String :=
  twoDigits (ms / 60000 % 60) ++ ":" ++ twoDigits (ms / 1000 % 60)

/-- The day of a time in January 1970. -/
def dayOf (ms : Nat) : Nat := ms / 86400000 + 1

def hourOf (ms : Nat) : Nat := ms / 3600000 % 24

/-- A platform for the page, in January 1970, and short bodies. -/
def Platform.page : Platform where
  toEngine := .ascii
  cacheSpreadsheetId := "RelaySpreadsheet"
  md5 input :=
    if input = pageUrl ++ "|accept-encoding:<none>|accept-language:<none>" then
      [192, 193, 92, 208, 43, 39, 30, 135, 162, 147, 33, 150, 19, 70, 130, 89]
    else []
  numText n := toString n
  stringify _ := "\x7b\x7d"
  isoText ms :=
    "1970-01-" ++ twoDigits (dayOf ms) ++ "T" ++ twoDigits (hourOf ms) ++ ":" ++ minutesText ms ++
      "." ++ toString (ms / 100 % 10) ++ twoDigits (ms % 100) ++ "Z"
  utcText ms :=
    ["Wed", "Thu", "Fri", "Sat", "Sun", "Mon", "Tue"].getD (dayOf ms % 7) "" ++ ", " ++
      twoDigits (dayOf ms) ++ " Jan 1970 " ++ twoDigits (hourOf ms) ++ ":" ++ minutesText ms ++
      " GMT"
  dateText ms :=
    "1/" ++ toString (dayOf ms) ++ "/1970 " ++ toString (hourOf ms) ++ ":" ++ minutesText ms
  gzip := id
  ungzip := .ok
  escapeUrl := id
  readCell := .str
  showCell := id
  toLowerCase_ascii _ _ := rfl
  ungzip_gzip _ := rfl
  base64Decode_encode := ascii_base64Decode

/-- The page has two bytes, and answers a request for a range with one. -/
def pageOrigin : Origin := fun sent =>
  if sent.headers.any fun p => p.1 == "Range" then .ok ⟨206, .obj [], [0x68]⟩
  else .ok ⟨200, .obj [], [0x68, 0x69]⟩

/-- An execution at this time in which every call succeeds. -/
def executionAt (now : Nat) : Execution := ⟨fun _ => true, fun _ => "", now⟩

def pageRequest : Json := .obj [("u", .str pageUrl)]

def rangeRequest : Json := .obj [("u", .str pageUrl), ("h", .obj [("Range", .str "bytes=0-0")])]

theorem pageRequest_meets {s : SheetState} {now : Nat}
    (h : (s.sheet.rows.all fun r => r.all fun row => row.url == pageUrl) = true) :
    s.Meets .page pageOrigin (.request (executionAt now) pageRequest) := by
  intro _ url hurl
  have hpage : urlOf pageRequest = some pageUrl := by decide +kernel
  have hurl : pageUrl = url := Option.some.inj (hpage.symm.trans hurl)
  subst hurl
  have hbare : Bare .page pageUrl pageRequest :=
    ⟨fun _ hhead => (nomatch hhead), fun hr => (nomatch hr), fun hraw => (nomatch hraw), rfl⟩
  refine ⟨fun row hfind => ⟨hbare, ?_, rfl⟩, fun _ _ => ⟨hbare, _, rfl, ?_, fun _ _ => rfl⟩⟩
  · have hrow := List.all_eq_true.mp h _ (mem_of_findInCache hfind)
    exact eq_of_beq hrow
  · exact fun _ v hv => (nomatch hv)

/-- The page is fetched, and then served from its row. -/
theorem run_agrees_page :
    StepRun.AllSteps (SheetState.step .page pageOrigin) (SheetState.Meets .page pageOrigin) .empty
      [.request (executionAt 0) pageRequest, .request (executionAt 1000) pageRequest] ∧
    (StepRun.run (SheetState.step .page pageOrigin) .empty
      [.request (executionAt 0) pageRequest, .request (executionAt 1000) pageRequest]).map
        (fun s => s.served.map Served.lookup) = some [.hit, .miss] ∧
    StepRun.AllStates (SheetState.step .page pageOrigin)
      (fun s => AllAgree .page pageOrigin s.served) .empty
      [.request (executionAt 0) pageRequest, .request (executionAt 1000) pageRequest] := by
  have hall : StepRun.AllSteps (SheetState.step .page pageOrigin)
      (SheetState.Meets .page pageOrigin) .empty
      [.request (executionAt 0) pageRequest, .request (executionAt 1000) pageRequest] := by
    refine (StepRun.allSteps_cons_of_some rfl).mpr ⟨pageRequest_meets rfl,
      (StepRun.allSteps_cons_of_some rfl).mpr ⟨pageRequest_meets (by decide +kernel), trivial⟩⟩
  exact ⟨hall, by decide +kernel, SheetState.run_agrees .page pageOrigin _ hall⟩

/-- The number in the `s` field. -/
def Output.status (out : Output) : Option Rat :=
  match out.field "s" with
  | some (.num n) => some n
  | _ => none

/-- A request for a range is answered with the whole page, by a fetch without its header; and when
the row cannot be written the page is fetched twice. -/
theorem range_not_agrees :
    ¬ StepRun.AllStates (SheetState.step .page pageOrigin)
      (fun s => AllAgree .page pageOrigin s.served) .empty
      [.request (executionAt 0) rangeRequest] ∧
    ¬ StepRun.AllStates (SheetState.step .page pageOrigin)
      (fun s => AllAgree .page pageOrigin s.served) .empty
      [.request { executionAt 0 with ok := fun c => decide (c ≠ .setValues) } pageRequest] := by
  have hmissed : ∀ (x : Execution) (req : Json) (r : Served),
      StepRun.AllStates (SheetState.step .page pageOrigin)
        (fun s => AllAgree .page pageOrigin s.served) .empty [.request x req] →
      (doSingle .page pageOrigin x .empty req).1 = r → r.lookup = .miss →
      r.fetches.length = 1 ∧
        r.output.toOption.map Output.status
          = (plainOutput .page pageOrigin r.req).map Output.status := by
    rintro x req r ⟨-, hlast⟩ hr hmiss
    have hagrees : Served.Agrees .page pageOrigin [] (doSingle .page pageOrigin x .empty req).1 :=
      (hlast _ rfl).1
    rw [hr] at hagrees
    unfold Served.Agrees at hagrees
    rw [hmiss] at hagrees
    obtain ⟨hone, out, plain, hout, hplain, hsame⟩ := hagrees
    have hs : out.field "s" = plain.field "s" := hsame "s" List.mem_cons_self
    refine ⟨hone, ?_⟩
    rw [hout, hplain]
    show some out.status = some plain.status
    unfold Output.status
    rw [hs]
  constructor
  · intro hall
    have hstatus := (hmissed _ _ _ hall rfl (by decide +kernel)).2
    revert hstatus
    decide +kernel
  · intro hall
    have hone := (hmissed _ _ _ hall rfl (by decide +kernel)).1
    revert hone
    decide +kernel

end Rahgozar.AppsScript
