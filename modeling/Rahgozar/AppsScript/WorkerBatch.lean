import Rahgozar.AppsScript.RelayBatch

set_option autoImplicit false

/-! # Batches behind a Worker (`assets/apps_script/Code.cfw.gs`)

`_doBatch` of this variant sends the valid items to a Worker in chunks, one call for each, and puts
the answer together from the Worker's results and a table of errors. An item that is not even an
object is read like one.
-/

namespace Rahgozar.AppsScript.Worker

def workerBatchChunk : Nat := 40

section

variable (js : Engine)

/-- `(item.m || "GET").toUpperCase()` -/
def methodOf (item : Json) : Except String String :=
  match item.getTruthy "m" with
  | none => .ok (js.toUpperCase "GET")
  | some (.str m) => .ok (js.toUpperCase m)
  | some _ => .error js.typeError

/-- `_scrubHeaders` of the headers of an item. -/
def scrubHeaders (item : Json) : Except String (List (String × Json)) :=
  match headersOf item with
  | none => .ok []
  | some h => forwardedHeaders js h

/-- `_normalizeItem` -/
def normalizeItem (item : Json) : Except String Json := do
  let m ← methodOf js item
  let h ← scrubHeaders js item
  pure (.obj [("u", (item.get "u").getD .null), ("m", .str m), ("h", .obj h),
    ("b", (item.getTruthy "b").getD .null), ("ct", (item.getTruthy "ct").getD .null),
    ("r", .bool (match item.get "r" with | some (.bool false) => false | _ => true))])

/-- The URL of an item. A property of `null` cannot be read. -/
def readUrl (item : Json) : Except String (Option String) :=
  match item with
  | .null => .error js.typeError
  | _ => .ok (urlOf item)

/-- The first loop: the items for the Worker and the table of errors. -/
def prepare (i : Nat) : List Json → Except String (List Json × (Nat → Option String))
  | [] => pure ([], fun _ => none)
  | item :: items => do
      match ← readUrl js item with
      | none =>
          let rest ← prepare (i + 1) items
          pure (rest.1, Function.update rest.2 i (some "bad url"))
      | some _ =>
          let valid ← normalizeItem js item
          let rest ← prepare (i + 1) items
          pure (valid :: rest.1, rest.2)

end

/-- The slices of `n` items. -/
def chunksOf {α : Type} (n : Nat) : Nat → List α → List (List α)
  | 0, _ => []
  | _ + 1, [] => []
  | fuel + 1, a :: l => (a :: l).take n :: chunksOf n fuel ((a :: l).drop n)

/-- How the calls of the Worker come out: they throw, or each chunk has a reply that has been
parsed. -/
structure Replies where
  unreachable : Option String
  parsed : Nat → Json

/-- The results for one chunk. -/
def chunkResults (reply : Json) (chunk : List Json) : List Json :=
  match reply.get "q" with
  | some (.arr q) => q
  | _ =>
      List.replicate chunk.length
        (errorEntry ((reply.getTruthy "e").getD (.str "worker batch failure")))

/-- The results for the chunks, from this one on. -/
def chunksResults (w : Replies) (r : Nat) : List (List Json) → List Json
  | [] => []
  | chunk :: chunks => chunkResults (w.parsed r) chunk ++ chunksResults w (r + 1) chunks

def workerResults (w : Replies) (validItems : List Json) : List Json :=
  match w.unreachable with
  | some e => List.replicate validItems.length (errorEntry (.str ("worker unreachable: " ++ e)))
  | none => chunksResults w 0 (chunksOf workerBatchChunk validItems.length validItems)

/-- The last loop, from the item with this index and with this `wi`. -/
def assemble (results : List Json) (errorMap : Nat → Option String) (i wi : Nat) :
    List Json → List Json
  | [] => []
  | _ :: items =>
      match errorMap i with
      | some e => errorEntry (.str e) :: assemble results errorMap (i + 1) wi items
      | none =>
          (results[wi]?.filter Json.truthy).getD (errorEntry (.str "missing worker response")) ::
            assemble results errorMap (i + 1) (wi + 1) items

/-- `_doBatch` -/
def doBatch (js : Engine) (w : Replies) (items : List Json) : Except String (List Json) := do
  let (validItems, errorMap) ← prepare js 0 items
  pure (assemble (workerResults w validItems) errorMap 0 0 items)

/-! ## What was fetched -/

/-- What the Worker has fetched for the valid item with this number. -/
def resultOf (w : Replies) (v : Nat) : Option Json :=
  if w.unreachable.isSome then none
  else
    match (w.parsed (v / workerBatchChunk)).get "q" with
    | some (.arr q) => (q[v % workerBatchChunk]?).filter Json.truthy
    | _ => none

/-- For each item what was fetched for it, from the valid item with this number on. -/
def fetchedFor (w : Replies) (v : Nat) : List Json → List (Option Json)
  | [] => []
  | item :: items =>
      match urlOf item with
      | none => none :: fetchedFor w v items
      | some _ => resultOf w v :: fetchedFor w (v + 1) items

/-- Every chunk has one result for each of its items, or an error. -/
def Answers (js : Engine) (w : Replies) (items : List Json) : Prop :=
  ∀ validItems errorMap, prepare js 0 items = .ok (validItems, errorMap) →
    ∀ (r : Nat) (chunk q : List Json), (chunksOf workerBatchChunk validItems.length validItems)[r]?
      = some chunk → (w.parsed r).get "q" = some (.arr q) → q.length = chunk.length

/-- An item whose properties the first loop can read: not `null`, and if its URL is one, then its
method is a string or none and its headers do not shadow `hasOwnProperty`. -/
def Readable (item : Json) : Prop :=
  item ≠ .null ∧ ((urlOf item).isSome →
    (∀ m, item.getTruthy "m" = some m → ∃ s, m = .str s) ∧
      ∀ h, headersOf item = some h → h.get "hasOwnProperty" = none)

variable {js : Engine} {w : Replies} {items : List Json}

/-! ## The first loop -/

theorem bind_eq_ok {α β : Type} {x : Except String α} {f : α → Except String β} {b : β} :
    (x >>= f) = .ok b ↔ ∃ a, x = .ok a ∧ f a = .ok b := by
  cases x with
  | error e => exact ⟨fun h => (nomatch h), fun ⟨_, h, _⟩ => nomatch h⟩
  | ok a => exact ⟨fun h => ⟨a, rfl, h⟩, fun ⟨_, ha, h⟩ => (Except.ok.inj ha) ▸ h⟩

theorem methodOf_isOk_iff (js : Engine) (item : Json) :
    (∃ m, methodOf js item = .ok m) ↔ ∀ m, item.getTruthy "m" = some m → ∃ s, m = .str s := by
  unfold methodOf
  split
  · rename_i hnone
    rw [hnone]
    exact ⟨fun _ _ h => (nomatch h), fun _ => ⟨_, rfl⟩⟩
  · rename_i s hstr
    rw [hstr]
    exact ⟨fun _ m h => ⟨s, (Option.some.inj h).symm⟩, fun _ => ⟨_, rfl⟩⟩
  · rename_i m hother hm
    constructor
    · rintro ⟨_, h⟩
      cases h
    · intro h
      obtain ⟨s, rfl⟩ := h m hm
      exact absurd rfl (hother s)

theorem scrubHeaders_isOk_iff (js : Engine) (item : Json) :
    (∃ hs, scrubHeaders js item = .ok hs) ↔
      ∀ h, headersOf item = some h → h.get "hasOwnProperty" = none := by
  unfold scrubHeaders
  split
  · rename_i hnone
    rw [hnone]
    exact ⟨fun _ _ h => (nomatch h), fun _ => ⟨_, rfl⟩⟩
  · rename_i h hh
    rw [hh]
    unfold forwardedHeaders
    split_ifs with hown
    · constructor
      · rintro ⟨_, h⟩
        cases h
      · intro hnone
        rw [hnone h rfl] at hown
        cases hown
    · refine ⟨fun _ h' hh' => ?_, fun _ => ⟨_, rfl⟩⟩
      rw [← Option.some.inj hh']
      exact Option.not_isSome_iff_eq_none.mp hown

theorem normalizeItem_isOk_iff (item : Json) :
    (∃ v, normalizeItem js item = .ok v) ↔
      (∀ m, item.getTruthy "m" = some m → ∃ s, m = .str s) ∧
        ∀ h, headersOf item = some h → h.get "hasOwnProperty" = none := by
  rw [← methodOf_isOk_iff js, ← scrubHeaders_isOk_iff js]
  unfold normalizeItem
  constructor
  · rintro ⟨v, hv⟩
    obtain ⟨m, hm, hrest⟩ := bind_eq_ok.mp hv
    obtain ⟨h, hh, -⟩ := bind_eq_ok.mp hrest
    exact ⟨⟨m, hm⟩, ⟨h, hh⟩⟩
  · rintro ⟨⟨m, hm⟩, ⟨h, hh⟩⟩
    exact ⟨_, bind_eq_ok.mpr ⟨m, hm, bind_eq_ok.mpr ⟨h, hh, rfl⟩⟩⟩

theorem readUrl_eq_ok {item : Json} {url : Option String} :
    readUrl js item = .ok url ↔ item ≠ .null ∧ url = urlOf item := by
  unfold readUrl
  split
  · exact ⟨fun h => (nomatch h), fun h => absurd rfl h.1⟩
  · rename_i hnull
    exact ⟨fun h => ⟨hnull, (Except.ok.inj h).symm⟩, fun h => by rw [h.2]⟩

/-- What the first loop does with an item that it can read. -/
theorem prepare_cons_eq_ok {i : Nat} {item : Json} {items valid : List Json}
    {errorMap : Nat → Option String} :
    prepare js i (item :: items) = .ok (valid, errorMap) ↔
      item ≠ .null ∧ ∃ rest restMap, prepare js (i + 1) items = .ok (rest, restMap) ∧
        ((urlOf item = none ∧ valid = rest ∧
            errorMap = Function.update restMap i (some "bad url")) ∨
          ∃ url v, urlOf item = some url ∧ normalizeItem js item = .ok v ∧ valid = v :: rest ∧
            errorMap = restMap) := by
  constructor
  · intro h
    unfold prepare at h
    obtain ⟨url, hread, h⟩ := bind_eq_ok.mp h
    obtain ⟨hnull, rfl⟩ := readUrl_eq_ok.mp hread
    refine ⟨hnull, ?_⟩
    cases hurl : urlOf item with
    | none =>
        rw [hurl] at h
        obtain ⟨⟨rest, restMap⟩, hrest, hpure⟩ := bind_eq_ok.mp h
        cases hpure
        exact ⟨rest, restMap, hrest, .inl ⟨rfl, rfl, rfl⟩⟩
    | some url =>
        rw [hurl] at h
        obtain ⟨v, hv, h⟩ := bind_eq_ok.mp h
        obtain ⟨⟨rest, restMap⟩, hrest, hpure⟩ := bind_eq_ok.mp h
        cases hpure
        exact ⟨rest, restMap, hrest, .inr ⟨url, v, rfl, hv, rfl, rfl⟩⟩
  · rintro ⟨hnull, rest, restMap, hrest, hitem⟩
    unfold prepare
    refine bind_eq_ok.mpr ⟨urlOf item, readUrl_eq_ok.mpr ⟨hnull, rfl⟩, ?_⟩
    rcases hitem with ⟨hurl, rfl, rfl⟩ | ⟨url, v, hurl, hv, rfl, rfl⟩
    · rw [hurl]
      exact bind_eq_ok.mpr ⟨_, hrest, rfl⟩
    · rw [hurl]
      exact bind_eq_ok.mpr ⟨v, hv, bind_eq_ok.mpr ⟨_, hrest, rfl⟩⟩

/-- The first loop goes through when it can read every item. -/
theorem prepare_isOk_iff (js : Engine) (i : Nat) (items : List Json) :
    (∃ p, prepare js i items = .ok p) ↔ ∀ item ∈ items, Readable item := by
  induction items generalizing i with
  | nil => exact ⟨fun _ _ h => (nomatch h), fun _ => ⟨_, rfl⟩⟩
  | cons item items ih =>
      rw [List.forall_mem_cons, ← ih (i + 1)]
      constructor
      · rintro ⟨⟨valid, errorMap⟩, h⟩
        obtain ⟨hnull, rest, restMap, hrest, hitem⟩ := prepare_cons_eq_ok.mp h
        refine ⟨⟨hnull, fun hurl => ?_⟩, ⟨_, hrest⟩⟩
        rcases hitem with ⟨hnone, -⟩ | ⟨url, v, -, hv, -⟩
        · rw [hnone] at hurl
          cases hurl
        · exact (normalizeItem_isOk_iff item).mp ⟨v, hv⟩
      · rintro ⟨⟨hnull, hread⟩, ⟨⟨rest, restMap⟩, hrest⟩⟩
        cases hurl : urlOf item with
        | none =>
            exact ⟨(rest, _), prepare_cons_eq_ok.mpr ⟨hnull, rest, restMap, hrest,
              .inl ⟨hurl, rfl, rfl⟩⟩⟩
        | some url =>
            obtain ⟨v, hv⟩ := (normalizeItem_isOk_iff item).mpr (hread (by rw [hurl]; rfl))
            exact ⟨(v :: rest, restMap), prepare_cons_eq_ok.mpr ⟨hnull, rest, restMap, hrest,
              .inr ⟨url, v, hurl, hv, rfl, rfl⟩⟩⟩

theorem prepare_errorMap_of_lt {i k : Nat} {items valid : List Json}
    {errorMap : Nat → Option String}
    (h : prepare js i items = .ok (valid, errorMap)) (hk : k < i) : errorMap k = none := by
  induction items generalizing i valid errorMap with
  | nil =>
      cases h
      rfl
  | cons item items ih =>
      obtain ⟨-, rest, restMap, hrest, hitem⟩ := prepare_cons_eq_ok.mp h
      have hnone := ih hrest (Nat.lt_succ_of_lt hk)
      rcases hitem with ⟨-, -, rfl⟩ | ⟨_, _, -, -, -, rfl⟩
      · exact (Function.update_of_ne (Nat.ne_of_lt hk) _ _).trans hnone
      · exact hnone

/-! ## The chunks -/

theorem length_chunkResults {reply : Json} {chunk : List Json}
    (h : ∀ q, reply.get "q" = some (.arr q) → q.length = chunk.length) :
    (chunkResults reply chunk).length = chunk.length := by
  unfold chunkResults
  split
  · rename_i q hq
    exact h q hq
  · exact List.length_replicate

/-- The result for an item is the one its chunk has for its place in it. -/
theorem chunksResults_getElem? {n : Nat} (hn : 0 < n) (fuel r u : Nat) {l : List Json}
    (hfuel : l.length ≤ fuel) (hu : u < l.length)
    (h : ∀ k chunk q, (chunksOf n fuel l)[k]? = some chunk →
      (w.parsed (r + k)).get "q" = some (.arr q) → q.length = chunk.length) :
    ∃ chunk, (chunksOf n fuel l)[u / n]? = some chunk ∧ u % n < chunk.length ∧
      (chunksResults w r (chunksOf n fuel l))[u]?
        = (chunkResults (w.parsed (r + u / n)) chunk)[u % n]? := by
  induction fuel generalizing r u l with
  | zero => omega
  | succ fuel ih =>
      obtain ⟨a, l, rfl⟩ : ∃ a l', l = a :: l' := List.exists_cons_of_length_pos (by omega)
      have hchunks : chunksOf n (fuel + 1) (a :: l)
          = (a :: l).take n :: chunksOf n fuel ((a :: l).drop n) := rfl
      have hfirst : (chunkResults (w.parsed r) ((a :: l).take n)).length =
          ((a :: l).take n).length :=
        length_chunkResults fun q hq => h 0 _ q (by rw [hchunks]; rfl) hq
      rw [hchunks]
      by_cases hlt : u < n
      · have hmem : u < ((a :: l).take n).length := by
          rw [List.length_take]
          exact lt_min hlt hu
        refine ⟨(a :: l).take n, ?_, ?_, ?_⟩
        · rw [Nat.div_eq_of_lt hlt]
          rfl
        · rwa [Nat.mod_eq_of_lt hlt]
        · rw [Nat.div_eq_of_lt hlt, Nat.mod_eq_of_lt hlt]
          exact List.getElem?_append_left (hfirst ▸ hmem)
      · -- one chunk less
        have hle : n ≤ u := Nat.le_of_not_lt hlt
        have hlen : ((a :: l).take n).length = n := by
          rw [List.length_take]
          omega
        have hdiv : u / n = (u - n) / n + 1 := by
          rw [← Nat.add_div_right _ hn, Nat.sub_add_cancel hle]
        have hmod : u % n = (u - n) % n := Nat.mod_eq_sub_mod hle
        obtain ⟨chunk, hchunk, hplace, hresult⟩ := ih (r + 1) (u - n) (l := (a :: l).drop n)
          (by rw [List.length_drop]; simp only [List.length_cons] at hfuel hu ⊢; omega)
          (by rw [List.length_drop]; omega)
          fun k chunk q hk hq => h (k + 1) chunk q (by rw [hchunks]; exact hk)
            (by rw [← Nat.add_assoc, Nat.add_right_comm]; exact hq)
        refine ⟨chunk, by rw [hdiv]; exact hchunk, hmod ▸ hplace, ?_⟩
        rw [hdiv, hmod, ← Nat.add_assoc, Nat.add_right_comm, ← hresult]
        show (chunkResults (w.parsed r) ((a :: l).take n) ++ _)[u]? = _
        rw [List.getElem?_append_right (by omega), hfirst, hlen]

/-- The result with number `u`, as the last loop takes it. -/
theorem workerResults_fits {valid : List Json}
    (h : ∀ (r : Nat) (chunk q : List Json),
      (chunksOf workerBatchChunk valid.length valid)[r]? = some chunk →
        (w.parsed r).get "q" = some (.arr q) → q.length = chunk.length)
    {u : Nat} (hu : u < valid.length) :
    Fits (resultOf w u) (((workerResults w valid)[u]?.filter Json.truthy).getD
      (errorEntry (.str "missing worker response"))) := by
  unfold resultOf workerResults
  cases w.unreachable with
  | some e =>
      rw [List.getElem?_replicate_of_lt hu]
      exact ⟨_, rfl⟩
  | none =>
      obtain ⟨chunk, -, hplace, hresult⟩ := chunksResults_getElem? (w := w) (n := workerBatchChunk)
        (by decide) valid.length 0 u le_rfl hu fun k chunk q => by
          rw [Nat.zero_add]
          exact h k chunk q
      rw [Nat.zero_add] at hresult
      dsimp only
      rw [hresult, if_neg nofun]
      unfold chunkResults
      split
      · rename_i q hq
        cases (q[u % workerBatchChunk]?).filter Json.truthy with
        | none => exact ⟨_, rfl⟩
        | some r => rfl
      · rw [List.getElem?_replicate_of_lt hplace]
        exact ⟨_, rfl⟩

theorem length_fetchedFor (v : Nat) (items : List Json) :
    (fetchedFor w v items).length = items.length := by
  induction items generalizing v with
  | nil => rfl
  | cons item items ih =>
      unfold fetchedFor
      split
      · exact congrArg (· + 1) (ih _)
      · exact congrArg (· + 1) (ih _)

/-- **The last loop**: its running index counts the items that have been sent to the Worker. -/
theorem assemble_fits {results valid : List Json} {errorMap restMap : Nat → Option String}
    {i v : Nat} {items : List Json} (hprepare : prepare js i items = .ok (valid, restMap))
    (hmap : ∀ k, i ≤ k → errorMap k = restMap k)
    (hresults : ∀ u, v ≤ u → u < v + valid.length → Fits (resultOf w u)
      ((results[u]?.filter Json.truthy).getD (errorEntry (.str "missing worker response")))) :
    List.Forall₂ Fits (fetchedFor w v items) (assemble results errorMap i v items) := by
  induction items generalizing i v valid restMap with
  | nil => exact .nil
  | cons item items ih =>
      obtain ⟨-, rest, later, hrest, hitem⟩ := prepare_cons_eq_ok.mp hprepare
      have hi := hmap i le_rfl
      unfold fetchedFor assemble
      rcases hitem with ⟨hurl, rfl, rfl⟩ | ⟨url, sent, hurl, -, rfl, rfl⟩
      · rw [Function.update_self] at hi
        rw [hi, hurl]
        refine .cons ⟨_, rfl⟩ (ih hrest (fun k hk => ?_) hresults)
        rw [hmap k (Nat.le_of_succ_le hk), Function.update_of_ne (Nat.ne_of_gt hk)]
      · rw [prepare_errorMap_of_lt hrest (Nat.lt_succ_self i)] at hi
        rw [hi, hurl]
        rw [List.length_cons] at hresults
        refine .cons (hresults v le_rfl (by omega)) (ih hrest (fun k hk => ?_) fun u hu hlt => ?_)
        · exact hmap k (Nat.le_of_succ_le hk)
        · exact hresults u (by omega) (by omega)

/-- A batch is answered, item by item, when every item can be read. -/
theorem doBatch_positional (hanswers : Answers js w items) :
    (∃ q, doBatch js w items = .ok q ∧ Positional items (fetchedFor w 0 items) q) ↔
      ∀ item ∈ items, Readable item := by
  rw [← prepare_isOk_iff js 0]
  constructor
  · rintro ⟨q, hq, -⟩
    obtain ⟨p, hp, -⟩ := bind_eq_ok.mp hq
    exact ⟨p, hp⟩
  · rintro ⟨⟨valid, errorMap⟩, hprepare⟩
    refine ⟨_, bind_eq_ok.mpr ⟨_, hprepare, rfl⟩, ?_⟩
    refine positional_of_fits (assemble_fits hprepare (fun _ _ => rfl) fun u _ hu => ?_)
      (length_fetchedFor 0 items)
    exact workerResults_fits (hanswers valid errorMap hprepare) (by omega)

end Rahgozar.AppsScript.Worker

namespace Rahgozar.AppsScript

/-- **Batches are answered item by item**: by `Code.gs` and `CodeFull.gs` exactly when no fetch of
the fallback fails before one that succeeds, and by `Code.cfw.gs`, with a Worker that answers its
chunks, exactly when every item can be read. -/
theorem relayBatch_positional_iff (js : Engine) (items : List Json) :
    (∀ w : Fetches, Positional items (fetchedFor js w items) (doBatch js w items) ↔
        FailuresLast js w items) ∧
      ∀ w : Worker.Replies, Worker.Answers js w items →
        ((∃ q, Worker.doBatch js w items = .ok q ∧
            Positional items (Worker.fetchedFor w 0 items) q) ↔
          ∀ item ∈ items, Worker.Readable item) :=
  ⟨fun w => doBatch_positional_iff js w items, fun _ => Worker.doBatch_positional⟩

/-- A request for the page of this host. -/
def getItem (host : String) : Json := .obj [("u", .str ("http://" ++ host))]

/-- A page with one byte. -/
def page (byte : UInt8) : Response := ⟨200, .obj [], [byte]⟩

/-- A Worker with one result for a batch of two items, of which one has no URL. -/
theorem relayBatch_positional_iff_one :
    let items := [getItem "a", .obj []]
    let w : Worker.Replies := ⟨none, fun _ => .obj [("q", .arr [.obj [("s", .num 200)]])]⟩
    Worker.Answers .ascii w items ∧
      ((∃ q, Worker.doBatch .ascii w items = .ok q ∧
          Positional items (Worker.fetchedFor w 0 items) q) ↔
        ∀ item ∈ items, Worker.Readable item) := by
  intro items w
  have hanswers : Worker.Answers .ascii w items := by
    intro valid errorMap hprepare r chunk q hchunk hq
    obtain ⟨sent, later, hok⟩ : ∃ sent later,
        Worker.prepare .ascii 0 items = .ok ([sent], later) := ⟨_, _, rfl⟩
    rw [hok] at hprepare
    cases hprepare
    match r with
    | 0 =>
        cases hchunk
        cases hq
        rfl
    | _ + 1 => cases hchunk
  exact ⟨hanswers, (relayBatch_positional_iff .ascii items).2 w hanswers⟩

/-- The fetch of the first page fails: the second item is told that its fetch has failed, and the
third is given the page of the second. And a batch with a `null` has no answer from `Code.cfw.gs`.
-/
theorem relayBatch_shifted :
    let items := [getItem "a", getItem "b", getItem "c"]
    let w : Fetches := ⟨some "limit", fun j => if j = 0 then some "limit" else none,
      fun j => page (UInt8.ofNat j)⟩
    (doBatch .ascii w items = [errorEntry (.str "limit"), errorEntry (.str "fetch failed"),
        answerEntry (page 1)] ∧
      ¬ Positional items (fetchedFor .ascii w items) (doBatch .ascii w items)) ∧
      ∀ (replies : Worker.Replies) (q : List Json), Worker.doBatch .ascii replies [.null] ≠ .ok q := by
  intro items w
  refine ⟨⟨rfl, fun h => ?_⟩, fun replies q h => nomatch h⟩
  have hsecond : some (errorEntry (.str "fetch failed")) = some (answerEntry (page 1)) :=
    h.answers 1 (answerEntry (page 1)) rfl
  exact answerEntry_ne_errorEntry _ _ (Option.some.inj hsecond).symm

end Rahgozar.AppsScript
