import Rahgozar.AppsScript.Request

set_option autoImplicit false

/-! # Batches of the relay (`_doBatch`)

`Code.gs` and `CodeFull.gs` fetch the valid items of a batch with one `fetchAll`, and item by item
when that throws; an item that brings no response has an entry in a table of errors. The answer is
put together by going through the items with a running index into the responses.
-/

namespace Rahgozar.AppsScript

/-! ## Entries -/

def errorEntry (e : Json) : Json := .obj [("e", e)]

/-- `{s, h, b}` of a response. -/
def answerEntry (r : Response) : Json :=
  .obj [("s", .num r.code), ("h", r.headers), ("b", .str (String.ofList (Base64.encode r.content)))]

/-- The answer has one entry for each item. It is what was fetched for the item, and an error where
nothing was. -/
structure Positional (items : List Json) (fetched : List (Option Json)) (q : List Json) : Prop where
  length : q.length = items.length
  answers : ∀ (i : Nat) (r : Json), fetched[i]? = some (some r) → q[i]? = some r
  errors : ∀ i : Nat, fetched[i]? = some none → ∃ e, q[i]? = some (errorEntry e)

/-- An entry fits what was fetched for its item. -/
def Fits : Option Json → Json → Prop
  | none, entry => ∃ e, entry = errorEntry e
  | some r, entry => entry = r

theorem positional_of_fits {items q : List Json} {fetched : List (Option Json)}
    (hfits : List.Forall₂ Fits fetched q) (hitems : fetched.length = items.length) :
    Positional items fetched q := by
  have hq : fetched.length = q.length := hfits.length_eq
  refine ⟨hq.symm.trans hitems, fun i r hr => ?_, fun i hr => ?_⟩
  · obtain ⟨hi, hr⟩ := List.getElem?_eq_some_iff.mp hr
    have hfit := (List.forall₂_iff_get.mp hfits).2 i hi (hq ▸ hi)
    simp only [List.get_eq_getElem, hr] at hfit
    rw [List.getElem?_eq_getElem (hq ▸ hi), hfit]
  · obtain ⟨hi, hr⟩ := List.getElem?_eq_some_iff.mp hr
    have hfit := (List.forall₂_iff_get.mp hfits).2 i hi (hq ▸ hi)
    simp only [List.get_eq_getElem, hr] at hfit
    obtain ⟨e, he⟩ := hfit
    exact ⟨e, by rw [List.getElem?_eq_getElem (hq ▸ hi), he]⟩

/-! ## `Code.gs` and `CodeFull.gs` -/

/-- An element of `fetchArgs`, `fetchIndex` and `fetchMethods`. -/
structure Slot where
  index : Nat
  arg : FetchArg
  method : String

structure Prepared where
  slots : List Slot
  errorMap : Nat → Option String

/-- How the fetches come out: the error of `fetchAll`, the error of the fetch of a slot, and the
response to it otherwise. `fetchAll` returns the responses in the order of the requests. -/
structure Fetches where
  allError : Option String
  oneError : Nat → Option String
  response : Nat → Response

section

variable (js : Engine)

/-- What is fetched for an item, or why it is not. -/
def prepareItem (item : Json) : Except String (FetchArg × String) :=
  if !item.isObject then .error "bad item"
  else
    match urlOf item with
    | none => .error "bad url"
    | some url =>
        match buildOpts js item with
        | .error e => .error e
        | .ok opts =>
            let method := match item.getTruthy "m" with | some (.str m) => m | _ => "GET"
            .ok (⟨url, opts⟩, js.toUpperCase method)

/-- The first loop, from the item with this index. -/
def prepare (i : Nat) : List Json → Prepared
  | [] => ⟨[], fun _ => none⟩
  | item :: items =>
      let rest := prepare (i + 1) items
      match prepareItem js item with
      | .error e => { rest with errorMap := Function.update rest.errorMap i (some e) }
      | .ok (arg, method) => { rest with slots := ⟨i, arg, method⟩ :: rest.slots }

end

section

variable (w : Fetches)

def fetchOne (j : Nat) : Except String Response :=
  match w.oneError j with
  | some e => .error e
  | none => .ok (w.response j)

/-- The fallback of one slot: only a safe method is fetched again. -/
def fallbackOne (j : Nat) (slot : Slot) : Except String Response :=
  if safeReplayMethods.contains slot.method then fetchOne w j
  else .error "batch fetchAll failed; unsafe method not replayed"

/-- A loop over the slots, from the slot with this index: the responses, with `null` where there is
none, and the table of errors. -/
def collect (outcome : Nat → Slot → Except String Response) (j : Nat)
    (errorMap : Nat → Option String) : List Slot → List (Option Response) × (Nat → Option String)
  | [] => ([], errorMap)
  | slot :: slots =>
      match outcome j slot with
      | .ok r =>
          let rest := collect outcome (j + 1) errorMap slots
          (some r :: rest.1, rest.2)
      | .error e =>
          let rest := collect outcome (j + 1) (Function.update errorMap slot.index (some e)) slots
          (none :: rest.1, rest.2)

/-- The fetches of a batch. -/
def fetchSlots (p : Prepared) : List (Option Response) × (Nat → Option String) :=
  match p.slots with
  | [] => ([], p.errorMap)
  | [slot] =>
      match fetchOne w 0 with
      | .ok r => ([some r], p.errorMap)
      | .error e =>
          ([none], Function.update p.errorMap slot.index (some ("fetch failed: " ++ e)))
  | slots =>
      match w.allError with
      | none => (slots.mapIdx fun j _ => some (w.response j), p.errorMap)
      | some _ => collect (fallbackOne w) 0 p.errorMap slots

/-- The last loop, from the item with this index and with this `rIdx`. -/
def assemble (responses : List (Option Response)) (errorMap : Nat → Option String) (i rIdx : Nat) :
    List Json → List Json
  | [] => []
  | _ :: items =>
      match errorMap i with
      | some e => errorEntry (.str e) :: assemble responses errorMap (i + 1) rIdx items
      | none =>
          let entry :=
            match responses[rIdx]? with
            | some (some r) => answerEntry r
            | _ => errorEntry (.str "fetch failed")
          entry :: assemble responses errorMap (i + 1) (rIdx + 1) items

end

/-- `_doBatch` -/
def doBatch (js : Engine) (w : Fetches) (items : List Json) : List Json :=
  let fetched := fetchSlots w (prepare js 0 items)
  assemble fetched.1 fetched.2 0 0 items

/-! ## What was fetched -/

/-- The outcome of a slot of a batch with `n` of them. -/
def slotOutcome (w : Fetches) (n j : Nat) (slot : Slot) : Except String Response :=
  if n = 1 then (fetchOne w 0).mapError ("fetch failed: " ++ ·)
  else if w.allError.isNone then .ok (w.response j)
  else fallbackOne w j slot

/-- For each item its slot's outcome, if it has a slot; `i` and `j` count the items and the slots.
-/
def itemOutcomes (js : Engine) (outcome : Nat → Slot → Except String Response) (i j : Nat) :
    List Json → List (Option (Except String Response))
  | [] => []
  | item :: items =>
      match prepareItem js item with
      | .error _ => none :: itemOutcomes js outcome (i + 1) j items
      | .ok (arg, method) =>
          some (outcome j ⟨i, arg, method⟩) :: itemOutcomes js outcome (i + 1) (j + 1) items

/-- For each item what was fetched for it. -/
def fetchedFor (js : Engine) (w : Fetches) (items : List Json) : List (Option Json) :=
  (itemOutcomes js (slotOutcome w (prepare js 0 items).slots.length) 0 0 items).map fun outcome =>
    (outcome.bind Except.toOption).map answerEntry

/-- No slot without a response has one with a response behind it. -/
def FailuresLast (js : Engine) (w : Fetches) (items : List Json) : Prop :=
  let slots := (prepare js 0 items).slots
  (slots.mapIdx fun j slot => slotOutcome w slots.length j slot).Pairwise fun a b =>
    b.toOption.isSome → a.toOption.isSome

/-! ## The two loops -/

section Walk

variable {α : Type}

/-- The last loop, on outcomes alone: an item with a response takes the next element of the list. -/
def walk (responses : List (Option α)) : List (Option (Option α)) → List (Option α)
  | [] => []
  | some (some _) :: outcomes => responses.head?.join :: walk responses.tail outcomes
  | _ :: outcomes => none :: walk responses outcomes

/-- Behind a failure no response may come: its item would be given the place of the failure. -/
theorem walk_failed (responses : List (Option α)) (outcomes : List (Option (Option α))) :
    walk (none :: responses) outcomes = outcomes.map Option.join ↔
      ∀ o ∈ outcomes.filterMap id, o = none := by
  induction outcomes with
  | nil => simp [walk]
  | cons o outcomes ih =>
      match o with
      | none => simpa [walk] using ih
      | some none => simpa [walk] using ih
      | some (some r) => simp [walk]

/-- The items get their own responses exactly when the failures come last. -/
theorem walk_eq_iff (outcomes : List (Option (Option α))) :
    walk (outcomes.filterMap id) outcomes = outcomes.map Option.join ↔
      (outcomes.filterMap id).Pairwise fun a b => b.isSome → a.isSome := by
  induction outcomes with
  | nil => simp [walk]
  | cons o outcomes ih =>
      match o with
      | none => simpa [walk] using ih
      | some (some r) => simpa [walk] using ih
      | some none =>
          have hfailed := walk_failed (outcomes.filterMap id) outcomes
          have hcons : (some none :: outcomes).filterMap id = none :: outcomes.filterMap id := rfl
          rw [hcons, List.pairwise_cons]
          show none :: walk (none :: outcomes.filterMap id) outcomes
            = none :: outcomes.map Option.join ↔ _
          rw [List.cons.injEq, and_iff_right rfl, hfailed]
          constructor
          · intro hnone
            refine ⟨fun b hb hsome => ?_, List.pairwise_of_forall_mem_list fun a _ b hb hsome => ?_⟩
            · rw [hnone b hb] at hsome
              cases hsome
            · rw [hnone b hb] at hsome
              cases hsome
          · rintro ⟨hhead, -⟩ b hb
            exact Option.not_isSome_iff_eq_none.mp fun hsome => absurd (hhead b hb hsome) nofun

end Walk

variable {js : Engine} {w : Fetches} {outcome : Nat → Slot → Except String Response}

theorem collect_cons (j : Nat) (errorMap : Nat → Option String) (slot : Slot)
    (slots : List Slot) :
    collect outcome j errorMap (slot :: slots) =
      match outcome j slot with
      | .ok r =>
          let rest := collect outcome (j + 1) errorMap slots
          (some r :: rest.1, rest.2)
      | .error e =>
          let rest := collect outcome (j + 1) (Function.update errorMap slot.index (some e)) slots
          (none :: rest.1, rest.2) :=
  rfl

theorem collect_fst (j : Nat) (errorMap : Nat → Option String) (slots : List Slot) :
    (collect outcome j errorMap slots).1
      = slots.mapIdx fun k slot => (outcome (j + k) slot).toOption := by
  induction slots generalizing j errorMap with
  | nil => rfl
  | cons slot slots ih =>
      have hshift : ∀ k, j + 1 + k = j + (k + 1) := fun k => by omega
      rw [List.mapIdx_cons, Nat.add_zero, collect_cons]
      cases outcome j slot with
      | ok r =>
          simp only [ih, hshift]
          rfl
      | error e =>
          simp only [ih, hshift]
          rfl

theorem collect_ok (response : Nat → Response) (j : Nat) (errorMap : Nat → Option String)
    (slots : List Slot) :
    (collect (fun j _ => .ok (response j)) j errorMap slots).2 = errorMap := by
  induction slots generalizing j with
  | nil => rfl
  | cons slot slots ih => exact ih (j + 1)

/-- The table at an index without a slot is not touched. -/
theorem collect_snd_of_ne {i : Nat} (j : Nat) (errorMap : Nat → Option String) {slots : List Slot}
    (h : ∀ slot ∈ slots, slot.index ≠ i) : (collect outcome j errorMap slots).2 i = errorMap i := by
  induction slots generalizing j errorMap with
  | nil => rfl
  | cons slot slots ih =>
      obtain ⟨hslot, hslots⟩ := List.forall_mem_cons.mp h
      rw [collect_cons]
      split
      · exact ih _ _ hslots
      · exact (ih _ _ hslots).trans (Function.update_of_ne hslot.symm _ _)

theorem collect_snd_congr {i : Nat} (j : Nat) {m m' : Nat → Option String} (h : m i = m' i)
    (slots : List Slot) : (collect outcome j m slots).2 i = (collect outcome j m' slots).2 i := by
  induction slots generalizing j m m' with
  | nil => exact h
  | cons slot slots ih =>
      rw [collect_cons, collect_cons]
      split
      · exact ih _ h
      · refine ih _ ?_
        rcases eq_or_ne i slot.index with rfl | hne
        · rw [Function.update_self, Function.update_self]
        · rw [Function.update_of_ne hne, Function.update_of_ne hne, h]

theorem le_index_of_mem_prepare {i : Nat} {items : List Json} {slot : Slot}
    (h : slot ∈ (prepare js i items).slots) : i ≤ slot.index := by
  induction items generalizing i with
  | nil => cases h
  | cons item items ih =>
      unfold prepare at h
      dsimp only at h
      split at h
      · exact Nat.le_of_succ_le (ih h)
      · rcases List.mem_cons.mp h with rfl | h
        · exact le_rfl
        · exact Nat.le_of_succ_le (ih h)

theorem prepare_errorMap_of_lt {i k : Nat} (items : List Json) (h : k < i) :
    (prepare js i items).errorMap k = none := by
  induction items generalizing i with
  | nil => rfl
  | cons item items ih =>
      unfold prepare
      dsimp only
      split
      · exact (Function.update_of_ne (Nat.ne_of_lt h) _ _).trans (ih (Nat.lt_succ_of_lt h))
      · exact ih (Nat.lt_succ_of_lt h)

/-- The slots are those of the items that have one, in order. -/
theorem filterMap_itemOutcomes (i j : Nat) (items : List Json) :
    (itemOutcomes js outcome i j items).filterMap id
      = (prepare js i items).slots.mapIdx fun k slot => outcome (j + k) slot := by
  induction items generalizing i j with
  | nil => rfl
  | cons item items ih =>
      unfold itemOutcomes prepare
      cases hitem : prepareItem js item with
      | error e => simpa [hitem] using ih (i + 1) j
      | ok f =>
          have hshift : ∀ k, j + 1 + k = j + (k + 1) := fun k => by omega
          have hrest := ih (i + 1) (j + 1)
          simp only [hshift] at hrest
          rw [List.mapIdx_cons, ← hrest]
          rfl

/-! ## The answer -/

/-- An entry shows what its item has been given. -/
def Shows : Option Json → Json → Prop
  | none, entry => ∃ e, entry = errorEntry e
  | some r, entry => entry = r ∧ ∃ response, r = answerEntry response

/-- The part of an outcome that can be shown. -/
def shown (o : Option (Except String Response)) : Option (Option Json) :=
  o.map fun outcome => outcome.toOption.map answerEntry

/-- **The last loop** gives every item what the walk over the outcomes gives it. -/
theorem assemble_shows {responses : List (Option Response)} {errorMap : Nat → Option String}
    (i j rIdx : Nat) (items : List Json)
    (hmap : ∀ k, i ≤ k → errorMap k =
      (collect outcome j (prepare js i items).errorMap (prepare js i items).slots).2 k) :
    List.Forall₂ Shows
      (walk ((responses.drop rIdx).map (Option.map answerEntry))
        ((itemOutcomes js outcome i j items).map shown))
      (assemble responses errorMap i rIdx items) := by
  induction items generalizing i j rIdx with
  | nil => exact .nil
  | cons item items ih =>
      have hlater : ∀ slot ∈ (prepare js (i + 1) items).slots, slot.index ≠ i :=
        fun slot hslot => Nat.ne_of_gt (le_index_of_mem_prepare hslot)
      have hi := hmap i le_rfl
      unfold itemOutcomes assemble
      unfold prepare at hmap hi
      cases hitem : prepareItem js item with
      | error e =>
          -- no slot
          simp only [hitem] at hmap hi ⊢
          rw [collect_snd_of_ne _ _ hlater, Function.update_self] at hi
          rw [hi]
          refine .cons ⟨_, rfl⟩ (ih _ _ _ fun k hk => ?_)
          rw [hmap k (Nat.le_of_succ_le hk)]
          exact collect_snd_congr _ (Function.update_of_ne (Nat.ne_of_gt hk) _ _) _
      | ok f =>
          obtain ⟨arg, method⟩ := f
          simp only [hitem, collect] at hmap hi ⊢
          cases houtcome : outcome j ⟨i, arg, method⟩ with
          | error e =>
              -- a slot without a response, which the running index does not count
              simp only [houtcome] at hmap hi
              rw [collect_snd_of_ne _ _ hlater, Function.update_self] at hi
              rw [hi]
              refine .cons ⟨_, rfl⟩ (ih _ _ _ fun k hk => ?_)
              rw [hmap k (Nat.le_of_succ_le hk)]
              exact collect_snd_congr _ (Function.update_of_ne (Nat.ne_of_gt hk) _ _) _
          | ok r =>
              simp only [houtcome] at hmap hi
              rw [collect_snd_of_ne _ _ hlater,
                prepare_errorMap_of_lt items (Nat.lt_succ_self i)] at hi
              rw [hi]
              have hrest := ih (i + 1) (j + 1) (rIdx + 1) fun k hk => hmap k (Nat.le_of_succ_le hk)
              rw [← List.tail_drop, List.map_tail] at hrest
              refine .cons ?_ hrest
              rw [List.head?_map, List.head?_drop]
              match responses[rIdx]? with
              | none => exact ⟨_, rfl⟩
              | some none => exact ⟨_, rfl⟩
              | some (some r) => exact ⟨rfl, r, rfl⟩

/-- The fetches of a batch are one pass over its slots, whatever the branch. -/
theorem fetchSlots_eq (w : Fetches) (p : Prepared) :
    fetchSlots w p = collect (slotOutcome w p.slots.length) 0 p.errorMap p.slots := by
  obtain ⟨slots, errorMap⟩ := p
  match slots with
  | [] => rfl
  | [slot] =>
      unfold fetchSlots collect slotOutcome
      dsimp only [List.length_singleton]
      rw [if_pos rfl]
      cases fetchOne w 0 <;> rfl
  | s :: t :: slots =>
      have hlen : (s :: t :: slots).length ≠ 1 := by simp
      unfold fetchSlots
      dsimp only
      split
      · rename_i hall
        have hok : slotOutcome w (s :: t :: slots).length = fun j _ => .ok (w.response j) := by
          funext j slot
          unfold slotOutcome
          rw [if_neg hlen, hall]
          rfl
        rw [hok]
        refine Prod.ext ?_ (collect_ok ..).symm
        rw [collect_fst]
        simp only [Nat.zero_add]
        rfl
      · rename_i e hall
        have hfallback : slotOutcome w (s :: t :: slots).length = fallbackOne w := by
          funext j slot
          unfold slotOutcome
          rw [if_neg hlen, hall, if_neg nofun]
        rw [hfallback]

theorem answerEntry_ne_errorEntry (r : Response) (e : Json) : answerEntry r ≠ errorEntry e := by
  intro h
  have hlen := congrArg (fun v : Json => v.entries.length) h
  cases hlen

theorem length_walk {α : Type} (responses : List (Option α)) (outcomes : List (Option (Option α))) :
    (walk responses outcomes).length = outcomes.length := by
  induction outcomes generalizing responses with
  | nil => rfl
  | cons o outcomes ih =>
      match o with
      | none => exact congrArg (· + 1) (ih _)
      | some none => exact congrArg (· + 1) (ih _)
      | some (some r) => exact congrArg (· + 1) (ih _)

theorem length_itemOutcomes (i j : Nat) (items : List Json) :
    (itemOutcomes js outcome i j items).length = items.length := by
  induction items generalizing i j with
  | nil => rfl
  | cons item items ih =>
      unfold itemOutcomes
      split
      · exact congrArg (· + 1) (ih _ _)
      · exact congrArg (· + 1) (ih _ _)

/-- Entries that show `given` are those of the items' own responses when `given` is. -/
theorem positional_iff_eq {items q : List Json} {given fetched : List (Option Json)}
    (hshows : List.Forall₂ Shows given q) (hitems : fetched.length = items.length)
    (hlen : given.length = fetched.length)
    (hanswers : ∀ r, some r ∈ fetched → ∃ response, r = answerEntry response) :
    Positional items fetched q ↔ given = fetched := by
  have hq : given.length = q.length := hshows.length_eq
  constructor
  · intro h
    refine List.ext_getElem hlen fun i hi hi' => ?_
    have hiq : i < q.length := hq ▸ hi
    have hshow := (List.forall₂_iff_get.mp hshows).2 i hi hiq
    simp only [List.get_eq_getElem] at hshow
    cases hfetched : fetched[i] with
    | none =>
        obtain ⟨e, he⟩ := h.errors i (by rw [List.getElem?_eq_getElem hi', hfetched])
        rw [List.getElem?_eq_getElem hiq] at he
        cases hgiven : given[i] with
        | none => rfl
        | some r =>
            rw [hgiven, Option.some.inj he] at hshow
            obtain ⟨rfl, response, hresponse⟩ := hshow
            exact absurd hresponse.symm (answerEntry_ne_errorEntry response e)
    | some r =>
        have hr := h.answers i r (by rw [List.getElem?_eq_getElem hi', hfetched])
        rw [List.getElem?_eq_getElem hiq] at hr
        cases hgiven : given[i] with
        | none =>
            rw [hgiven, Option.some.inj hr] at hshow
            obtain ⟨e, rfl⟩ := hshow
            obtain ⟨response, hresponse⟩ := hanswers _ (hfetched ▸ List.getElem_mem hi')
            exact absurd hresponse.symm (answerEntry_ne_errorEntry response e)
        | some s =>
            rw [hgiven, Option.some.inj hr] at hshow
            rw [hshow.1]
  · rintro rfl
    refine positional_of_fits (hshows.imp fun o entry hshow => ?_) hitems
    match o with
    | none => exact hshow
    | some r => exact hshow.1

/-- **A batch of `Code.gs` or `CodeFull.gs`** is answered item by item exactly when no fallback
fetch fails before one that succeeds. -/
theorem doBatch_positional_iff (js : Engine) (w : Fetches) (items : List Json) :
    Positional items (fetchedFor js w items) (doBatch js w items) ↔ FailuresLast js w items := by
  -- what each slot comes to, and what each item shows of it
  obtain ⟨outcome, houtcome⟩ : ∃ o, o = slotOutcome w (prepare js 0 items).slots.length := ⟨_, rfl⟩
  obtain ⟨outcomes, houtcomes⟩ : ∃ o, o = (itemOutcomes js outcome 0 0 items).map shown := ⟨_, rfl⟩
  have hslots : (itemOutcomes js outcome 0 0 items).filterMap id
      = (prepare js 0 items).slots.mapIdx fun k slot => outcome k slot := by
    have h : (itemOutcomes js outcome 0 0 items).filterMap id = _ :=
      filterMap_itemOutcomes 0 0 items
    simpa only [Nat.zero_add] using h
  have hfilter : outcomes.filterMap id = ((prepare js 0 items).slots.mapIdx outcome).map
      fun o => o.toOption.map answerEntry := by
    rw [← hslots, List.map_filterMap, houtcomes, List.filterMap_map]
    rfl
  have hfetched : fetchedFor js w items = outcomes.map Option.join := by
    unfold fetchedFor
    rw [houtcomes, houtcome, List.map_map]
    refine List.map_congr_left fun o _ => ?_
    match o with
    | none => rfl
    | some (.ok r) => rfl
    | some (.error e) => rfl
  -- the assembly is a walk over the outcomes
  have hshows :
      List.Forall₂ Shows (walk (outcomes.filterMap id) outcomes) (doBatch js w items) := by
    have hmap : ∀ k, 0 ≤ k → (fetchSlots w (prepare js 0 items)).2 k =
        (collect outcome 0 (prepare js 0 items).errorMap (prepare js 0 items).slots).2 k := by
      intro k _
      rw [fetchSlots_eq, houtcome]
    have hall : List.Forall₂ Shows _
        (assemble (fetchSlots w (prepare js 0 items)).1 _ 0 0 items) :=
      assemble_shows 0 0 0 items hmap
    rw [List.drop_zero, ← houtcomes] at hall
    have hresponses : (fetchSlots w (prepare js 0 items)).1.map (Option.map answerEntry)
        = outcomes.filterMap id := by
      rw [hfilter, fetchSlots_eq, collect_fst, ← houtcome, List.mapIdx_eq_zipIdx_map,
        List.mapIdx_eq_zipIdx_map, List.map_map, List.map_map]
      simp only [Nat.zero_add]
      rfl
    rw [hresponses] at hall
    exact hall
  have hlength : outcomes.length = items.length := by
    rw [houtcomes, List.length_map, length_itemOutcomes]
  -- which keeps every item in its place exactly if the failures come last
  rw [hfetched, positional_iff_eq hshows, walk_eq_iff, hfilter, List.pairwise_map]
  · unfold FailuresLast
    simp only [Option.isSome_map, ← houtcome]
  · rw [List.length_map, hlength]
  · rw [length_walk, List.length_map]
  · intro r hr
    obtain ⟨o, ho, hjoin⟩ := List.mem_map.mp hr
    rw [houtcomes] at ho
    obtain ⟨p, -, rfl⟩ := List.mem_map.mp ho
    match p with
    | none => cases hjoin
    | some (.error e) => cases hjoin
    | some (.ok response) => exact ⟨response, (Option.some.inj hjoin).symm⟩

end Rahgozar.AppsScript
