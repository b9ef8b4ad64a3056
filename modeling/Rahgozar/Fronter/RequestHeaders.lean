import Mathlib.Data.String.Basic
import Rahgozar.Lib.Base64
import Rahgozar.Lib.Assoc
import Rahgozar.Lib.SortedMap
import Rahgozar.Lib.Trim
import Rahgozar.Proxy.HttpRequest
import Rahgozar.Settings.Config

set_option autoImplicit false

/-! # The headers of a request (`src/domain_fronter.rs`)

A request goes to Apps Script, and to the exit node behind it, as a JSON object; its headers are
the object `h`. `filter_forwarded_headers_with_brotli_zstd` leaves some out, and those that are left
are inserted into a map one after the other, under their names as they are spelled. The map of
serde_json is a `BTreeMap` here, as the feature that keeps the order of insertion is off.
-/

namespace Rahgozar.Fronter.RequestHeaders

open Settings (Json Object)
open Proxy (toAsciiLowercase)
open Proxy.Mitm (Headers eqIgnoreAsciiCase)

/-! ## Which headers are forwarded -/

/-- `SKIP` -/
def skip : List String :=
  ["host", "connection", "content-length", "transfer-encoding", "proxy-connection",
    "proxy-authorization", "x-forwarded-for", "x-forwarded-host", "x-forwarded-proto",
    "x-forwarded-port", "x-forwarded-server", "x-forwarded-ssl", "forwarded", "via", "x-real-ip",
    "x-client-ip", "x-originating-ip", "true-client-ip", "cf-connecting-ip", "fastly-client-ip",
    "x-cluster-client-ip", "client-ip"]

def isSkipped (name : List Char) : Bool := skip.any fun s => s.toList = toAsciiLowercase name

def acceptEncoding : List Char := "accept-encoding".toList

/-- `value.split(',').map(str::trim)` -/
def elements (value : List Char) : List (List Char) := (value.splitOn ',').map Drive.trim

/-- An element whose token, in front of its parameters, is not `br` or `zstd`. -/
def isWanted (element : List Char) : Bool :=
  let tok := toAsciiLowercase (Drive.trim ((element.splitOn ';').headD []))
  tok ≠ "br".toList && tok ≠ "zstd".toList

def stripBrotliFromAcceptEncoding (value : List Char) : List Char :=
  [',', ' '].intercalate ((elements value).filter isWanted)

/-- One header of the filter. -/
def forwardHeader (allowBrotliZstd : Bool) (kv : List Char × List Char) :
    Option (List Char × List Char) :=
  if isSkipped kv.1 then none
  else if toAsciiLowercase kv.1 = acceptEncoding then
    if allowBrotliZstd then some kv
    else
      let cleaned := stripBrotliFromAcceptEncoding kv.2
      if cleaned.isEmpty then none else some (kv.1, cleaned)
  else some kv

def filterForwardedHeadersWithBrotliZstd (headers : Headers) (allowBrotliZstd : Bool) : Headers :=
  headers.filterMap (forwardHeader allowBrotliZstd)

def findHeader (headers : Headers) (name : String) : Option (List Char) :=
  (headers.find? fun kv => eqIgnoreAsciiCase kv.1 name.toList).map Prod.snd

/-! ## The payloads -/

structure RelayRequest where
  k : List Char
  m : List Char
  u : List Char
  h : Option Headers
  b : Option (List Char)
  ct : Option (List Char)
  r : Bool
  raw : Option Bool

/-- A map of strings as a JSON object. -/
def headerObject (headers : Headers) : Json :=
  .obj (headers.map fun kv => (String.ofList kv.1, Json.str kv.2))

/-- What serde writes; a field that is `None` is left out. -/
def RelayRequest.fields (req : RelayRequest) : Object :=
  Assoc.present [("k", some (.str req.k)), ("m", some (.str req.m)), ("u", some (.str req.u)),
    ("h", req.h.map headerObject), ("b", req.b.map .str), ("ct", req.ct.map .str),
    ("r", some (.bool req.r)), ("raw", req.raw.map .bool)]

/-- `hmap` of both builders. -/
def headerMap (headers : Headers) (allowBrotliZstd : Bool) : Option Headers :=
  let filtered := filterForwardedHeadersWithBrotliZstd headers allowBrotliZstd
  if filtered.isEmpty then none else some (SortedMap.ofList filtered)

/-- What the two builders have in common. -/
def relayRequest (key method url : List Char) (headers : Headers) (body : List UInt8)
    (allowBrotliZstd r : Bool) : RelayRequest :=
  { k := key
    m := method
    u := url
    h := headerMap headers allowBrotliZstd
    b := if body.isEmpty then none else some (Base64.encode body)
    ct := if body.isEmpty then none else findHeader headers "content-type"
    r := r
    raw := none }

def buildExitNodeInnerPayload (exitNodePsk : List Char) (allowBrotliZstd : Bool)
    (method url : List Char) (headers : Headers) (body : List UInt8) : Object :=
  (relayRequest exitNodePsk method url headers body allowBrotliZstd false).fields

/-- `add_random_pad`; `pad` is the text that was drawn, if its length was not zero. -/
def addRandomPad (pad : Option (List Char)) (map : Object) : Object :=
  match pad with
  | none => map
  | some text => SortedMap.insert "_pad" (.str text) map

def buildPayloadJson (authKey : List Char) (allowBrotliZstd disablePadding : Bool)
    (pad : Option (List Char)) (method url : List Char) (headers : Headers) (body : List UInt8) :
    Object :=
  let v := SortedMap.ofList
    (relayRequest authKey method url headers body allowBrotliZstd true).fields
  if disablePadding then v else addRandomPad pad v

/-! ## What is carried -/

/-- The entries of the object `h` whose names are `name` in some spelling. -/
def carriedEntries (payload : Object) (name : List Char) : Object :=
  match payload.lookup "h" with
  | some (.obj entries) => entries.filter fun e => eqIgnoreAsciiCase e.1.toList name
  | _ => []

/-- The value of a field that comes with these values, one behind the other. -/
def fieldValue (values : List (List Char)) : Option (List Char) :=
  if values = [] then none else some ([',', ' '].intercalate values)

/-- The value of a field as it is carried. -/
def carriedValue (payload : Object) (name : List Char) : Option (List Char) :=
  fieldValue ((carriedEntries payload name).filterMap fun e => e.2.asString)

/-- A value as it may be forwarded: of `Accept-Encoding` the elements `br` and `zstd` are removed
if they are not allowed, and nothing may be left. -/
def forwardedAs (allowBrotliZstd : Bool) (name value : List Char) : Option (List Char) :=
  if toAsciiLowercase name = acceptEncoding ∧ allowBrotliZstd = false then
    Option.guard (fun cleaned => !cleaned.isEmpty) (stripBrotliFromAcceptEncoding value)
  else some value

/-- The value of a field as the browser sent it. -/
def sentValue (allowBrotliZstd : Bool) (headers : Headers) (name : List Char) :
    Option (List Char) :=
  fieldValue ((headers.filter fun kv => eqIgnoreAsciiCase kv.1 name).filterMap
    fun kv => forwardedAs allowBrotliZstd name kv.2)

/-- Every field that is not skipped is carried with its value, and no other. -/
structure Carries (allowBrotliZstd : Bool) (headers : Headers) (payload : Object) : Prop where
  sent : ∀ name, isSkipped name = false →
    carriedValue payload name = sentValue allowBrotliZstd headers name
  skipped : ∀ name, isSkipped name = true → carriedEntries payload name = []

/-- The headers that are forwarded have distinct spellings, and a field in more than one spelling
has the same value in the order of its spellings. -/
structure SpelledApart (filtered : Headers) : Prop where
  distinct : (filtered.map Prod.fst).Nodup
  ordered : ∀ name, isSkipped name = false →
    fieldValue (((filtered.mergeSort fun e e' => decide (e.1 ≤ e'.1)).filter
        fun kv => eqIgnoreAsciiCase kv.1 name).map Prod.snd) =
      fieldValue ((filtered.filter fun kv => eqIgnoreAsciiCase kv.1 name).map Prod.snd)

/-! ## The elements of a list value -/

theorem trim_eq (text : List Char) : Drive.trim text = Trim.trim Drive.isWhitespace text := rfl

theorem trim_space (text : List Char) : Drive.trim (' ' :: text) = Drive.trim text := by
  rw [trim_eq, trim_eq]
  exact Trim.trim_append_left_of_all (v := [' ']) (List.forall_mem_singleton.mpr rfl)

theorem not_mem_of_mem_splitOn {c : Char} {text piece : List Char}
    (h : piece ∈ text.splitOn c) : c ∉ piece := by
  induction text generalizing piece with
  | nil =>
    obtain rfl : piece = [] := by simpa using h
    exact List.not_mem_nil
  | cons d text ih =>
    rw [List.splitOn_cons_eq_if_modifyHead] at h
    obtain ⟨first, others, hsplit⟩ := List.exists_cons_of_ne_nil (List.splitOn_ne_nil c text)
    rw [hsplit] at h ih
    split_ifs at h with hd
    · rcases List.mem_cons.mp h with rfl | h
      · exact List.not_mem_nil
      · exact ih h
    · rcases List.mem_cons.mp h with rfl | h
      · rw [List.mem_cons, not_or]
        exact ⟨fun heq => hd (by rw [heq, beq_self_eq_true]), ih List.mem_cons_self⟩
      · exact ih (List.mem_cons_of_mem _ h)

/-- An element has no comma and no white space around it. -/
theorem element_eq {value e : List Char} (h : e ∈ elements value) :
    ',' ∉ e ∧ Drive.trim e = e := by
  obtain ⟨piece, hpiece, rfl⟩ := List.mem_map.mp h
  constructor
  · intro hmem
    exact not_mem_of_mem_splitOn hpiece (Trim.mem_of_mem_trim (trim_eq piece ▸ hmem))
  · rw [trim_eq, trim_eq, Trim.trim_idem]

/-- Elements that are put behind one another are read again. -/
theorem elements_intercalate {l : List (List Char)} (hne : l ≠ [])
    (hl : ∀ e ∈ l, ',' ∉ e ∧ Drive.trim e = e) : elements ([',', ' '].intercalate l) = l := by
  unfold elements
  induction l with
  | nil => exact absurd rfl hne
  | cons e l ih =>
    obtain ⟨hcomma, htrim⟩ := hl e List.mem_cons_self
    cases l with
    | nil =>
      rw [List.intercalate_singleton, List.splitOn_eq_singleton hcomma, List.map_singleton, htrim]
    | cons e' l =>
      have hrest := ih (List.cons_ne_nil _ _) fun x hx => hl x (List.mem_cons_of_mem e hx)
      have hspace : ∀ text : List Char, ((' ' :: text).splitOn ',').map Drive.trim =
          (text.splitOn ',').map Drive.trim := by
        intro text
        obtain ⟨first, others, hsplit⟩ :=
          List.exists_cons_of_ne_nil (List.splitOn_ne_nil ',' text)
        rw [List.splitOn_cons_eq_if_modifyHead, if_neg (by decide), hsplit, List.modifyHead_cons,
          List.map_cons, List.map_cons, trim_space]
      have hjoin : [',', ' '].intercalate (e :: e' :: l) =
          e ++ ',' :: ' ' :: [',', ' '].intercalate (e' :: l) := by
        rw [List.intercalate_cons_cons]
        simp
      rw [hjoin, List.splitOn_append_cons_self_of_not_mem hcomma, List.map_cons, htrim, hspace,
        hrest]

/-- What is forwarded of an `Accept-Encoding` value are its elements without `br` and `zstd`. -/
theorem elements_strip (value : List Char) :
    elements (stripBrotliFromAcceptEncoding value) = (elements value).filter isWanted ∨
      (elements value).filter isWanted = [] ∧ stripBrotliFromAcceptEncoding value = [] := by
  unfold stripBrotliFromAcceptEncoding
  by_cases hne : (elements value).filter isWanted = []
  · exact Or.inr ⟨hne, by rw [hne, List.intercalate_nil]⟩
  · refine Or.inl (elements_intercalate hne fun e he => ?_)
    exact element_eq (List.mem_filter.mp he).1

/-! ## Values that are combined -/

/-- How long combined values are. -/
theorem length_intercalate {l : List (List Char)} (h : l ≠ []) :
    ([',', ' '].intercalate l).length + 2 = (l.map fun value => value.length + 2).sum := by
  induction l with
  | nil => exact absurd rfl h
  | cons value l ih =>
    cases l with
    | nil => simp
    | cons value' l =>
      have hrest := ih (List.cons_ne_nil _ _)
      rw [List.intercalate_cons_cons, List.map_cons, List.sum_cons, ← hrest]
      simp only [List.length_append, List.length_cons, List.length_nil]
      omega

/-- Values of which one is missing do not combine to the same text. -/
theorem length_le_of_fieldValue {l l' : List (List Char)} (hsub : l.Subperm l')
    (h : fieldValue l = fieldValue l') : l'.length ≤ l.length := by
  unfold fieldValue at h
  by_cases hl' : l' = []
  · simp [hl']
  · rw [if_neg hl'] at h
    by_cases hl : l = []
    · simp [hl] at h
    · rw [if_neg hl, Option.some_inj] at h
      obtain ⟨l₁, hperm, hsublist⟩ := hsub
      obtain ⟨rest, hrest⟩ := hsublist.exists_perm_append
      replace hrest := hrest.trans (hperm.append_right rest)
      have hlen := congrArg (fun text => text.length + 2) h
      simp only [length_intercalate hl, length_intercalate hl'] at hlen
      rw [(hrest.map _).sum_eq, List.map_append, List.sum_append] at hlen
      have hnone : rest = [] := by
        cases rest with
        | nil => rfl
        | cons value rest =>
          rw [List.map_cons, List.sum_cons] at hlen
          omega
      rw [hrest.length_eq, hnone, List.append_nil]

/-! ## The map of the headers -/

theorem lower_eq {k name : List Char} (h : eqIgnoreAsciiCase k name = true) :
    toAsciiLowercase k = toAsciiLowercase name := by simpa [eqIgnoreAsciiCase] using h

theorem isSkipped_eq {k name : List Char} (h : eqIgnoreAsciiCase k name = true) :
    isSkipped k = isSkipped name := by rw [isSkipped, lower_eq h, isSkipped]

/-- A header of a field that is not skipped is forwarded with the value that is to be. -/
theorem forwardHeader_eq {allowBrotliZstd : Bool} {kv : List Char × List Char} {name : List Char}
    (hkv : eqIgnoreAsciiCase kv.1 name = true) (hname : isSkipped name = false) :
    forwardHeader allowBrotliZstd kv =
      (forwardedAs allowBrotliZstd name kv.2).map fun value => (kv.1, value) := by
  have hskip : isSkipped kv.1 = false := (isSkipped_eq hkv).trans hname
  unfold forwardHeader forwardedAs
  rw [hskip, lower_eq hkv, if_neg (by decide)]
  by_cases hcoded : toAsciiLowercase name = acceptEncoding
  · cases allowBrotliZstd with
    | true => simp [hcoded]
    | false =>
      cases hempty : (stripBrotliFromAcceptEncoding kv.2).isEmpty with
      | true => simp [hcoded, List.isEmpty_iff.mp hempty, Option.guard]
      | false => simp [hcoded, hempty, Option.guard]
  · simp [hcoded]

theorem forwardHeader_key {allowBrotliZstd : Bool} {kv kv' : List Char × List Char}
    (h : forwardHeader allowBrotliZstd kv = some kv') :
    kv'.1 = kv.1 ∧ isSkipped kv.1 = false := by
  unfold forwardHeader at h
  dsimp only at h
  split_ifs at h with hskip <;>
    (obtain rfl := Option.some.inj h; exact ⟨rfl, Bool.eq_false_of_not_eq_true hskip⟩)

/-- What the filter keeps of a field are the values that are to be forwarded. -/
theorem filtered_values (headers : Headers) (allowBrotliZstd : Bool) {name : List Char}
    (hname : isSkipped name = false) :
    ((filterForwardedHeadersWithBrotliZstd headers allowBrotliZstd).filter
        fun kv => eqIgnoreAsciiCase kv.1 name).map Prod.snd =
      (headers.filter fun kv => eqIgnoreAsciiCase kv.1 name).filterMap
        fun kv => forwardedAs allowBrotliZstd name kv.2 := by
  unfold filterForwardedHeadersWithBrotliZstd
  induction headers with
  | nil => rfl
  | cons kv headers ih =>
    rw [List.filterMap_cons]
    by_cases hkv : eqIgnoreAsciiCase kv.1 name = true
    · have hforward := @forwardHeader_eq allowBrotliZstd _ _ hkv hname
      rw [List.filter_cons_of_pos (by exact hkv), List.filterMap_cons, hforward, ← ih]
      cases forwardedAs allowBrotliZstd name kv.2 with
      | none => rfl
      | some value => simp [hkv]
    · rw [List.filter_cons_of_neg (by exact hkv), ← ih]
      cases hforward : forwardHeader allowBrotliZstd kv with
      | none => rfl
      | some kv' =>
        have hkey := (forwardHeader_key hforward).1
        simp [hkey, hkv]

theorem not_skipped_of_filtered {headers : Headers} {allowBrotliZstd : Bool}
    {kv : List Char × List Char}
    (h : kv ∈ filterForwardedHeadersWithBrotliZstd headers allowBrotliZstd) :
    isSkipped kv.1 = false := by
  obtain ⟨sent, -, hkv⟩ := List.mem_filterMap.mp h
  obtain ⟨hkey, hskip⟩ := forwardHeader_key hkv
  rw [hkey, hskip]

/-- A repeated spelling loses a value. -/
theorem distinct_of_fieldValues {filtered : Headers}
    (h : ∀ kv ∈ filtered, fieldValue (((SortedMap.ofList filtered).filter
        fun e => eqIgnoreAsciiCase e.1 kv.1).map Prod.snd) =
      fieldValue ((filtered.filter fun e => eqIgnoreAsciiCase e.1 kv.1).map Prod.snd)) :
    (filtered.map Prod.fst).Nodup := by
  by_contra hrepeated
  obtain ⟨k, hk⟩ := List.exists_duplicate_iff_not_nodup.mpr hrepeated
  obtain ⟨kv, hkv, rfl⟩ := List.mem_map.mp hk.mem
  set sent := filtered.filter fun e => eqIgnoreAsciiCase e.1 kv.1 with hsent
  set kept := (SortedMap.ofList filtered).filter fun e => eqIgnoreAsciiCase e.1 kv.1 with hkept
  have hsub : kept.Subperm sent := (SortedMap.subperm_ofList filtered).filter _
  have hle : sent.length ≤ kept.length := by
    obtain ⟨l, hperm, hsublist⟩ := hsub
    have hvalues : (kept.map Prod.snd).Subperm (sent.map Prod.snd) :=
      ⟨l.map Prod.snd, hperm.map Prod.snd, hsublist.map Prod.snd⟩
    have hlen := length_le_of_fieldValue hvalues (h kv hkv)
    simpa using hlen
  -- then nothing is missing, and the keys of a map are distinct
  have hperm : kept.Perm sent := hsub.perm_of_length_le hle
  have hnodup : (sent.map Prod.fst).Nodup := by
    rw [← (hperm.map Prod.fst).nodup_iff]
    have hkeys := SortedMap.sorted_keys (SortedMap.sorted_ofList filtered)
    exact hkeys.sublist ((List.filter_sublist).map Prod.fst)
  have hself : eqIgnoreAsciiCase kv.1 kv.1 = true := by simp [eqIgnoreAsciiCase]
  have htwice : [kv.1, kv.1].Sublist (sent.map Prod.fst) := by
    have hfilter := (List.duplicate_iff_sublist.mp hk).filter fun k => eqIgnoreAsciiCase k kv.1
    have hboth : [kv.1, kv.1].filter (fun k => eqIgnoreAsciiCase k kv.1) = [kv.1, kv.1] := by
      simp [hself]
    rw [hboth, List.filter_map] at hfilter
    exact hfilter
  exact List.not_nodup_cons_of_mem List.mem_cons_self (hnodup.sublist htwice)

/-- The map of the headers holds the values of each field if and only if they are spelled apart. -/
theorem map_values_iff {filtered : Headers} (hskip : ∀ kv ∈ filtered, isSkipped kv.1 = false) :
    (∀ name, isSkipped name = false →
      fieldValue (((SortedMap.ofList filtered).filter
          fun kv => eqIgnoreAsciiCase kv.1 name).map Prod.snd) =
        fieldValue ((filtered.filter fun kv => eqIgnoreAsciiCase kv.1 name).map Prod.snd)) ↔
      SpelledApart filtered := by
  constructor
  · intro h
    have hdistinct := distinct_of_fieldValues fun kv hkv => h kv.1 (hskip kv hkv)
    refine ⟨hdistinct, fun name hname => ?_⟩
    rw [← SortedMap.ofList_eq_mergeSort hdistinct]
    exact h name hname
  · intro h name hname
    rw [SortedMap.ofList_eq_mergeSort h.distinct]
    exact h.ordered name hname

/-! ## The payloads -/

theorem keys_present_sublist {κ ν : Type} (l : List (κ × Option ν)) :
    ((Assoc.present l).map Prod.fst).Sublist (l.map Prod.fst) := by
  induction l with
  | nil => exact List.Sublist.refl _
  | cons e l ih =>
    obtain ⟨k, v⟩ := e
    cases v with
    | none => exact ih.cons k
    | some v => exact ih.cons_cons k

theorem nodup_fieldNames : ["k", "m", "u", "h", "b", "ct", "r", "raw"].Nodup := by decide

theorem nodup_fields (req : RelayRequest) : (req.fields.map Prod.fst).Nodup :=
  List.Nodup.sublist (keys_present_sublist _) nodup_fieldNames

theorem lookup_fields (req : RelayRequest) : req.fields.lookup "h" = req.h.map headerObject := by
  unfold RelayRequest.fields
  refine (Assoc.lookup_present ?_).trans rfl
  exact nodup_fieldNames

theorem lookup_inner (exitNodePsk : List Char) (allowBrotliZstd : Bool) (method url : List Char)
    (headers : Headers) (body : List UInt8) :
    (buildExitNodeInnerPayload exitNodePsk allowBrotliZstd method url headers body).lookup "h" =
      (headerMap headers allowBrotliZstd).map headerObject := lookup_fields _

/-- The padding does not touch the headers. -/
theorem lookup_outer (authKey : List Char) (allowBrotliZstd disablePadding : Bool)
    (pad : Option (List Char)) (method url : List Char) (headers : Headers) (body : List UInt8) :
    (buildPayloadJson authKey allowBrotliZstd disablePadding pad method url headers body).lookup
      "h" = (headerMap headers allowBrotliZstd).map headerObject := by
  have hmap : (SortedMap.ofList
      (relayRequest authKey method url headers body allowBrotliZstd true).fields).lookup "h" =
      (headerMap headers allowBrotliZstd).map headerObject := by
    rw [SortedMap.lookup_ofList (nodup_fields _), lookup_fields]
    rfl
  unfold buildPayloadJson
  dsimp only
  split_ifs
  · exact hmap
  · cases pad with
    | none => exact hmap
    | some text =>
      rw [addRandomPad, SortedMap.lookup_insert, if_neg (by decide)]
      exact hmap

variable {allowBrotliZstd : Bool} {headers : Headers} {payload : Object}

theorem carriedEntries_eq
    (h : payload.lookup "h" = (headerMap headers allowBrotliZstd).map headerObject)
    (name : List Char) : carriedEntries payload name =
      (((SortedMap.ofList (filterForwardedHeadersWithBrotliZstd headers allowBrotliZstd)).filter
        fun kv => eqIgnoreAsciiCase kv.1 name).map
          fun kv => (String.ofList kv.1, Json.str kv.2)) := by
  unfold carriedEntries
  rw [h]
  by_cases hempty : filterForwardedHeadersWithBrotliZstd headers allowBrotliZstd = []
  · have hnone : headerMap headers allowBrotliZstd = none := by simp [headerMap, hempty]
    rw [hnone, hempty]
    rfl
  · have hsome : headerMap headers allowBrotliZstd =
        some (SortedMap.ofList (filterForwardedHeadersWithBrotliZstd headers allowBrotliZstd)) := by
      simp [headerMap, hempty]
    rw [hsome]
    simp only [Option.map_some, headerObject, List.filter_map]
    congr 1
    apply List.filter_congr
    intro kv _
    simp

theorem carriedValue_eq
    (h : payload.lookup "h" = (headerMap headers allowBrotliZstd).map headerObject)
    (name : List Char) : carriedValue payload name = fieldValue
      (((SortedMap.ofList (filterForwardedHeadersWithBrotliZstd headers allowBrotliZstd)).filter
        fun kv => eqIgnoreAsciiCase kv.1 name).map Prod.snd) := by
  unfold carriedValue
  rw [carriedEntries_eq h, List.filterMap_map]
  congr 1
  rw [← List.filterMap_eq_map]
  rfl

/-- No skipped name is carried. -/
theorem carriedEntries_skipped
    (h : payload.lookup "h" = (headerMap headers allowBrotliZstd).map headerObject)
    {name : List Char} (hname : isSkipped name = true) : carriedEntries payload name = [] := by
  rw [carriedEntries_eq h, List.map_eq_nil_iff, List.filter_eq_nil_iff]
  intro kv hkv hmatch
  have hkept := not_skipped_of_filtered (SortedMap.subset_ofList _ hkv)
  rw [isSkipped_eq hmatch, hname] at hkept
  cases hkept

theorem carries_iff
    (h : payload.lookup "h" = (headerMap headers allowBrotliZstd).map headerObject) :
    Carries allowBrotliZstd headers payload ↔
      SpelledApart (filterForwardedHeadersWithBrotliZstd headers allowBrotliZstd) := by
  rw [← map_values_iff fun kv hkv => not_skipped_of_filtered hkv]
  constructor
  · intro hcarries name hname
    rw [filtered_values headers allowBrotliZstd hname, ← carriedValue_eq h]
    exact hcarries.sent name hname
  · intro hvalues
    refine ⟨fun name hname => ?_, fun name hname => carriedEntries_skipped h hname⟩
    rw [carriedValue_eq h, hvalues name hname, filtered_values headers allowBrotliZstd hname,
      sentValue]

/-- Both payloads carry every field that is not skipped, and no other, if and only if the headers
are spelled apart; of an `Accept-Encoding` value no more than the elements `br` and `zstd` goes. -/
theorem requestHeaders_carried (allowBrotliZstd : Bool) (headers : Headers)
    (method url : List Char) (body : List UInt8) :
    (∀ exitNodePsk, Carries allowBrotliZstd headers
        (buildExitNodeInnerPayload exitNodePsk allowBrotliZstd method url headers body) ↔
      SpelledApart (filterForwardedHeadersWithBrotliZstd headers allowBrotliZstd)) ∧
    (∀ authKey disablePadding pad, Carries allowBrotliZstd headers
        (buildPayloadJson authKey allowBrotliZstd disablePadding pad method url headers body) ↔
      SpelledApart (filterForwardedHeadersWithBrotliZstd headers allowBrotliZstd)) ∧
    ∀ value, elements (stripBrotliFromAcceptEncoding value) = (elements value).filter isWanted ∨
      (elements value).filter isWanted = [] ∧ stripBrotliFromAcceptEncoding value = [] :=
  ⟨fun _ => carries_iff (lookup_inner ..), fun _ _ _ => carries_iff (lookup_outer ..),
    elements_strip⟩

/-- Of two `Cookie` headers the first one is lost. -/
theorem cookie_lost :
    let headers : Headers := [("Cookie".toList, "a=1".toList), ("Cookie".toList, "b=2".toList)]
    let payload := buildPayloadJson "key".toList false true none "GET".toList "https://x/".toList
      headers []
    carriedValue payload "Cookie".toList = some "b=2".toList ∧
      sentValue false headers "Cookie".toList = some "a=1, b=2".toList ∧
      ¬ Carries false headers payload := by
  intro headers payload
  have hcarried : carriedValue payload "Cookie".toList = some "b=2".toList := by decide +kernel
  have hsent : sentValue false headers "Cookie".toList = some "a=1, b=2".toList := by
    decide +kernel
  refine ⟨hcarried, hsent, fun h => ?_⟩
  have hvalue := h.sent "Cookie".toList (by decide +kernel)
  rw [hcarried, hsent] at hvalue
  exact absurd hvalue (by decide)

end Rahgozar.Fronter.RequestHeaders
