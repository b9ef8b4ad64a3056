import Rahgozar.Lib.Maps
import Rahgozar.Fronter.Relay

set_option autoImplicit false

/-! # The response cache (`src/cache.rs`)

A map from keys to responses with an expiry time, a queue of its keys in the order of their
insertion and the total size beside it. `parse_ttl` decides from the header section of a response
and from the URL whether it is stored, and for how long. An entry keeps, beside its bytes, the
request they are the response to; the code has no such field, and no operation looks at it.
-/

namespace Rahgozar.Fronter

/-- The arguments of `relay`, with the URL as it is after the optional rewriting; `asked` is the
URL that the client gave. -/
structure Request where
  method : String
  url : String
  headers : List (String × String)
  body : Bytes
  asked : String
deriving DecidableEq

/-- A response with the request that `relay_uncoalesced` produced it for. -/
structure Answer where
  bytes : Bytes
  producedFor : Request
deriving DecidableEq

structure CachedResponse where
  answer : Answer
  expires : Nat
deriving DecidableEq

/-! ## Operations -/

structure ResponseCache where
  entries : AList fun _ : String => CachedResponse
  order : List String
  size : Nat
  maxBytes : Nat

/-- `MAX_ENTRY_FRACTION` -/
def maxEntryFraction : Nat := 4

namespace ResponseCache

def empty (maxBytes : Nat) : ResponseCache := ⟨∅, [], 0, maxBytes⟩

/-- `entries.remove(key)`, with its size taken off. -/
def removeEntry (c : ResponseCache) (key : String) : ResponseCache :=
  { c with
    entries := c.entries.erase key
    size := c.size - ((c.entries.lookup key).map fun e => e.answer.bytes.length).getD 0 }

/-- The removal of an entry together with its place in the queue. -/
def remove (c : ResponseCache) (key : String) : ResponseCache :=
  { c.removeEntry key with order := c.order.filter (· ≠ key) }

/-- `get`: an expired entry is removed on the way. -/
def get (c : ResponseCache) (key : String) (now : Nat) : Option Answer × ResponseCache :=
  match c.entries.lookup key with
  | none => (none, c)
  | some e =>
      if now < e.expires then (some e.answer, c)
      else (none, c.remove key)

/-- The eviction loop of `put`, over the keys of `order`, oldest first. -/
def evict (need : Nat) : List String → ResponseCache → ResponseCache
  | [], c => { c with order := [] }
  | key :: keys, c =>
      if c.maxBytes < c.size + need then evict need keys (c.removeEntry key)
      else { c with order := key :: keys }

/-- The end of `put`, on a cache that has room. -/
def store (c : ResponseCache) (key : String) (a : Answer) (expires : Nat) : ResponseCache :=
  { c with
    entries := c.entries.insert key ⟨a, expires⟩
    order := c.order ++ [key]
    size := c.size + a.bytes.length }

/-- `put` -/
def put (c : ResponseCache) (key : String) (a : Answer) (ttl now : Nat) : ResponseCache :=
  let need := a.bytes.length
  if need = 0 ∨ c.maxBytes / maxEntryFraction < need then c
  else
    let c := if key ∈ c.entries then c.remove key else c
    (evict need c.order c).store key a (now + ttl)

/-! ## What the operations leave in the map -/

theorem lookup_removeEntry {c : ResponseCache} {key k : String} {e : CachedResponse}
    (h : (c.removeEntry key).entries.lookup k = some e) : c.entries.lookup k = some e := by
  by_cases hk : k = key
  · subst hk
    simp [removeEntry] at h
  · rwa [removeEntry, AList.lookup_erase_ne hk] at h

theorem lookup_remove {c : ResponseCache} {key k : String} {e : CachedResponse}
    (h : (c.remove key).entries.lookup k = some e) : c.entries.lookup k = some e :=
  lookup_removeEntry h

theorem lookup_evict {need : Nat} {keys : List String} {c : ResponseCache} {k : String}
    {e : CachedResponse} (h : (evict need keys c).entries.lookup k = some e) :
    c.entries.lookup k = some e := by
  induction keys generalizing c with
  | nil => exact h
  | cons key keys ih =>
      simp only [evict] at h
      split_ifs at h
      · exact lookup_removeEntry (ih h)
      · exact h

theorem lookup_store {c : ResponseCache} {key k : String} {a : Answer} {expires : Nat}
    {e : CachedResponse} (h : (c.store key a expires).entries.lookup k = some e) :
    c.entries.lookup k = some e ∨ (k = key ∧ e.answer = a) := by
  by_cases hk : k = key
  · subst hk
    rw [store, AList.lookup_insert] at h
    cases h
    exact .inr ⟨rfl, rfl⟩
  · rw [store, AList.lookup_insert_ne hk] at h
    exact .inl h

/-- What `get` returns is in the map, under the key that was asked for. -/
theorem get_eq_some {c : ResponseCache} {key : String} {now : Nat} {a : Answer}
    (h : (c.get key now).1 = some a) : ∃ e, c.entries.lookup key = some e ∧ e.answer = a := by
  unfold get at h
  split at h
  · cases h
  · rename_i e he
    split_ifs at h
    · cases h
      exact ⟨e, he, rfl⟩

theorem lookup_get {c : ResponseCache} {key k : String} {now : Nat} {e : CachedResponse}
    (h : (c.get key now).2.entries.lookup k = some e) : c.entries.lookup k = some e := by
  unfold get at h
  split at h
  · exact h
  · split_ifs at h
    · exact h
    · exact lookup_remove h

/-- After `put` an entry is one that was there, or the new one under its key. -/
theorem lookup_put {c : ResponseCache} {key k : String} {a : Answer} {ttl now : Nat}
    {e : CachedResponse} (h : (c.put key a ttl now).entries.lookup k = some e) :
    c.entries.lookup k = some e ∨ (k = key ∧ e.answer = a) := by
  unfold put at h
  simp only at h
  split_ifs at h with hsize hmem
  · exact .inl h
  · exact (lookup_store h).imp_left fun h => lookup_remove (lookup_evict h)
  · exact (lookup_store h).imp_left lookup_evict

end ResponseCache

/-! ## Keys and time to live -/

/-- `cache_key` -/
def cacheKey (method url : String) : String := method.toUpper ++ ":" ++ url

/-- The rest of `text` after the first occurrence of `pat`. -/
def afterFirst (pat : List Char) : List Char → Option (List Char)
  | [] => if pat.isEmpty then some [] else none
  | c :: text =>
      if pat.isPrefixOf (c :: text) then some ((c :: text).drop pat.length)
      else afterFirst pat text

def contains (text : List Char) (pat : String) : Bool := (afterFirst pat.toList text).isSome

/-- The bytes before the first empty line. -/
def headerSection : Bytes → Option Bytes
  | [] => none
  | b :: bytes =>
      if [13, 10, 13, 10].isPrefixOf (b :: bytes) then some []
      else (headerSection bytes).map (b :: ·)

/-- `str::parse::<u64>` of a run of digits. -/
def parseU64 (digits : List Char) : Option Nat :=
  let n := digits.foldl (fun n c => n * 10 + (c.toNat - '0'.toNat)) 0
  if digits.isEmpty || decide (2 ^ 64 ≤ n) then none else some n

def staticExts : List String :=
  [ ".css", ".js", ".mjs", ".woff", ".woff2", ".ttf", ".otf", ".eot", ".png", ".jpg", ".jpeg",
    ".gif", ".webp", ".svg", ".ico", ".avif", ".mp3", ".mp4", ".wasm", ".webm", ".ogg" ]

/-- The part of `parse_ttl` after the headers have given no `max-age`: by extension, then by
content type. -/
def guessTtl (hdrLower url : List Char) : Option Nat :=
  let pathNoQuery := (url.takeWhile (· ≠ '?')).map Char.toLower
  if staticExts.any fun ext => ext.toList.isSuffixOf pathNoQuery then some 3600
  else
    match afterFirst "content-type:".toList hdrLower with
    | none => none
    | some rest =>
        let ct := rest.takeWhile (· ≠ '\r')
        if contains ct "image/" || contains ct "font/" then some 3600
        else if contains ct "text/css" || contains ct "javascript" || contains ct "application/wasm"
          then some 1800
        else none

/-- `parse_ttl`, in seconds; `none` when the response is not to be stored. -/
def parseTtl (rawResponse : Bytes) (url : String) : Option Nat := do
  let hdr ← headerSection rawResponse
  let text ← String.fromUTF8? ⟨hdr.toArray⟩
  let hdrLower := text.toList.map Char.toLower
  if hdrLower.isEmpty then none
  if !"http/1.1 200".toList.isPrefixOf hdrLower && !"http/1.0 200".toList.isPrefixOf hdrLower then
    none
  if contains hdrLower "no-store" || contains hdrLower "no-cache" || contains hdrLower "private" then
    none
  if contains hdrLower "set-cookie:" then none
  match afterFirst "max-age=".toList hdrLower with
  | none => guessTtl hdrLower url.toList
  | some rest =>
      match parseU64 (rest.takeWhile Char.isDigit) with
      | none => guessTtl hdrLower url.toList
      | some secs => if secs = 0 then none else some (min secs 86400)

end Rahgozar.Fronter
