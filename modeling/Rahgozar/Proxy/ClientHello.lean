import Rahgozar.Lib.Offsets
import Rahgozar.Proxy.DirectMode

set_option autoImplicit false

/-! # Fragments of a ClientHello (`src/direct_mode.rs`)

The cut points are found by a walk over bytes that any client may have sent. Here the walk, the
shuffle of the random cut points and the writes have the panics of the code: a result is `none`
where an index, a slice or a range of random numbers would panic. There are none. A ClientHello is
built from its parts, and the walk finds the host name in it, so a cut lies inside the name.
-/

namespace Rahgozar.Proxy.Direct

namespace Checked

/-! ## The walk, with its panics -/

/-- The loop over the names of the extension. `data[i]` panics past the end, and `get` does not. -/
def sniNames (data : List UInt8) (listEnd i : Nat) : Option (Option (Nat × Nat)) :=
  if _h : listEnd < i + 3 then some none
  else
    (data[i]?).bind fun nameType =>
      match word data (i + 1) with
      | none => some none
      | some nl =>
          if listEnd < i + 3 + nl then some none
          else if nameType = 0 then some (some (i + 3, i + 3 + nl))
          else sniNames data listEnd (i + 3 + nl)
termination_by listEnd - i

def sniHostRangeInExtension (data : List UInt8) (start stop : Nat) : Option (Option (Nat × Nat)) :=
  match word data start with
  | none => some none
  | some listLen =>
      if stop < start + 2 + listLen then some none
      else sniNames data (start + 2 + listLen) (start + 2)

/-- The loop over the extensions. -/
def sniExtensions (data : List UInt8) (extEnd i : Nat) : Option (Option (Nat × Nat)) :=
  if _h : extEnd < i + 4 then some none
  else
    match word data i, word data (i + 2) with
    | some typ, some l =>
        if extEnd < i + 4 + l then some none
        else if typ = 0 then sniHostRangeInExtension data (i + 4) (i + 4 + l)
        else sniExtensions data extEnd (i + 4 + l)
    | _, _ => some none
termination_by extEnd - i

def tlsSniHostRange (data : List UInt8) : Option (Option (Nat × Nat)) :=
  if data[0]? ≠ some 0x16 ∨ data[5]? ≠ some 0x01 then some none
  else
    -- record header, handshake header, version and random
    (data[43]?).elim (some none) fun sessionLen =>
      let i := 43 + 1 + sessionLen.toNat
      (word data i).elim (some none) fun cipherLen =>
        let i := i + 2 + cipherLen
        (data[i]?).elim (some none) fun compLen =>
          let i := i + 1 + compLen.toNat
          (word data i).elim (some none) fun extLen =>
            let i := i + 2
            if data.length < i + extLen then some none
            else sniExtensions data (i + extLen) i

/-! ## The cut points, with their panics -/

/-- `n * i` wraps at the width of `usize`. -/
def equalSplits (n numChunks : Nat) : List Nat :=
  if numChunks ≤ 1 ∨ n = 0 then []
  else
    ((List.range' 1 (numChunks - 1)).foldl
      (fun (out, prev) i =>
        let p := n * i % 2 ^ 64 / numChunks
        if p = 0 ∨ p = n ∨ p = prev then (out, prev) else (out ++ [p], p))
      (([] : List Nat), 0)).1

/-- `gen_range` panics on an empty range, and `swap` past the end. -/
def shuffle (draws : Nat → Nat) : List Nat → Array Nat → Option (Array Nat)
  | [], idx => some idx
  | i :: rounds, idx =>
      if idx.size ≤ i then none
      else if h : i < idx.size ∧ i + draws i % (idx.size - i) < idx.size then
        shuffle draws rounds (idx.swap i (i + draws i % (idx.size - i)))
      else none

def randomSplits (draws : Nat → Nat) (n count : Nat) : Option (List Nat) :=
  if n ≤ 1 ∨ count = 0 then some []
  else
    let take := min count (n - 1)
    (shuffle draws (List.range take) (List.range' 1 (n - 1)).toArray).map fun idx =>
      (idx.toList.take take).mergeSort fun a b => a ≤ b

def sniSplits (data : List UInt8) : Option (Option (List Nat)) :=
  (tlsSniHostRange data).map fun range =>
    range.bind fun (hostStart, hostEnd) =>
      let out := normalizeSplits data.length
        [1, 5, hostStart - 8, hostStart - 1, hostStart + 1, hostStart + 7, hostEnd]
      if out.isEmpty then none else some out

/-- The cut points of a strategy; the first arm is `unreachable!()`. -/
def rawSplits (p : Profile) (data : List UInt8) : Option (List Nat) :=
  match p.strategy with
  | .passthrough => none
  | .equal => some (equalSplits data.length p.numChunks)
  | .sni => (sniSplits data).map fun s => s.getD []
  | .sniPrefixed => (sniSplits data).map fun s => [1, 5] ++ s.getD []

def computeSplits (draws : Nat → Nat) (p : Profile) (data : List UInt8) : Option (List Nat) :=
  let n := data.length
  if n < 2 ∨ p.strategy = .passthrough then some []
  else
    (rawSplits p data).bind fun raw =>
      let sorted := normalizeSplits n raw
      if sorted.isEmpty ∧ p.strategy ≠ .equal then randomSplits draws n (p.numChunks - 1)
      else some sorted

/-- The writes that succeed, when all do. -/
def fragmentedWrite (draws : Nat → Nat) (data : List UInt8) (profile : Profile) :
    Option (List (List UInt8)) :=
  (computeSplits draws profile data).bind fun splits =>
    if splits.isEmpty then some [data] else writesFrom data 0 splits

/-! ## There is no panic -/

theorem sniNames_eq {data : List UInt8} {listEnd fuel i : Nat} (hend : listEnd ≤ data.length)
    (hfuel : listEnd < i + fuel) :
    sniNames data listEnd i = some (Direct.sniNames data listEnd fuel i) := by
  induction fuel generalizing i with
  | zero =>
      unfold sniNames
      rw [dif_pos (by omega)]
      rfl
  | succ fuel ih =>
      unfold sniNames Direct.sniNames
      by_cases hlast : listEnd < i + 3
      · rw [dif_pos hlast, if_pos hlast]
      · rw [dif_neg hlast, if_neg hlast]
        obtain ⟨nameType, hbyte⟩ : ∃ b, data[i]? = some b := Offset.exists_getElem? (by omega)
        rw [hbyte]
        cases hword : word data (i + 1) with
        | none => rfl
        | some nl =>
            show (if listEnd < i + 3 + nl then some none
              else if nameType = 0 then some (some (i + 3, i + 3 + nl))
              else sniNames data listEnd (i + 3 + nl)) = some (if listEnd < i + 3 + nl then none
              else if nameType = 0 then some (i + 3, i + 3 + nl)
              else Direct.sniNames data listEnd fuel (i + 3 + nl))
            rw [ih (by omega)]
            split_ifs <;> rfl

theorem sniHostRangeInExtension_eq {data : List UInt8} {start stop : Nat}
    (hstop : stop ≤ data.length) :
    sniHostRangeInExtension data start stop =
      some (Direct.sniHostRangeInExtension data start stop) := by
  unfold sniHostRangeInExtension Direct.sniHostRangeInExtension
  cases word data start with
  | none => rfl
  | some listLen =>
      show (if stop < start + 2 + listLen then some none
        else sniNames data (start + 2 + listLen) (start + 2)) =
        some (if stop < start + 2 + listLen then none
        else Direct.sniNames data (start + 2 + listLen) data.length (start + 2))
      split_ifs with hlist
      · rfl
      · exact sniNames_eq (by omega) (by omega)

theorem sniExtensions_eq {data : List UInt8} {extEnd fuel i : Nat} (hend : extEnd ≤ data.length)
    (hfuel : extEnd < i + fuel) :
    sniExtensions data extEnd i = some (Direct.sniExtensions data extEnd fuel i) := by
  induction fuel generalizing i with
  | zero =>
      unfold sniExtensions
      rw [dif_pos (by omega)]
      rfl
  | succ fuel ih =>
      unfold sniExtensions Direct.sniExtensions
      by_cases hlast : extEnd < i + 4
      · rw [dif_pos hlast, if_pos hlast]
      · rw [dif_neg hlast, if_neg hlast]
        cases word data i with
        | none => rfl
        | some typ =>
            cases word data (i + 2) with
            | none => rfl
            | some l =>
                show (if extEnd < i + 4 + l then some none
                  else if typ = 0 then sniHostRangeInExtension data (i + 4) (i + 4 + l)
                  else sniExtensions data extEnd (i + 4 + l)) =
                  some (if extEnd < i + 4 + l then none
                  else if typ = 0 then Direct.sniHostRangeInExtension data (i + 4) (i + 4 + l)
                  else Direct.sniExtensions data extEnd fuel (i + 4 + l))
                rw [ih (by omega)]
                split_ifs with hext htyp
                · rfl
                · exact sniHostRangeInExtension_eq (by omega)
                · rfl

theorem tlsSniHostRange_eq (data : List UInt8) :
    tlsSniHostRange data = some (Direct.tlsSniHostRange data) := by
  unfold tlsSniHostRange Direct.tlsSniHostRange
  split
  · rfl
  cases data[43]? with
  | none => rfl
  | some sessionLen =>
      dsimp only [Option.elim_some, Option.bind_some]
      cases word data (43 + 1 + sessionLen.toNat) with
      | none => rfl
      | some cipherLen =>
          dsimp only [Option.elim_some, Option.bind_some]
          cases data[43 + 1 + sessionLen.toNat + 2 + cipherLen]? with
          | none => rfl
          | some compLen =>
              dsimp only [Option.elim_some, Option.bind_some]
              cases word data (43 + 1 + sessionLen.toNat + 2 + cipherLen + 1 + compLen.toNat) with
              | none => rfl
              | some extLen =>
                  dsimp only [Option.elim_some, Option.bind_some]
                  split_ifs with hext
                  · rfl
                  · exact sniExtensions_eq (by omega) (by omega)

/-- Every round draws from a range that is not empty and swaps inside. -/
theorem shuffle_eq (draws : Nat → Nat) {rounds : List Nat} {idx : Array Nat}
    (h : ∀ i ∈ rounds, i < idx.size) :
    shuffle draws rounds idx = some (Direct.shuffle draws rounds idx) := by
  induction rounds generalizing idx with
  | nil => rfl
  | cons i rounds ih =>
      have hi : i < idx.size := h i List.mem_cons_self
      have hj : i + draws i % (idx.size - i) < idx.size := by
        have hmod := Nat.mod_lt (draws i) (Nat.sub_pos_of_lt hi)
        omega
      have hswap : idx.swapIfInBounds i (i + draws i % (idx.size - i)) =
          idx.swap i (i + draws i % (idx.size - i)) := by
        unfold Array.swapIfInBounds
        rw [dif_pos hi, dif_pos hj]
      unfold shuffle
      rw [if_neg (not_le.mpr hi), dif_pos ⟨hi, hj⟩, ih]
      · show _ = some (Direct.shuffle draws rounds
          (idx.swapIfInBounds i (i + draws i % (idx.size - i))))
        rw [hswap]
      · intro k hk
        rw [Array.size_swap]
        exact h k (List.mem_cons_of_mem i hk)

theorem randomSplits_eq (draws : Nat → Nat) (n count : Nat) :
    randomSplits draws n count = some (Direct.randomSplits draws n count) := by
  unfold randomSplits Direct.randomSplits
  split
  · rfl
  · dsimp only
    rw [shuffle_eq]
    · rfl
    · intro i hi
      rw [List.size_toArray, List.length_range']
      exact (List.mem_range.mp hi).trans_le (Nat.min_le_right ..)

theorem sniSplits_eq (data : List UInt8) : sniSplits data = some (Direct.sniSplits data) := by
  unfold sniSplits Direct.sniSplits
  rw [tlsSniHostRange_eq]
  rfl

/-- The arm that is not reached aside, the cut points are found. -/
theorem rawSplits_isSome {p : Profile} (hp : p.strategy ≠ .passthrough) (data : List UInt8) :
    ∃ raw, rawSplits p data = some raw := by
  unfold rawSplits
  rw [sniSplits_eq]
  cases hstrategy : p.strategy with
  | passthrough => exact absurd hstrategy hp
  | equal => exact ⟨_, rfl⟩
  | sni => exact ⟨_, rfl⟩
  | sniPrefixed => exact ⟨_, rfl⟩

theorem computeSplits_inside (draws : Nat → Nat) (p : Profile) (data : List UInt8) :
    ∃ splits, computeSplits draws p data = some splits ∧ SplitsInside data.length splits := by
  unfold computeSplits
  dsimp only
  by_cases hnone : data.length < 2 ∨ p.strategy = .passthrough
  · rw [if_pos hnone]
    exact ⟨[], rfl, List.Pairwise.nil, fun _ h => (nomatch h)⟩
  · rw [if_neg hnone]
    obtain ⟨raw, hraw⟩ := rawSplits_isSome (not_or.mp hnone).2 data
    rw [hraw, Option.bind_some]
    split
    · rw [randomSplits_eq]
      exact ⟨_, rfl, randomSplits_inside draws _ _⟩
    · exact ⟨_, rfl, normalizeSplits_inside _ _⟩

theorem fragmentedWrite_flatten (draws : Nat → Nat) (data : List UInt8) (profile : Profile) :
    ∃ chunks, fragmentedWrite draws data profile = some chunks ∧ chunks.flatten = data := by
  obtain ⟨splits, hsplits, hsorted, hinside⟩ := computeSplits_inside draws profile data
  unfold fragmentedWrite
  rw [hsplits, Option.bind_some]
  split
  · exact ⟨[data], rfl, List.flatten_singleton⟩
  · exact writesFrom_flatten (Nat.zero_le _) hsorted fun s hs => ⟨Nat.zero_le s, (hinside s hs).2⟩

/-- Where the product does not wrap, these are the cut points without the panics. -/
theorem computeSplits_eq (draws : Nat → Nat) (p : Profile) (data : List UInt8)
    (h : data.length * p.numChunks ≤ 2 ^ 64) :
    computeSplits draws p data = some (Direct.computeSplits draws p data) := by
  have hequal : equalSplits data.length p.numChunks =
      Direct.equalSplits data.length p.numChunks := by
    unfold equalSplits Direct.equalSplits
    split_ifs with hnone
    · rfl
    · congr 1
      refine List.foldl_ext _ _ _ fun acc i hi => ?_
      have hlt : data.length * i < 2 ^ 64 := by
        refine lt_of_lt_of_le (Nat.mul_lt_mul_of_pos_left ?_ (by omega)) h
        rw [List.mem_range'_1] at hi
        omega
      rw [Nat.mod_eq_of_lt hlt]
  unfold computeSplits Direct.computeSplits
  dsimp only
  split
  · rfl
  · rename_i hsome
    have hraw : rawSplits p data = some (Direct.rawSplits p data) := by
      unfold rawSplits Direct.rawSplits
      rw [sniSplits_eq, hequal]
      cases hstrategy : p.strategy with
      | passthrough => exact absurd hstrategy (not_or.mp hsome).2
      | equal => rfl
      | sni => rfl
      | sniPrefixed => rfl
    rw [hraw, Option.bind_some, randomSplits_eq]
    split_ifs <;> rfl

end Checked

/-! ## A ClientHello -/

structure Extension where
  typ : UInt16
  body : List UInt8

def Extension.bytes (e : Extension) : List UInt8 :=
  BigEndian.put 2 e.typ.toNat ++ (BigEndian.put 2 e.body.length ++ e.body)

structure ServerName where
  nameType : UInt8
  name : List UInt8

def ServerName.bytes (n : ServerName) : List UInt8 :=
  n.nameType :: (BigEndian.put 2 n.name.length ++ n.name)

/-- The parts of a ClientHello. The first `server_name` is behind the extensions `before`, and in it
the first `host_name` is behind the names `namesBefore`. -/
structure HelloParts where
  recordVersion : UInt16
  version : UInt16
  random : List UInt8
  sessionId : List UInt8
  cipherSuites : List UInt8
  compression : List UInt8
  before : List Extension
  namesBefore : List ServerName
  host : List UInt8
  namesAfter : List ServerName
  after : List Extension

namespace HelloParts

def names (h : HelloParts) : List UInt8 :=
  h.namesBefore.flatMap ServerName.bytes ++
    (ServerName.bytes ⟨0, h.host⟩ ++ h.namesAfter.flatMap ServerName.bytes)

def serverName (h : HelloParts) : Extension := ⟨0, BigEndian.put 2 h.names.length ++ h.names⟩

def extensions (h : HelloParts) : List UInt8 :=
  h.before.flatMap Extension.bytes ++ (h.serverName.bytes ++ h.after.flatMap Extension.bytes)

/-- What is behind the random bytes. -/
def tail (h : HelloParts) : List UInt8 :=
  UInt8.ofNat h.sessionId.length :: (h.sessionId ++
    (BigEndian.put 2 h.cipherSuites.length ++ (h.cipherSuites ++
      (UInt8.ofNat h.compression.length :: (h.compression ++
        (BigEndian.put 2 h.extensions.length ++ h.extensions))))))

def body (h : HelloParts) : List UInt8 := BigEndian.put 2 h.version.toNat ++ (h.random ++ h.tail)

def handshake (h : HelloParts) : List UInt8 := 0x01 :: (BigEndian.put 3 h.body.length ++ h.body)

/-- The record. -/
def bytes (h : HelloParts) : List UInt8 :=
  0x16 :: (BigEndian.put 2 h.recordVersion.toNat ++
    (BigEndian.put 2 h.handshake.length ++ h.handshake))

/-- Where the names of the extension begin. -/
def namesOffset (h : HelloParts) : Nat :=
  43 + 1 + h.sessionId.length + 2 + h.cipherSuites.length + 1 + h.compression.length + 2 +
    (h.before.flatMap Extension.bytes).length + 4 + 2

/-- Where the host name begins. -/
def hostOffset (h : HelloParts) : Nat :=
  h.namesOffset + (h.namesBefore.flatMap ServerName.bytes).length + 3

end HelloParts

/-- A ClientHello that fits into one record. -/
structure ClientHello extends HelloParts where
  random_length : random.length = 32
  sessionId_length : sessionId.length ≤ 32
  compression_length : compression.length ≤ 255
  before_typ : ∀ e ∈ before, e.typ ≠ 0
  namesBefore_typ : ∀ n ∈ namesBefore, n.nameType ≠ 0
  single : toHelloParts.handshake.length ≤ 2 ^ 14

/-! ## The walk over a ClientHello -/

theorem word_put {n : Nat} (hn : n < 2 ^ 16) (front rest : List UInt8) :
    word (front ++ (BigEndian.put 2 n ++ rest)) front.length = some n := by
  have hbytes : BigEndian.put 2 n = [UInt8.ofNat (n / 256), UInt8.ofNat n] := rfl
  have hhi : (UInt8.ofNat (n / 256)).toNat = n / 256 % 256 := UInt8.toNat_ofNat
  have hlo : (UInt8.ofNat n).toNat = n % 256 := UInt8.toNat_ofNat
  unfold word
  rw [List.drop_left, hbytes]
  show some ((UInt8.ofNat (n / 256)).toNat * 256 + (UInt8.ofNat n).toNat) = some n
  rw [hhi, hlo]
  congr 1
  omega

theorem length_serverName_bytes (n : ServerName) : n.bytes.length = 3 + n.name.length := by
  unfold ServerName.bytes
  rw [List.length_cons, List.length_append, BigEndian.length_put]
  omega

theorem length_extension_bytes (e : Extension) : e.bytes.length = 4 + e.body.length := by
  unfold Extension.bytes
  rw [List.length_append, List.length_append, BigEndian.length_put, BigEndian.length_put]
  omega

/-- The head of a name. -/
theorem head_serverName {n : ServerName} (hn : n.name.length < 2 ^ 16) (front rest : List UInt8) :
    (front ++ (n.bytes ++ rest))[front.length]? = some n.nameType ∧
      word (front ++ (n.bytes ++ rest)) (front.length + 1) = some n.name.length := by
  constructor
  · exact Offset.getElem?_append_add front _ 0
  · have hword := word_put hn (front ++ [n.nameType]) (n.name ++ rest)
    rw [List.append_assoc, List.length_append] at hword
    unfold ServerName.bytes
    rw [List.cons_append, List.append_assoc]
    exact hword

/-- The head of an extension. -/
theorem head_extension {e : Extension} (he : e.body.length < 2 ^ 16) (front rest : List UInt8) :
    word (front ++ (e.bytes ++ rest)) front.length = some e.typ.toNat ∧
      word (front ++ (e.bytes ++ rest)) (front.length + 2) = some e.body.length := by
  have hbytes : e.bytes ++ rest =
      BigEndian.put 2 e.typ.toNat ++ (BigEndian.put 2 e.body.length ++ (e.body ++ rest)) := by
    rw [Extension.bytes, List.append_assoc, List.append_assoc]
  rw [hbytes]
  constructor
  · exact word_put e.typ.toNat_lt front _
  · have hword := word_put he (front ++ BigEndian.put 2 e.typ.toNat) (e.body ++ rest)
    rw [List.append_assoc, List.length_append, BigEndian.length_put] at hword
    exact hword

/-- The walk over the names stops at the first host name. -/
theorem sniNames_host {namesBefore : List ServerName} (hbefore : ∀ n ∈ namesBefore, n.nameType ≠ 0)
    (host front rest : List UInt8) (listEnd : Nat)
    (hend : front.length + (namesBefore.flatMap ServerName.bytes).length + 3 + host.length ≤
      listEnd)
    (hlist : listEnd < front.length + 2 ^ 16) :
    Checked.sniNames (front ++ (namesBefore.flatMap ServerName.bytes ++
        (ServerName.bytes ⟨0, host⟩ ++ rest))) listEnd front.length =
      some (some (front.length + (namesBefore.flatMap ServerName.bytes).length + 3,
        front.length + (namesBefore.flatMap ServerName.bytes).length + 3 + host.length)) := by
  induction namesBefore generalizing front with
  | nil =>
      rw [List.flatMap_nil, List.length_nil] at hend
      rw [List.flatMap_nil, List.length_nil, List.nil_append]
      have hhost : (⟨0, host⟩ : ServerName).name.length < 2 ^ 16 := by
        show host.length < 2 ^ 16
        omega
      obtain ⟨htype, hlength⟩ := head_serverName hhost front rest
      unfold Checked.sniNames
      rw [dif_neg (by omega), htype, Option.bind_some, hlength]
      show (if listEnd < front.length + 3 + host.length then some none
        else if (0 : UInt8) = 0 then _ else _) = _
      rw [if_neg (by omega), if_pos rfl]
  | cons n namesBefore ih =>
      rw [List.flatMap_cons, List.length_append, length_serverName_bytes] at hend
      have hrest := ih (fun m hm => hbefore m (List.mem_cons_of_mem n hm)) (front ++ n.bytes)
        (by rw [List.length_append, length_serverName_bytes]; omega)
        (by rw [List.length_append, length_serverName_bytes]; omega)
      have hname : n.name.length < 2 ^ 16 := by omega
      obtain ⟨htype, hlength⟩ := head_serverName hname front
        (namesBefore.flatMap ServerName.bytes ++ (ServerName.bytes ⟨0, host⟩ ++ rest))
      rw [List.flatMap_cons, List.append_assoc]
      unfold Checked.sniNames
      rw [dif_neg (by omega), htype, Option.bind_some, hlength]
      show (if listEnd < front.length + 3 + n.name.length then some none
        else if n.nameType = 0 then _ else _) = _
      rw [if_neg (by omega), if_neg (hbefore n List.mem_cons_self), List.length_append,
        length_serverName_bytes]
      rw [List.append_assoc, List.length_append, length_serverName_bytes] at hrest
      rw [Nat.add_assoc front.length 3, hrest]
      simp only [Nat.add_assoc]

/-- The walk finds the host name in the extension `server_name`. -/
theorem sniHostRangeInExtension_host (h : ClientHello) (front rest : List UInt8)
    (hlen : h.serverName.body.length < 2 ^ 16) :
    Checked.sniHostRangeInExtension (front ++ (h.serverName.body ++ rest)) front.length
        (front.length + h.serverName.body.length) =
      some (some (front.length + 2 + (h.namesBefore.flatMap ServerName.bytes).length + 3,
        front.length + 2 + (h.namesBefore.flatMap ServerName.bytes).length + 3
          + h.host.length)) := by
  have hbody : h.serverName.body.length = 2 + h.names.length := by
    show (BigEndian.put 2 h.names.length ++ h.names).length = 2 + h.names.length
    rw [List.length_append, BigEndian.length_put]
  have hnames : h.names.length = (h.namesBefore.flatMap ServerName.bytes).length +
      (3 + h.host.length + (h.namesAfter.flatMap ServerName.bytes).length) := by
    unfold HelloParts.names
    rw [List.length_append, List.length_append, length_serverName_bytes]
  have hdata : front ++ (h.serverName.body ++ rest) =
      (front ++ BigEndian.put 2 h.names.length) ++ (h.namesBefore.flatMap ServerName.bytes ++
        (ServerName.bytes ⟨0, h.host⟩ ++ (h.namesAfter.flatMap ServerName.bytes ++ rest))) := by
    simp only [HelloParts.serverName, HelloParts.names, List.append_assoc]
  have hword : word (front ++ (h.serverName.body ++ rest)) front.length = some h.names.length := by
    have hput := word_put (n := h.names.length) (by omega) front (h.names ++ rest)
    rwa [← List.append_assoc (BigEndian.put 2 h.names.length)] at hput
  have hfound := sniNames_host h.namesBefore_typ h.host (front ++ BigEndian.put 2 h.names.length)
    (h.namesAfter.flatMap ServerName.bytes ++ rest) (front.length + 2 + h.names.length)
    (by rw [List.length_append, BigEndian.length_put]; omega)
    (by rw [List.length_append, BigEndian.length_put]; omega)
  unfold Checked.sniHostRangeInExtension
  rw [hword]
  show (if _ < front.length + 2 + h.names.length then some none
    else Checked.sniNames _ (front.length + 2 + h.names.length) (front.length + 2)) = _
  rw [if_neg (by omega), hdata]
  rw [List.length_append, BigEndian.length_put] at hfound
  exact hfound

/-- The walk over the extensions stops at the first `server_name`. -/
theorem sniExtensions_host (h : ClientHello) {before : List Extension}
    (hbefore : ∀ e ∈ before, e.typ ≠ 0) (front rest : List UInt8) (extEnd : Nat)
    (hend : front.length + (before.flatMap Extension.bytes).length + h.serverName.bytes.length
      ≤ extEnd)
    (hlist : extEnd < front.length + 2 ^ 16) :
    Checked.sniExtensions (front ++ (before.flatMap Extension.bytes ++
        (h.serverName.bytes ++ rest))) extEnd front.length =
      some (some (front.length + (before.flatMap Extension.bytes).length + 4 + 2 +
          (h.namesBefore.flatMap ServerName.bytes).length + 3,
        front.length + (before.flatMap Extension.bytes).length + 4 + 2 +
          (h.namesBefore.flatMap ServerName.bytes).length + 3 + h.host.length)) := by
  induction before generalizing front with
  | nil =>
      -- the first `server_name`: its list is looked into
      rw [List.flatMap_nil, List.length_nil, length_extension_bytes] at hend
      rw [List.flatMap_nil, List.length_nil, List.nil_append]
      have hbody : h.serverName.body.length < 2 ^ 16 := by omega
      obtain ⟨htyp, hlength⟩ := head_extension hbody front rest
      have hfound := sniHostRangeInExtension_host h
        (front ++ (BigEndian.put 2 0 ++ BigEndian.put 2 h.serverName.body.length)) rest hbody
      rw [List.length_append, List.length_append, BigEndian.length_put,
        BigEndian.length_put] at hfound
      have hdata : front ++ (BigEndian.put 2 0 ++ BigEndian.put 2 h.serverName.body.length) ++
          (h.serverName.body ++ rest) = front ++ (h.serverName.bytes ++ rest) := by
        simp only [Extension.bytes, List.append_assoc]
        rfl
      rw [hdata] at hfound
      unfold Checked.sniExtensions
      rw [dif_neg (by omega), htyp, hlength]
      show (if extEnd < front.length + 4 + h.serverName.body.length then some none
        else if (0 : Nat) = 0 then _ else _) = _
      rw [if_neg (by omega), if_pos rfl]
      exact hfound
  | cons e before ih =>
      -- another extension is passed over by its length
      rw [List.flatMap_cons, List.length_append, length_extension_bytes] at hend
      have hrest := ih (fun m hm => hbefore m (List.mem_cons_of_mem e hm)) (front ++ e.bytes)
        (by rw [List.length_append, length_extension_bytes e]; omega)
        (by rw [List.length_append, length_extension_bytes]; omega)
      have hbody : e.body.length < 2 ^ 16 := by omega
      obtain ⟨htyp, hlength⟩ := head_extension hbody front
        (before.flatMap Extension.bytes ++ (h.serverName.bytes ++ rest))
      have hne : e.typ.toNat ≠ 0 := fun hzero =>
        hbefore e List.mem_cons_self (UInt16.toNat_inj.mp hzero)
      rw [List.flatMap_cons, List.append_assoc]
      unfold Checked.sniExtensions
      rw [dif_neg (by omega), htyp, hlength]
      show (if extEnd < front.length + 4 + e.body.length then some none
        else if e.typ.toNat = 0 then _ else _) = _
      rw [if_neg (by omega), if_neg hne, List.length_append, length_extension_bytes]
      rw [List.append_assoc, List.length_append, length_extension_bytes] at hrest
      rw [Nat.add_assoc front.length 4, hrest]
      simp only [Nat.add_assoc]

/-- What is in front of the session id. -/
def HelloParts.start (h : HelloParts) : List UInt8 :=
  0x16 :: (BigEndian.put 2 h.recordVersion.toNat ++ (BigEndian.put 2 h.handshake.length ++
    (0x01 :: (BigEndian.put 3 h.body.length ++ (BigEndian.put 2 h.version.toNat ++ h.random)))))

theorem bytes_eq (h : HelloParts) : h.bytes = h.start ++ h.tail := by
  simp only [HelloParts.bytes, HelloParts.start, HelloParts.handshake, HelloParts.body,
    List.cons_append, List.append_assoc]

theorem length_start (h : ClientHello) : h.start.length = 43 := by
  simp only [HelloParts.start, List.length_cons, List.length_append, BigEndian.length_put,
    h.random_length]

theorem length_tail (h : HelloParts) :
    h.tail.length = 6 + h.sessionId.length + h.cipherSuites.length + h.compression.length +
      h.extensions.length := by
  simp only [HelloParts.tail, List.length_cons, List.length_append, BigEndian.length_put]
  omega

theorem length_handshake (h : ClientHello) : h.handshake.length = 38 + h.tail.length := by
  simp only [HelloParts.handshake, HelloParts.body, List.length_cons, List.length_append,
    BigEndian.length_put, h.random_length]
  omega

theorem toNat_ofNat_of_lt {n : Nat} (h : n < 256) : (UInt8.ofNat n).toNat = n := by
  rw [UInt8.toNat_ofNat', Nat.mod_eq_of_lt h]

/-! ## The four lengths in front of the extensions -/

namespace HelloParts

/-- What is in front of the cipher suites' length. -/
def toCiphers (h : HelloParts) : List UInt8 :=
  h.start ++ UInt8.ofNat h.sessionId.length :: h.sessionId

/-- What is in front of the compression methods' length. -/
def toCompression (h : HelloParts) : List UInt8 :=
  h.toCiphers ++ (BigEndian.put 2 h.cipherSuites.length ++ h.cipherSuites)

/-- What is in front of the extensions' length. -/
def toExtensionsLength (h : HelloParts) : List UInt8 :=
  h.toCompression ++ UInt8.ofNat h.compression.length :: h.compression

def toExtensions (h : HelloParts) : List UInt8 :=
  h.toExtensionsLength ++ BigEndian.put 2 h.extensions.length

theorem bytes_toExtensions (h : HelloParts) : h.bytes = h.toExtensions ++ h.extensions := by
  simp only [bytes_eq, toExtensions, toExtensionsLength, toCompression, toCiphers, tail,
    List.cons_append, List.append_assoc]

theorem bytes_toExtensionsLength (h : HelloParts) :
    h.bytes = h.toExtensionsLength ++ (BigEndian.put 2 h.extensions.length ++ h.extensions) := by
  rw [bytes_toExtensions]
  unfold toExtensions
  rw [List.append_assoc]

theorem bytes_toCompression (h : HelloParts) :
    h.bytes = h.toCompression ++ (UInt8.ofNat h.compression.length :: (h.compression ++
      (BigEndian.put 2 h.extensions.length ++ h.extensions))) := by
  rw [bytes_toExtensionsLength]
  unfold toExtensionsLength
  rw [List.append_assoc, List.cons_append]

theorem bytes_toCiphers (h : HelloParts) :
    h.bytes = h.toCiphers ++ (BigEndian.put 2 h.cipherSuites.length ++ (h.cipherSuites ++
      (UInt8.ofNat h.compression.length :: (h.compression ++
        (BigEndian.put 2 h.extensions.length ++ h.extensions))))) := by
  rw [bytes_toCompression]
  unfold toCompression
  rw [List.append_assoc, List.append_assoc]

theorem bytes_start (h : HelloParts) :
    ∃ behind, h.bytes = h.start ++ UInt8.ofNat h.sessionId.length :: behind := by
  have hbytes := h.bytes_toCiphers
  unfold toCiphers at hbytes
  rw [List.append_assoc, List.cons_append] at hbytes
  exact ⟨_, hbytes⟩

end HelloParts

theorem length_toCiphers (h : ClientHello) :
    h.toCiphers.length = 43 + 1 + h.sessionId.length := by
  unfold HelloParts.toCiphers
  rw [List.length_append, length_start, List.length_cons]
  omega

theorem length_toCompression (h : ClientHello) :
    h.toCompression.length = 43 + 1 + h.sessionId.length + 2 + h.cipherSuites.length := by
  unfold HelloParts.toCompression
  rw [List.length_append, length_toCiphers, List.length_append, BigEndian.length_put]
  omega

theorem length_toExtensionsLength (h : ClientHello) :
    h.toExtensionsLength.length =
      43 + 1 + h.sessionId.length + 2 + h.cipherSuites.length + 1 + h.compression.length := by
  unfold HelloParts.toExtensionsLength
  rw [List.length_append, length_toCompression, List.length_cons]
  omega

theorem length_toExtensions (h : ClientHello) :
    h.toExtensions.length =
      43 + 1 + h.sessionId.length + 2 + h.cipherSuites.length + 1 + h.compression.length + 2 := by
  unfold HelloParts.toExtensions
  rw [List.length_append, length_toExtensionsLength, BigEndian.length_put]

theorem sessionLength_read (h : ClientHello) (rest : List UInt8) :
    (h.bytes ++ rest)[43]? = some (UInt8.ofNat h.sessionId.length) := by
  obtain ⟨behind, hbytes⟩ := h.bytes_start
  rw [hbytes, List.append_assoc, ← length_start h]
  exact Offset.getElem?_append_add h.start _ 0

theorem cipherLength_read (h : ClientHello) (rest : List UInt8)
    (hlen : h.cipherSuites.length < 2 ^ 16) :
    word (h.bytes ++ rest) (43 + 1 + h.sessionId.length) = some h.cipherSuites.length := by
  rw [h.bytes_toCiphers, List.append_assoc, List.append_assoc, ← length_toCiphers]
  exact word_put hlen h.toCiphers _

theorem compressionLength_read (h : ClientHello) (rest : List UInt8) :
    (h.bytes ++ rest)[43 + 1 + h.sessionId.length + 2 + h.cipherSuites.length]? =
      some (UInt8.ofNat h.compression.length) := by
  rw [h.bytes_toCompression, List.append_assoc, ← length_toCompression]
  exact Offset.getElem?_append_add h.toCompression _ 0

theorem extensionsLength_read (h : ClientHello) (rest : List UInt8)
    (hlen : h.extensions.length < 2 ^ 16) :
    word (h.bytes ++ rest) (43 + 1 + h.sessionId.length + 2 + h.cipherSuites.length + 1 +
      h.compression.length) = some h.extensions.length := by
  rw [h.bytes_toExtensionsLength, List.append_assoc, List.append_assoc,
    ← length_toExtensionsLength]
  exact word_put hlen h.toExtensionsLength _

/-- The walk over the extensions of the hello finds the host name. -/
theorem sniExtensions_hello (h : ClientHello) (rest : List UInt8)
    (hlen : h.extensions.length < 2 ^ 16) :
    Checked.sniExtensions (h.bytes ++ rest) (h.toExtensions.length + h.extensions.length)
        h.toExtensions.length =
      some (some (h.hostOffset, h.hostOffset + h.host.length)) := by
  have hparts : h.extensions.length = (h.before.flatMap Extension.bytes).length +
      (h.serverName.bytes.length + (h.after.flatMap Extension.bytes).length) := by
    simp only [HelloParts.extensions, List.length_append]
  have hdata : h.bytes ++ rest = h.toExtensions ++ (h.before.flatMap Extension.bytes ++
      (h.serverName.bytes ++ (h.after.flatMap Extension.bytes ++ rest))) := by
    rw [h.bytes_toExtensions]
    simp only [HelloParts.extensions, List.append_assoc]
  have hfound := sniExtensions_host h h.before_typ h.toExtensions
    (h.after.flatMap Extension.bytes ++ rest) (h.toExtensions.length + h.extensions.length)
    (by omega) (by omega)
  rw [hdata, hfound, length_toExtensions]
  rfl

/-- **The host name is found** in a ClientHello, whatever is behind the record. -/
theorem tlsSniHostRange_host (h : ClientHello) (rest : List UInt8) :
    Checked.tlsSniHostRange (h.bytes ++ rest) =
      some (some (h.hostOffset, h.hostOffset + h.host.length)) := by
  have htail := length_tail h.toHelloParts
  have hsingle := h.single
  rw [length_handshake] at hsingle
  have hsession := h.sessionId_length
  have hcompression := h.compression_length
  have hrecord : (h.bytes ++ rest)[0]? = some 0x16 := rfl
  have htype : (h.bytes ++ rest)[5]? = some 0x01 := rfl
  have hroom : ¬ (h.bytes ++ rest).length < 43 + 1 + h.sessionId.length + 2 +
      h.cipherSuites.length + 1 + h.compression.length + 2 + h.extensions.length := by
    rw [h.bytes_toExtensions, List.length_append, List.length_append, length_toExtensions]
    omega
  -- A record holds at most 2 ^ 14 bytes, so each length fits in its field.
  have hfound := sniExtensions_hello h rest (by omega)
  rw [length_toExtensions] at hfound
  unfold Checked.tlsSniHostRange
  rw [if_neg (by rw [hrecord, htype]; simp), sessionLength_read]
  dsimp only [Option.elim_some]
  rw [toNat_ofNat_of_lt (by omega), cipherLength_read h rest (by omega)]
  dsimp only [Option.elim_some]
  rw [compressionLength_read]
  dsimp only [Option.elim_some]
  rw [toNat_ofNat_of_lt (by omega), extensionsLength_read h rest (by omega)]
  dsimp only [Option.elim_some]
  rw [if_neg hroom]
  exact hfound

/-! ## A cut inside the host name -/

theorem mem_dedup {l : List Nat} {x : Nat} (h : x ∈ l) : x ∈ dedup l := by
  induction l using dedup.induct with
  | case1 => exact h
  | case2 a => exact h
  | case3 b rest ih =>
      rw [dedup, if_pos rfl]
      obtain hx | hx := List.mem_cons.mp h
      · exact ih (hx ▸ List.mem_cons_self)
      · exact ih hx
  | case4 a b rest hne ih =>
      rw [dedup, if_neg hne]
      obtain hx | hx := List.mem_cons.mp h
      · exact hx ▸ List.mem_cons_self
      · exact List.mem_cons_of_mem a (ih hx)

/-- A cut point inside the data is kept. -/
theorem mem_normalizeSplits {n s : Nat} {raw : List Nat} (h : s ∈ raw) (hpos : 0 < s)
    (hlt : s < n) :
    s ∈ normalizeSplits n raw := by
  refine mem_dedup (List.mem_mergeSort.mpr (List.mem_filter.mpr ⟨h, ?_⟩))
  rw [decide_eq_true hpos, decide_eq_true hlt]
  rfl

/-- The point behind the first byte of the host name is among the cut points. -/
theorem sniSplits_host (h : ClientHello) (rest : List UInt8)
    (hlt : h.hostOffset + 1 < (h.bytes ++ rest).length) :
    ∃ splits, Checked.sniSplits (h.bytes ++ rest) = some (some splits) ∧
      h.hostOffset + 1 ∈ splits := by
  have hmem : h.hostOffset + 1 ∈ normalizeSplits (h.bytes ++ rest).length
      [1, 5, h.hostOffset - 8, h.hostOffset - 1, h.hostOffset + 1, h.hostOffset + 7,
        h.hostOffset + h.host.length] :=
    mem_normalizeSplits (by simp) (Nat.succ_pos _) hlt
  refine ⟨_, ?_, hmem⟩
  unfold Checked.sniSplits
  rw [tlsSniHostRange_host]
  show some (if (normalizeSplits _ _).isEmpty then none else some _) = _
  rw [if_neg]
  intro hempty
  rw [List.isEmpty_iff.mp hempty] at hmem
  cases hmem

/-- The host name is inside the record. -/
theorem hostOffset_le (h : ClientHello) : h.hostOffset + h.host.length ≤ h.bytes.length := by
  have hbytes : h.bytes.length = 43 + h.tail.length := by
    rw [bytes_eq, List.length_append, length_start]
  rw [hbytes, length_tail]
  simp only [HelloParts.hostOffset, HelloParts.namesOffset, HelloParts.extensions,
    HelloParts.serverName, HelloParts.names, List.length_append, length_extension_bytes,
    length_serverName_bytes, BigEndian.length_put]
  omega

theorem computeSplits_host (draws : Nat → Nat) {p : Profile}
    (hp : p.strategy = .sni ∨ p.strategy = .sniPrefixed) (h : ClientHello) (rest : List UInt8)
    (hhost : 2 ≤ h.host.length) {splits : List Nat}
    (hsplits : Checked.computeSplits draws p (h.bytes ++ rest) = some splits) :
    h.hostOffset + 1 ∈ splits := by
  have hle := hostOffset_le h
  have hlt : h.hostOffset + 1 < (h.bytes ++ rest).length := by
    rw [List.length_append]
    omega
  obtain ⟨cuts, hcuts, hmem⟩ := sniSplits_host h rest hlt
  obtain ⟨raw, hraw, hin⟩ : ∃ raw, Checked.rawSplits p (h.bytes ++ rest) = some raw ∧
      h.hostOffset + 1 ∈ raw := by
    unfold Checked.rawSplits
    rw [hcuts]
    obtain hsni | hprefixed := hp
    · rw [hsni]
      exact ⟨cuts, rfl, hmem⟩
    · rw [hprefixed]
      exact ⟨[1, 5] ++ cuts, rfl, List.mem_append_right _ hmem⟩
  have hsorted := mem_normalizeSplits hin (Nat.succ_pos _) hlt
  have hsome : ¬ ((h.bytes ++ rest).length < 2 ∨ p.strategy = .passthrough) := by
    rintro (hshort | hnone)
    · omega
    · obtain hsni | hprefixed := hp
      · rw [hsni] at hnone
        cases hnone
      · rw [hprefixed] at hnone
        cases hnone
  unfold Checked.computeSplits at hsplits
  dsimp only at hsplits
  rw [if_neg hsome, hraw, Option.bind_some, if_neg] at hsplits
  · cases hsplits
    exact hsorted
  · rintro ⟨hempty, -⟩
    rw [List.isEmpty_iff.mp hempty] at hsorted
    cases hsorted

/-- The bytes at the offset are those of the host name. -/
theorem host_at_offset (h : ClientHello) (rest : List UInt8) :
    Offset.slice (h.bytes ++ rest) h.hostOffset (h.hostOffset + h.host.length) = some h.host := by
  let front := h.start ++ (UInt8.ofNat h.sessionId.length :: (h.sessionId ++
    (BigEndian.put 2 h.cipherSuites.length ++ (h.cipherSuites ++
      (UInt8.ofNat h.compression.length :: (h.compression ++
        (BigEndian.put 2 h.extensions.length ++ (h.before.flatMap Extension.bytes ++
          (BigEndian.put 2 0 ++ (BigEndian.put 2 h.serverName.body.length ++
            (BigEndian.put 2 h.names.length ++ (h.namesBefore.flatMap ServerName.bytes ++
              (0 :: BigEndian.put 2 h.host.length)))))))))))))
  have hdata : h.bytes ++ rest = front ++ (h.host ++ (h.namesAfter.flatMap ServerName.bytes ++
      (h.after.flatMap Extension.bytes ++ rest))) := by
    have hext : h.extensions = h.before.flatMap Extension.bytes ++ (BigEndian.put 2 0 ++
        (BigEndian.put 2 h.serverName.body.length ++ (BigEndian.put 2 h.names.length ++
          (h.namesBefore.flatMap ServerName.bytes ++ (0 :: (BigEndian.put 2 h.host.length ++
            (h.host ++ (h.namesAfter.flatMap ServerName.bytes ++
              h.after.flatMap Extension.bytes)))))))) := by
      simp only [HelloParts.extensions, HelloParts.serverName, HelloParts.names, Extension.bytes,
        ServerName.bytes, List.cons_append, List.append_assoc]
      rfl
    rw [bytes_eq]
    simp only [front, HelloParts.tail, List.cons_append, List.append_assoc]
    rw [hext]
    simp only [List.cons_append, List.append_assoc]
  have hlength : front.length = h.hostOffset := by
    simp only [front, HelloParts.hostOffset, HelloParts.namesOffset, List.length_append,
      List.length_cons, BigEndian.length_put, length_start]
    omega
  rw [hdata, ← hlength]
  exact (Offset.slice_append_right front _ 0 h.host.length).trans (Offset.slice_left h.host _)

/-- **Fragments.** For every profile and every input nothing panics, the cut points are inside the
data and in order, and the writes make up the data; and a profile that looks for the host name cuts
every ClientHello inside a host name of two bytes or more. -/
theorem fragments_exact (draws : Nat → Nat) (p : Profile) (data : List UInt8) :
    ∃ splits chunks, Checked.computeSplits draws p data = some splits ∧
      SplitsInside data.length splits ∧
      Checked.fragmentedWrite draws data p = some chunks ∧ chunks.flatten = data ∧
      ((p.strategy = .sni ∨ p.strategy = .sniPrefixed) →
        ∀ (h : ClientHello) (rest : List UInt8), data = h.bytes ++ rest → 2 ≤ h.host.length →
          Offset.slice data h.hostOffset (h.hostOffset + h.host.length) = some h.host ∧
            ∃ s ∈ splits, h.hostOffset < s ∧ s < h.hostOffset + h.host.length) := by
  obtain ⟨splits, hsplits, hinside⟩ := Checked.computeSplits_inside draws p data
  obtain ⟨chunks, hchunks, hflatten⟩ := Checked.fragmentedWrite_flatten draws data p
  refine ⟨splits, chunks, hsplits, hinside, hchunks, hflatten, ?_⟩
  rintro hp h rest rfl hhost
  refine ⟨host_at_offset h rest, h.hostOffset + 1, ?_, Nat.lt_succ_self _, ?_⟩
  · exact computeSplits_host draws hp h rest hhost hsplits
  · exact Nat.add_lt_add_left hhost _

end Rahgozar.Proxy.Direct
