import Reiver.Lib.Bytes
import Reiver.Lib.Fallible
import Reiver.Pond.Indexes.Blob
import Reiver.Pond.WalIndex.InvertedIndex

/-! # Index entries as bytes

The model of `to_bytes` and `from_bytes` of an entry of `wal_index/inverted_index.rs`, and of the merge of two indexes.
Offsets are added in a `usize`: an addition that leaves it and a slice out of range are panics. -/

namespace Reiver.Pond

/-! ### Merging -/

/-- What an entry becomes when the entry of the same value of another index is merged into it. -/
def InvertedIndexEntry.absorb (existing entry : InvertedIndexEntry) : InvertedIndexEntry :=
  let existing :=
    { existing with
      pkBitmap := existing.pkBitmap ∪ entry.pkBitmap
      integerPks := existing.integerPks ∪ entry.integerPks }
  if entry.hasStringPks then
    { existing with
      hasStringPks := true
      pkHashToOriginal := entry.pkHashToOriginal ∪ existing.pkHashToOriginal }
  else existing

namespace InvertedIndex

def mergeEntry (index : InvertedIndex) (e : Nat × InvertedIndexEntry) : InvertedIndex :=
  match index.entries.lookup e.1 with
  | some existing => { index with entries := index.entries.insert e.1 (existing.absorb e.2) }
  | none => { index with distinctValues := index.distinctValues + 1, entries := index.entries.insert e.1 e.2 }

def merge (index other : InvertedIndex) : InvertedIndex := other.entries.pairs.foldl mergeEntry index

end InvertedIndex

/-! ### Writing -/

/-- The serialization of bitmaps, which is read back. -/
structure RoaringCodec where
  encode : Finset Nat → Bytes
  decode : Bytes → Option (Finset Nat)
  decode_encode : ∀ s, (∀ n ∈ s, n < 2 ^ 32) → decode (encode s) = some s

abbrev TextGroup := Nat × List String

def textBytes (s : String) : Bytes := leBytes 8 s.utf8ByteSize ++ utf8Bytes s

def groupBytes (g : TextGroup) : Bytes := leBytes 4 g.1 ++ (leBytes 8 g.2.length ++ g.2.flatMap textBytes)

def mappingBytes (groups : List TextGroup) : Bytes := leBytes 8 groups.length ++ groups.flatMap groupBytes

namespace InvertedIndexEntry

/-- The map and its sets are gone through in the order of `groups`. -/
def toBytes (codec : RoaringCodec) (entry : InvertedIndexEntry) (groups : List TextGroup) : Bytes :=
  leBytes 8 (codec.encode entry.pkBitmap).length ++ (codec.encode entry.pkBitmap ++
    ((if entry.hasStringPks then 1 else 0) :: (leBytes 8 (codec.encode entry.integerPks).length ++
      (codec.encode entry.integerPks ++ mappingBytes groups))))

/-- An order of the map of an entry: each hash once with its texts, each text once. -/
structure Enumerates (entry : InvertedIndexEntry) (groups : List TextGroup) : Prop where
  hashes_nodup : (groups.map Prod.fst).Nodup
  texts_nodup : ∀ g ∈ groups, g.2.Nodup
  nonempty : ∀ g ∈ groups, g.2 ≠ []
  mem_iff : ∀ hash text, (hash, text) ∈ entry.pkHashToOriginal ↔ ∃ g ∈ groups, g.1 = hash ∧ text ∈ g.2

end InvertedIndexEntry

/-! ### Reading -/

inductive DecodePanic where
  | overflow
  | sliceOutOfRange
deriving DecidableEq

structure DecodedEntry where
  valueHash : Nat
  pkBitmap : Finset Nat
  pkHashToOriginal : Dict Nat (Finset String)
  hasStringPks : Bool
  integerPks : Finset Nat

def addOffset (a b : Nat) : Except DecodePanic Nat := if a + b < 2 ^ 64 then .ok (a + b) else .error .overflow

def sliceBytes (bytes : Bytes) (start stop : Nat) : Except DecodePanic Bytes :=
  if start ≤ stop ∧ stop ≤ bytes.length then .ok ((bytes.drop start).take (stop - start))
  else .error .sliceOutOfRange

/-- A little-endian integer of `width` bytes. -/
def readLe (bytes : Bytes) (width offset : Nat) : Except DecodePanic Nat := do
  let stop ← addOffset offset width
  let field ← sliceBytes bytes offset stop
  .ok (ofLeBytes field)

/-- The texts of a hash, up to the first that is cut off; those that are no UTF-8 are left out. -/
def readOriginals (bytes : Bytes) : Nat → Nat → Finset String → Except DecodePanic (Nat × Finset String)
  | 0, offset, originals => .ok (offset, originals)
  | n + 1, offset, originals => do
    let stop ← addOffset offset 8
    if stop > bytes.length then .ok (offset, originals)
    else
      let origLen ← readLe bytes 8 offset
      let offset ← addOffset offset 8
      let stop ← addOffset offset origLen
      if stop > bytes.length then .ok (offset, originals)
      else
        let text ← sliceBytes bytes offset stop
        readOriginals bytes n stop ((fromUtf8 text).elim originals fun s => insert s originals)

/-- The hashes with their texts, up to the first that is cut off. -/
def readGroups (bytes : Bytes) : Nat → Nat → Dict Nat (Finset String) → Except DecodePanic (Dict Nat (Finset String))
  | 0, _, map => .ok map
  | n + 1, offset, map => do
    let stop ← addOffset offset 12
    if stop > bytes.length then .ok map
    else
      let hash ← readLe bytes 4 offset
      let offset ← addOffset offset 4
      let originalsCount ← readLe bytes 8 offset
      let offset ← addOffset offset 8
      let originals ← readOriginals bytes originalsCount offset ∅
      readGroups bytes n originals.1 (map.insert hash originals.2)

def readMapping (bytes : Bytes) (offset : Nat) : Except DecodePanic (Dict Nat (Finset String)) := do
  let stop ← addOffset offset 8
  if stop ≤ bytes.length then
    let mappingCount ← readLe bytes 8 offset
    let offset ← addOffset offset 8
    readGroups bytes mappingCount offset ∅
  else .ok ∅

def readIntegers (codec : RoaringCodec) (valueHash : Nat) (bytes : Bytes) (offset : Nat) (bitmap : Finset Nat)
    (hasStringPks : Bool) : Except DecodePanic (Option DecodedEntry) := do
  let stop ← addOffset offset 8
  if stop > bytes.length then .ok none
  else
    let intPkLen ← readLe bytes 8 offset
    let offset ← addOffset offset 8
    let stop ← addOffset offset intPkLen
    if stop > bytes.length then .ok none
    else
      let intPkBytes ← sliceBytes bytes offset stop
      match codec.decode intPkBytes with
      | none => .ok none
      | some integerPks =>
        let map ← readMapping bytes stop
        .ok (some { valueHash, pkBitmap := bitmap, pkHashToOriginal := map, hasStringPks, integerPks })

def fromBytes (codec : RoaringCodec) (valueHash : Nat) (bytes : Bytes) : Except DecodePanic (Option DecodedEntry) :=
  if bytes.length < 8 then .ok none
  else do
    let bitmapLen ← readLe bytes 8 0
    let stop ← addOffset 8 bitmapLen
    let needed ← addOffset stop 1
    if bytes.length < needed then .ok none
    else
      let bitmapBytes ← sliceBytes bytes 8 stop
      match codec.decode bitmapBytes with
      | none => .ok none
      | some bitmap =>
        let flag ← readLe bytes 1 stop
        let offset ← addOffset stop 1
        readIntegers codec valueHash bytes offset bitmap (flag == 1)

variable {bytes rest : Bytes} {offset start stop a b n : Nat} {originals : Finset String} {texts : List String}
  {groups : List TextGroup} {map : Dict Nat (Finset String)}

/-! ### Reading at an offset -/

theorem addOffset_ok (h : a + b < 2 ^ 64) : addOffset a b = .ok (a + b) := if_pos h

theorem sliceBytes_ok (h : start ≤ stop) (hstop : stop ≤ bytes.length) :
    sliceBytes bytes start stop = .ok ((bytes.drop start).take (stop - start)) := if_pos ⟨h, hstop⟩

theorem addOffset_small (hsize : bytes.length ≤ isizeMax) (hoffset : a ≤ bytes.length) (hb : b ≤ 2 ^ 60) :
    addOffset a b = .ok (a + b) := by
  unfold isizeMax at hsize
  exact addOffset_ok (by omega)

theorem readLe_ok {width : Nat} (hsize : bytes.length ≤ isizeMax) (h : offset + width ≤ bytes.length) :
    readLe bytes width offset = .ok (ofLeBytes ((bytes.drop offset).take width)) := by
  unfold isizeMax at hsize
  rw [readLe, addOffset_ok (by omega)]
  show (sliceBytes bytes offset (offset + width) >>= fun field => Except.ok (ofLeBytes field)) = _
  rw [sliceBytes_ok (Nat.le_add_right _ _) h, Nat.add_sub_cancel_left]
  rfl

theorem readLe_leBytes {width v : Nat} (hsize : bytes.length ≤ isizeMax) (h : At bytes offset (leBytes width v ++ rest))
    (hv : v < 256 ^ width) : readLe bytes width offset = .ok v := by
  rw [readLe_ok hsize (h.fits (leBytes_length width v)), h.take (leBytes_length width v), ofLeBytes_leBytes,
    Nat.mod_eq_of_lt hv]

/-! ### Texts and groups -/

theorem textBytes_length (s : String) : (textBytes s).length = 8 + s.utf8ByteSize := by
  rw [textBytes, List.length_append, leBytes_length, utf8Bytes_length]

theorem length_le_flatMap {α : Type} {f : α → Bytes} (hf : ∀ a, 0 < (f a).length) (l : List α) :
    l.length ≤ (l.flatMap f).length := by
  induction l with
  | nil => exact Nat.zero_le _
  | cons a l ih =>
    have := hf a
    rw [List.flatMap_cons, List.length_append, List.length_cons]
    omega

theorem readOriginals_spec (hsize : bytes.length ≤ isizeMax) (h : At bytes offset (texts.flatMap textBytes ++ rest)) :
    readOriginals bytes texts.length offset originals =
      .ok (offset + (texts.flatMap textBytes).length, texts.foldl (fun set s => insert s set) originals) := by
  induction texts generalizing offset originals with
  | nil => rfl
  | cons s texts ih =>
    have hmax := hsize
    unfold isizeMax at hmax
    rw [List.flatMap_cons, List.append_assoc, textBytes, List.append_assoc] at h
    have hlength := leBytes_length 8 s.utf8ByteSize
    have htext := h.advance hlength
    have hnext := htext.advance (utf8Bytes_length s)
    have hfits := h.fits hlength
    have hfits' := htext.fits (utf8Bytes_length s)
    have htake := htext.take (utf8Bytes_length s)
    rw [List.length_cons, readOriginals, addOffset_ok (by omega)]
    show (if offset + 8 > bytes.length then _ else _) = _
    rw [if_neg (by omega), readLe_leBytes hsize h (by omega)]
    show (addOffset (offset + 8) s.utf8ByteSize >>= fun _ => _) = _
    rw [addOffset_ok (by omega)]
    show (if offset + 8 + s.utf8ByteSize > bytes.length then _ else _) = _
    rw [if_neg (by omega), sliceBytes_ok (by omega) (by omega), Nat.add_sub_cancel_left, htake]
    show readOriginals bytes texts.length (offset + 8 + s.utf8ByteSize)
      ((fromUtf8 (utf8Bytes s)).elim originals fun s => insert s originals) = _
    rw [fromUtf8_utf8Bytes, ih hnext, List.flatMap_cons, List.length_append, textBytes_length, Nat.add_assoc,
      Nat.add_assoc, Nat.add_assoc]
    rfl

theorem foldl_insert_eq (texts : List String) (originals : Finset String) :
    texts.foldl (fun set s => insert s set) originals = originals ∪ texts.toFinset := by
  induction texts generalizing originals with
  | nil => exact (Finset.union_empty originals).symm
  | cons s texts ih =>
    rw [List.foldl_cons, ih, List.toFinset_cons]
    ext t
    simp only [Finset.mem_union, Finset.mem_insert]
    tauto

theorem groupBytes_length (g : TextGroup) : (groupBytes g).length = 12 + (g.2.flatMap textBytes).length := by
  rw [groupBytes, List.length_append, List.length_append, leBytes_length, leBytes_length]
  omega

theorem readGroups_spec (hsize : bytes.length ≤ isizeMax) (hhashes : ∀ g ∈ groups, g.1 < 2 ^ 32)
    (h : At bytes offset (groups.flatMap groupBytes ++ rest)) :
    readGroups bytes groups.length offset map = .ok (groups.foldl (fun map g => map.insert g.1 g.2.toFinset) map) := by
  induction groups generalizing offset map with
  | nil => rfl
  | cons g groups ih =>
    have hmax := hsize
    unfold isizeMax at hmax
    rw [List.flatMap_cons, List.append_assoc, groupBytes, List.append_assoc, List.append_assoc] at h
    have hcount := h.advance (leBytes_length 4 g.1)
    have htexts := hcount.advance (leBytes_length 8 g.2.length)
    have hnext := htexts.advance rfl
    have hfits := hcount.fits (leBytes_length 8 g.2.length)
    have hfits' := htexts.fits rfl
    have hlength : g.2.length ≤ (g.2.flatMap textBytes).length :=
      length_le_flatMap (fun s => by rw [textBytes_length]; omega) g.2
    have hhash := hhashes g List.mem_cons_self
    rw [List.length_cons, readGroups, addOffset_ok (by omega)]
    show (if offset + 12 > bytes.length then _ else _) = _
    rw [if_neg (by omega), readLe_leBytes hsize h (by omega)]
    show (addOffset offset 4 >>= fun _ => _) = _
    rw [addOffset_ok (by omega)]
    show (readLe bytes 8 (offset + 4) >>= fun _ => _) = _
    rw [readLe_leBytes hsize hcount (by omega)]
    show (addOffset (offset + 4) 8 >>= fun _ => _) = _
    rw [addOffset_ok (by omega)]
    show (readOriginals bytes g.2.length (offset + 4 + 8) ∅ >>= fun _ => _) = _
    rw [readOriginals_spec hsize htexts, foldl_insert_eq, Finset.empty_union]
    exact ih (fun g' hg' => hhashes g' (List.mem_cons_of_mem g hg')) hnext

structure MappingStored (bytes : Bytes) (offset : Nat) (groups : List TextGroup) : Prop where
  hashes : ∀ g ∈ groups, g.1 < 2 ^ 32
  stored : ∃ rest, At bytes offset (mappingBytes groups ++ rest)

def mapOf (groups : List TextGroup) : Dict Nat (Finset String) :=
  groups.foldl (fun map g => map.insert g.1 g.2.toFinset) ∅

theorem readMapping_spec (hsize : bytes.length ≤ isizeMax) (h : MappingStored bytes offset groups) :
    readMapping bytes offset = .ok (mapOf groups) := by
  obtain ⟨rest, h'⟩ := h.stored
  have hmax := hsize
  unfold isizeMax at hmax
  rw [mappingBytes, List.append_assoc] at h'
  have hgroups := h'.advance (leBytes_length 8 groups.length)
  have hfits := h'.fits (leBytes_length 8 groups.length)
  have hfits' := hgroups.fits rfl
  have hlength : groups.length ≤ (groups.flatMap groupBytes).length :=
    length_le_flatMap (fun g => by rw [groupBytes_length]; omega) groups
  rw [readMapping, addOffset_ok (by omega)]
  show (if offset + 8 ≤ bytes.length then _ else _) = _
  rw [if_pos (by omega), readLe_leBytes hsize h' (by omega)]
  exact readGroups_spec hsize h.hashes hgroups

/-! ### The header -/

def bitmapLen (bytes : Bytes) : Nat := ofLeBytes (bytes.take 8)

/-- Where the second bitmap starts with its length. -/
def integersStart (bytes : Bytes) : Nat := 8 + bitmapLen bytes + 1

def integersLen (bytes : Bytes) : Nat := ofLeBytes ((bytes.drop (integersStart bytes)).take 8)

def mappingStart (bytes : Bytes) : Nat := integersStart bytes + 8 + integersLen bytes

section Header
variable {codec : RoaringCodec} {valueHash : Nat} {bitmap integers : Finset Nat}

theorem fromBytes_short (h : bytes.length < 8) : fromBytes codec valueHash bytes = .ok none := if_pos h

theorem readLe_start (hsize : bytes.length ≤ isizeMax) (h : 8 ≤ bytes.length) :
    readLe bytes 8 0 = .ok (bitmapLen bytes) := by
  rw [readLe_ok hsize (by omega), List.drop_zero]
  rfl

theorem fromBytes_overflow (hsize : bytes.length ≤ isizeMax) (h : 8 ≤ bytes.length)
    (hlen : 2 ^ 64 ≤ integersStart bytes) : fromBytes codec valueHash bytes = .error .overflow := by
  unfold integersStart at hlen
  rw [fromBytes, if_neg (by omega), readLe_start hsize h]
  show (addOffset 8 (bitmapLen bytes) >>= fun _ => _) = _
  by_cases hfirst : 8 + bitmapLen bytes < 2 ^ 64
  · rw [addOffset_ok hfirst]
    show (addOffset (8 + bitmapLen bytes) 1 >>= fun _ => _) = _
    rw [addOffset, if_neg (by omega)]
    rfl
  · rw [addOffset, if_neg hfirst]
    rfl

theorem fromBytes_eq (hsize : bytes.length ≤ isizeMax) (h : 8 ≤ bytes.length) (hlen : integersStart bytes < 2 ^ 64) :
    fromBytes codec valueHash bytes =
      if bytes.length < integersStart bytes then .ok none
      else
        (codec.decode ((bytes.drop 8).take (bitmapLen bytes))).elim (.ok none) fun bitmap =>
          readIntegers codec valueHash bytes (integersStart bytes) bitmap
            (ofLeBytes ((bytes.drop (8 + bitmapLen bytes)).take 1) == 1) := by
  unfold integersStart at hlen
  rw [fromBytes, if_neg (by omega), readLe_start hsize h]
  show (addOffset 8 (bitmapLen bytes) >>= fun _ => _) = _
  rw [addOffset_ok (by omega)]
  show (addOffset (8 + bitmapLen bytes) 1 >>= fun _ => _) = _
  rw [addOffset_ok (by omega)]
  show (if bytes.length < integersStart bytes then _ else _) = _
  by_cases hshort : bytes.length < integersStart bytes
  · rw [if_pos hshort, if_pos hshort]
  · have hlong := hshort
    unfold integersStart at hlong
    have hslice : sliceBytes bytes 8 (8 + bitmapLen bytes) = _ := sliceBytes_ok (Nat.le_add_right _ _) (by omega)
    rw [Nat.add_sub_cancel_left] at hslice
    rw [if_neg hshort, if_neg hshort, hslice]
    rw [readLe_ok hsize (by omega)]
    cases hdecode : codec.decode ((bytes.drop 8).take (bitmapLen bytes)) with
    | none =>
      dsimp only [Bind.bind, Except.bind]
      rw [hdecode]
      rfl
    | some bitmap =>
      dsimp only [Bind.bind, Except.bind]
      rw [hdecode]
      rfl

theorem readIntegers_short {flag : Bool} (hsize : bytes.length ≤ isizeMax)
    (hstart : integersStart bytes ≤ bytes.length) (h : bytes.length < integersStart bytes + 8) :
    readIntegers codec valueHash bytes (integersStart bytes) bitmap flag = .ok none := by
  rw [readIntegers, addOffset_small hsize hstart (by decide)]
  exact if_pos h

theorem readIntegers_overflow {flag : Bool} (hsize : bytes.length ≤ isizeMax)
    (h : integersStart bytes + 8 ≤ bytes.length) (hlen : 2 ^ 64 ≤ mappingStart bytes) :
    readIntegers codec valueHash bytes (integersStart bytes) bitmap flag = .error .overflow := by
  unfold mappingStart at hlen
  rw [readIntegers, addOffset_small hsize (by omega) (by decide)]
  show (if integersStart bytes + 8 > bytes.length then _ else _) = _
  rw [if_neg (by omega), readLe_ok hsize h]
  show (addOffset (integersStart bytes + 8) (integersLen bytes) >>= fun _ => _) = _
  rw [addOffset, if_neg (by omega)]
  rfl

theorem readIntegers_eq {flag : Bool} (hsize : bytes.length ≤ isizeMax) (h : integersStart bytes + 8 ≤ bytes.length)
    (hlen : mappingStart bytes < 2 ^ 64) :
    readIntegers codec valueHash bytes (integersStart bytes) bitmap flag =
      if bytes.length < mappingStart bytes then .ok none
      else
        (codec.decode ((bytes.drop (integersStart bytes + 8)).take (integersLen bytes))).elim (.ok none) fun integers =>
          readMapping bytes (mappingStart bytes) >>= fun map =>
            .ok (some ⟨valueHash, bitmap, map, flag, integers⟩) := by
  unfold mappingStart at hlen
  rw [readIntegers, addOffset_small hsize (by omega) (by decide)]
  show (if integersStart bytes + 8 > bytes.length then _ else _) = _
  rw [if_neg (by omega), readLe_ok hsize h]
  show (addOffset (integersStart bytes + 8) (integersLen bytes) >>= fun _ => _) = _
  rw [addOffset_ok hlen]
  show (if bytes.length < mappingStart bytes then _ else _) = _
  by_cases hshort : bytes.length < mappingStart bytes
  · rw [if_pos hshort, if_pos hshort]
  · have hlong := hshort
    unfold mappingStart at hlong
    have hslice : sliceBytes bytes (integersStart bytes + 8) (integersStart bytes + 8 + integersLen bytes) = _ :=
      sliceBytes_ok (Nat.le_add_right _ _) (by omega)
    rw [Nat.add_sub_cancel_left] at hslice
    rw [if_neg hshort, if_neg hshort, hslice]
    dsimp only [Bind.bind, Except.bind]
    cases codec.decode ((bytes.drop (integersStart bytes + 8)).take (integersLen bytes)) with
    | none => rfl
    | some integers => rfl

end Header

end Reiver.Pond
