import Mathlib.Data.Finset.Sort
import Reiver.Pond.WalIndex.EntryBytes

/-! # Entries survive their storage

An entry that additions, removals and merges lead to is read back as it was written. Of other bytes an entry is read
safely exactly if their lengths stay in 64 bits where they are reached, and the map stands there whole. -/

namespace Reiver.Pond

variable {bytes : Bytes} {groups : List TextGroup} {codec : RoaringCodec} {valueHash : Nat}

/-! ### Maps that stand whole -/

def Complete (groups : List TextGroup) (map : Dict Nat (Finset String)) : Prop :=
  ∀ g ∈ groups, ∀ text ∈ g.2, ∃ texts, map.lookup g.1 = some texts ∧ text ∈ texts

/-- The last group of a hash has the texts of all its groups. -/
def NothingReplaced (groups : List TextGroup) : Prop :=
  ∀ g ∈ groups, ∀ last, (groups.filter (·.1 = g.1)).getLast? = some last → ∀ text ∈ g.2, text ∈ last.2

theorem lookup_mapOf (groups : List TextGroup) (hash : Nat) :
    (mapOf groups).lookup hash = ((groups.filter (·.1 = hash)).getLast?).map fun g => g.2.toFinset := by
  induction groups using List.reverseRecOn with
  | nil => rfl
  | append_singleton groups g ih =>
    rw [mapOf, List.foldl_concat, Dict.lookup_insert', List.filter_append]
    by_cases hash_eq : g.1 = hash
    · rw [if_pos hash_eq.symm, List.filter_cons_of_pos (by simpa using hash_eq), List.filter_nil, List.getLast?_concat]
      rfl
    · rw [if_neg (Ne.symm hash_eq), List.filter_cons_of_neg (by simpa using hash_eq), List.filter_nil, List.append_nil]
      exact ih

theorem complete_mapOf_iff : Complete groups (mapOf groups) ↔ NothingReplaced groups := by
  refine forall₂_congr fun g hg => ?_
  have hmem : g ∈ groups.filter (·.1 = g.1) := List.mem_filter.mpr ⟨hg, by simp⟩
  have hlast := List.getLast?_eq_some_getLast (List.ne_nil_of_mem hmem)
  simp only [lookup_mapOf, hlast, Option.map_some, Option.some_inj, exists_eq_left', List.mem_toFinset, forall_eq']

/-! ### Safe reading -/

/-- Nothing is read, or an entry with the whole map that stands in the bytes. -/
def SafelyDecoded (codec : RoaringCodec) (valueHash : Nat) (bytes : Bytes) : Prop :=
  fromBytes codec valueHash bytes = .ok none ∨ ∃ d, fromBytes codec valueHash bytes = .ok (some d) ∧
    ∃ groups, MappingStored bytes (mappingStart bytes) groups ∧ Complete groups d.pkHashToOriginal

/-- The bytes of the first bitmap and those of the second. -/
def bitmapBytes (bytes : Bytes) : Bytes := (bytes.drop 8).take (bitmapLen bytes)

def integersBytes (bytes : Bytes) : Bytes := (bytes.drop (integersStart bytes + 8)).take (integersLen bytes)

/-- Each length that is reached leads to an offset of 64 bits, and after two bitmaps that can be read the map stands
    whole, with no text in a group that a later one replaces. -/
def Decodable (codec : RoaringCodec) (bytes : Bytes) : Prop :=
  8 ≤ bytes.length → integersStart bytes < 2 ^ 64 ∧
    (integersStart bytes + 8 ≤ bytes.length → (codec.decode (bitmapBytes bytes)).isSome →
      mappingStart bytes < 2 ^ 64 ∧
        (mappingStart bytes ≤ bytes.length → (codec.decode (integersBytes bytes)).isSome →
          ∃ groups, MappingStored bytes (mappingStart bytes) groups ∧ NothingReplaced groups))

theorem not_safelyDecoded_error {e : DecodePanic} (h : fromBytes codec valueHash bytes = .error e) :
    ¬ SafelyDecoded codec valueHash bytes := by
  rintro (hnone | ⟨d, hsome, -⟩)
  · rw [h] at hnone
    cases hnone
  · rw [h] at hsome
    cases hsome

theorem safelyDecoded_mapping {bitmap integers : Finset Nat} {flag : Bool} (hsize : bytes.length ≤ isizeMax)
    (h : fromBytes codec valueHash bytes =
      readMapping bytes (mappingStart bytes) >>= fun map => .ok (some ⟨valueHash, bitmap, map, flag, integers⟩)) :
    SafelyDecoded codec valueHash bytes ↔
      ∃ groups, MappingStored bytes (mappingStart bytes) groups ∧ NothingReplaced groups := by
  constructor
  · rintro (hnone | ⟨d, hsome, groups, hstored, hcomplete⟩)
    · rw [h] at hnone
      obtain ⟨map, -, hmap⟩ := bind_ok hnone
      cases hmap
    · rw [h, readMapping_spec hsize hstored] at hsome
      cases hsome
      exact ⟨groups, hstored, complete_mapOf_iff.mp hcomplete⟩
  · rintro ⟨groups, hstored, hreplaced⟩
    rw [readMapping_spec hsize hstored] at h
    exact .inr ⟨_, h, groups, hstored, complete_mapOf_iff.mpr hreplaced⟩

theorem safelyDecoded_iff (hsize : bytes.length ≤ isizeMax) :
    SafelyDecoded codec valueHash bytes ↔ Decodable codec bytes := by
  by_cases hlong : 8 ≤ bytes.length
  swap
  · exact iff_of_true (.inl (fromBytes_short (by omega))) fun h => absurd h hlong
  by_cases hstart : integersStart bytes < 2 ^ 64
  swap
  · exact iff_of_false (not_safelyDecoded_error (fromBytes_overflow hsize hlong (by omega))) fun h => hstart (h hlong).1
  have hread := @fromBytes_eq _ codec valueHash hsize hlong hstart
  by_cases hfits : integersStart bytes + 8 ≤ bytes.length
  swap
  · refine iff_of_true (.inl ?_) fun _ => ⟨hstart, fun h => absurd h hfits⟩
    rw [hread]
    split
    · rfl
    · next hlen =>
      cases codec.decode ((bytes.drop 8).take (bitmapLen bytes)) with
      | none => rfl
      | some bitmap => exact readIntegers_short hsize (by omega) (by omega)
  rw [if_neg (by omega)] at hread
  cases hbitmap : codec.decode (bitmapBytes bytes) with
  | none =>
    rw [← bitmapBytes, hbitmap] at hread
    refine iff_of_true (.inl hread) fun _ => ⟨hstart, fun _ h => ?_⟩
    rw [hbitmap] at h
    cases h
  | some bitmap =>
    rw [← bitmapBytes, hbitmap, Option.elim_some] at hread
    have hdecodable : Decodable codec bytes ↔ mappingStart bytes < 2 ^ 64 ∧
        (mappingStart bytes ≤ bytes.length → (codec.decode (integersBytes bytes)).isSome →
          ∃ groups, MappingStored bytes (mappingStart bytes) groups ∧ NothingReplaced groups) := by
      simp only [Decodable, hlong, hstart, hfits, hbitmap, Option.isSome_some, true_implies, true_and]
    rw [hdecodable]
    by_cases hmapping : mappingStart bytes < 2 ^ 64
    swap
    · rw [readIntegers_overflow hsize hfits (by omega)] at hread
      exact iff_of_false (not_safelyDecoded_error hread) fun h => hmapping h.1
    rw [readIntegers_eq hsize hfits hmapping] at hread
    by_cases hwhole : mappingStart bytes ≤ bytes.length
    swap
    · rw [if_pos (by omega)] at hread
      exact iff_of_true (.inl hread) ⟨hmapping, fun h => absurd h hwhole⟩
    rw [if_neg (by omega), ← integersBytes] at hread
    cases hintegers : codec.decode (integersBytes bytes) with
    | none =>
      rw [hintegers] at hread
      refine iff_of_true (.inl hread) ⟨hmapping, fun _ h => ?_⟩
      cases h
    | some integers =>
      rw [hintegers] at hread
      rw [safelyDecoded_mapping hsize hread]
      simp only [hmapping, hwhole, Option.isSome_some, true_implies, true_and]

/-! ### Entries that are reached -/

section Reached
variable {hashes : WalHashes} {entry : InvertedIndexEntry} {index other : InvertedIndex}

/-- An entry that additions and removals of keys and merges lead to. -/
inductive Reached (hashes : WalHashes) : InvertedIndexEntry → Prop
  | new (valueHash : Nat) : Reached hashes (.new valueHash)
  | addPk {entry : InvertedIndexEntry} (h : Reached hashes entry) (pk : PrimaryKey) :
      Reached hashes (entry.addPk hashes pk)
  | removePk {entry : InvertedIndexEntry} (h : Reached hashes entry) (pk : PrimaryKey) :
      Reached hashes (entry.removePk hashes pk)
  | absorb {existing entry : InvertedIndexEntry} (h : Reached hashes existing) (h' : Reached hashes entry) :
      Reached hashes (existing.absorb entry)

/-- The bitmaps and the hashes of an entry are of 32 bits, and each text stands under its hash once. -/
structure Storable (entry : InvertedIndexEntry) : Prop where
  bitmap : ∀ n ∈ entry.pkBitmap, n < 2 ^ 32
  integers : ∀ n ∈ entry.integerPks, n < 2 ^ 32
  hashes : ∀ p ∈ entry.pkHashToOriginal, p.1 < 2 ^ 32
  nodup : entry.pkHashToOriginal.Nodup

theorem asU32_lt {pk : PrimaryKey} {n : Nat} (h : pk.asU32 = some n) : n < 2 ^ 32 := by
  cases pk with
  | int64 v =>
    rw [PrimaryKey.asU32] at h
    split at h
    · next hrange =>
      cases h
      omega
    · cases h
  | string s => cases h
  | composite parts => cases h

theorem pkToU32Hash_lt (pk : PrimaryKey) : InvertedIndexEntry.pkToU32Hash hashes pk < 2 ^ 32 :=
  (Nat.mod_lt _ (by decide)).trans (by decide)

theorem pkId_lt (pk : PrimaryKey) : pkId hashes pk < 2 ^ 32 := by
  cases hpk : pk.asU32 with
  | some n => exact pkId_of_some hpk ▸ asU32_lt hpk
  | none => exact pkId_of_none hpk ▸ pkToU32Hash_lt pk

namespace Storable

theorem new (valueHash : Nat) : Storable (.new valueHash) where
  bitmap _ h := absurd h (Finset.notMem_empty _)
  integers _ h := absurd h (Finset.notMem_empty _)
  hashes _ h := absurd h List.not_mem_nil
  nodup := List.nodup_nil

theorem addPk (h : Storable entry) (pk : PrimaryKey) : Storable (entry.addPk hashes pk) where
  bitmap n hn := by
    rcases mem_pkBitmap_addPk.mp hn with hold | rfl
    · exact h.bitmap n hold
    · exact pkId_lt pk
  integers n hn := by
    rcases mem_integerPks_addPk.mp hn with hold | hpk
    · exact h.integers n hold
    · exact asU32_lt hpk
  hashes p hp := by
    obtain ⟨hash, text⟩ := p
    rcases mem_texts_addPk.mp hp with hold | ⟨-, rfl, -⟩
    · exact h.hashes _ hold
    · exact pkId_lt pk
  nodup := by
    cases hpk : pk.asU32 with
    | some n =>
      rw [addPk_of_some hpk]
      exact h.nodup
    | none =>
      rw [addPk_of_none hpk]
      exact h.nodup.insert

theorem erase (h : Storable entry) (n : Nat) (p : Nat × String) : Storable
    { entry with pkBitmap := entry.pkBitmap.erase n, pkHashToOriginal := entry.pkHashToOriginal.erase p } where
  bitmap m hm := h.bitmap m (Finset.mem_of_mem_erase hm)
  integers := h.integers
  hashes q hq := h.hashes q (List.mem_of_mem_erase hq)
  nodup := h.nodup.erase p

theorem removePk (h : Storable entry) (pk : PrimaryKey) : Storable (entry.removePk hashes pk) := by
  rw [InvertedIndexEntry.removePk]
  cases pk.asU32 with
  | some n =>
    exact ⟨fun m hm => h.bitmap m (Finset.mem_of_mem_erase hm), fun m hm => h.integers m (Finset.mem_of_mem_erase hm),
      h.hashes, h.nodup⟩
  | none =>
    dsimp only
    split
    · have herase := h.erase (InvertedIndexEntry.pkToU32Hash hashes pk)
        (InvertedIndexEntry.pkToU32Hash hashes pk, pk.toStringRepr)
      refine ⟨?_, h.integers, herase.hashes, herase.nodup⟩
      dsimp only
      split
      · exact h.bitmap
      · exact herase.bitmap
    · exact h

theorem absorb {existing : InvertedIndexEntry} (h : Storable existing) (h' : Storable entry) :
    Storable (existing.absorb entry) := by
  have hbitmap : ∀ n ∈ existing.pkBitmap ∪ entry.pkBitmap, n < 2 ^ 32 := fun n hn =>
    (Finset.mem_union.mp hn).elim (h.bitmap n) (h'.bitmap n)
  have hintegers : ∀ n ∈ existing.integerPks ∪ entry.integerPks, n < 2 ^ 32 := fun n hn =>
    (Finset.mem_union.mp hn).elim (h.integers n) (h'.integers n)
  rw [InvertedIndexEntry.absorb]
  dsimp only
  split
  · exact ⟨hbitmap, hintegers, fun p hp => (List.mem_union_iff.mp hp).elim (h'.hashes p) (h.hashes p), h.nodup.union _⟩
  · exact ⟨hbitmap, hintegers, h.hashes, h.nodup⟩

end Storable

theorem Reached.storable (h : Reached hashes entry) : Storable entry := by
  induction h with
  | new valueHash => exact .new valueHash
  | addPk _ pk ih => exact ih.addPk pk
  | removePk _ pk ih => exact ih.removePk pk
  | absorb _ _ ih ih' => exact ih.absorb ih'

end Reached

/-! ### Round trips -/

section RoundTrip
variable {entry : InvertedIndexEntry}

/-- What was read is the entry that was written; a hash stands in its map with a text at least. -/
structure ReadBack (entry : InvertedIndexEntry) (d : DecodedEntry) : Prop where
  valueHash : d.valueHash = entry.valueHash
  bitmap : d.pkBitmap = entry.pkBitmap
  integers : d.integerPks = entry.integerPks
  flag : d.hasStringPks = entry.hasStringPks
  texts : ∀ hash text, (hash, text) ∈ entry.pkHashToOriginal ↔
    ∃ texts, d.pkHashToOriginal.lookup hash = some texts ∧ text ∈ texts
  nonempty : ∀ hash texts, d.pkHashToOriginal.lookup hash = some texts → texts.Nonempty

theorem lookup_mapOf_nodup (hnodup : (groups.map Prod.fst).Nodup) {hash : Nat} {texts : Finset String} :
    (mapOf groups).lookup hash = some texts ↔ ∃ g ∈ groups, g.1 = hash ∧ g.2.toFinset = texts := by
  rw [lookup_mapOf, Option.map_eq_some_iff]
  constructor
  · rintro ⟨g, hlast, rfl⟩
    obtain ⟨hg, hhash⟩ := List.mem_filter.mp (List.mem_of_getLast? hlast)
    exact ⟨g, hg, by simpa using hhash, rfl⟩
  · rintro ⟨g, hg, rfl, rfl⟩
    have hmem : g ∈ groups.filter (·.1 = g.1) := List.mem_filter.mpr ⟨hg, by simp⟩
    have hlast := List.getLast?_eq_some_getLast (List.ne_nil_of_mem hmem)
    refine ⟨_, hlast, ?_⟩
    obtain ⟨hlastMem, hlastHash⟩ := List.mem_filter.mp (List.getLast_mem (List.ne_nil_of_mem hmem))
    rw [List.inj_on_of_nodup_map hnodup hlastMem hg (by simpa using hlastHash)]

theorem mapOf_readBack (h : entry.Enumerates groups) :
    (∀ hash text, (hash, text) ∈ entry.pkHashToOriginal ↔
      ∃ texts, (mapOf groups).lookup hash = some texts ∧ text ∈ texts) ∧
    ∀ hash texts, (mapOf groups).lookup hash = some texts → texts.Nonempty := by
  simp only [lookup_mapOf_nodup h.hashes_nodup, h.mem_iff]
  refine ⟨fun hash text => ⟨?_, ?_⟩, ?_⟩
  · rintro ⟨g, hg, hhash, htext⟩
    exact ⟨_, ⟨g, hg, hhash, rfl⟩, List.mem_toFinset.mpr htext⟩
  · rintro ⟨_, ⟨g, hg, hhash, rfl⟩, htext⟩
    exact ⟨g, hg, hhash, List.mem_toFinset.mp htext⟩
  · rintro hash texts ⟨g, hg, -, rfl⟩
    obtain ⟨text, htext⟩ := List.exists_mem_of_ne_nil _ (h.nonempty g hg)
    exact ⟨text, List.mem_toFinset.mpr htext⟩

structure WrittenEntry (codec : RoaringCodec) (entry : InvertedIndexEntry) (groups : List TextGroup) (bytes : Bytes) :
    Prop where
  bitmap : bitmapBytes bytes = codec.encode entry.pkBitmap
  flag : (bytes.drop (8 + bitmapLen bytes)).take 1 = [if entry.hasStringPks then 1 else 0]
  integers : integersBytes bytes = codec.encode entry.integerPks
  fits : integersStart bytes + 8 ≤ mappingStart bytes ∧ mappingStart bytes ≤ bytes.length
  mapping : At bytes (mappingStart bytes) (mappingBytes groups)

theorem written_toBytes (hsize : (entry.toBytes codec groups).length ≤ isizeMax) :
    WrittenEntry codec entry groups (entry.toBytes codec groups) := by
  have hmax := hsize
  unfold isizeMax at hmax
  generalize hbytes : entry.toBytes codec groups = bytes at hsize hmax
  have hstart : At bytes 0 (entry.toBytes codec groups) := hbytes ▸ At.start bytes
  have hbitmap := hstart.advance (leBytes_length 8 _)
  have hflag := hbitmap.advance rfl
  have hintegersLen := @At.advance _ [_] _ _ 1 hflag rfl
  have hintegers := hintegersLen.advance (leBytes_length 8 _)
  have hmapping := hintegers.advance rfl
  have hfits := hbitmap.fits rfl
  have hfits' := hintegers.fits rfl
  rw [Nat.zero_add] at *
  have hlen : bitmapLen bytes = (codec.encode entry.pkBitmap).length := by
    have htake := hstart.take (leBytes_length 8 _)
    rw [List.drop_zero] at htake
    rw [bitmapLen, htake, ofLeBytes_leBytes, Nat.mod_eq_of_lt (by omega)]
  have hstart' : integersStart bytes = 8 + (codec.encode entry.pkBitmap).length + 1 := by rw [integersStart, hlen]
  have hlen' : integersLen bytes = (codec.encode entry.integerPks).length := by
    rw [integersLen, hstart', hintegersLen.take (leBytes_length 8 _), ofLeBytes_leBytes, Nat.mod_eq_of_lt (by omega)]
  have hmappingStart : mappingStart bytes =
      8 + (codec.encode entry.pkBitmap).length + 1 + 8 + (codec.encode entry.integerPks).length := by
    rw [mappingStart, hstart', hlen']
  refine ⟨?_, ?_, ?_, ⟨by omega, hmappingStart ▸ hmapping.le⟩, hmappingStart ▸ hmapping⟩
  · rw [bitmapBytes, hlen, hbitmap.take rfl]
  · rw [hlen]
    exact @At.take _ [_] _ _ _ hflag rfl
  · rw [integersBytes, hstart', hlen', hintegers.take rfl]

theorem fromBytes_toBytes (hstorable : Storable entry) (h : entry.Enumerates groups)
    (hsize : (entry.toBytes codec groups).length ≤ isizeMax) :
    ∃ d, fromBytes codec entry.valueHash (entry.toBytes codec groups) = .ok (some d) ∧ ReadBack entry d := by
  have hwritten := written_toBytes hsize
  generalize entry.toBytes codec groups = bytes at hsize hwritten
  obtain ⟨hfits, hfits'⟩ := hwritten.fits
  have hstart : integersStart bytes = 8 + bitmapLen bytes + 1 := rfl
  have hmax := hsize
  unfold isizeMax at hmax
  have hhashes : ∀ g ∈ groups, g.1 < 2 ^ 32 := by
    intro g hg
    obtain ⟨text, htext⟩ := List.exists_mem_of_ne_nil _ (h.nonempty g hg)
    exact hstorable.hashes (g.1, text) ((h.mem_iff g.1 text).mpr ⟨g, hg, rfl, htext⟩)
  have hstored : MappingStored bytes (mappingStart bytes) groups :=
    ⟨hhashes, [], by rw [List.append_nil]; exact hwritten.mapping⟩
  have hread := @fromBytes_eq _ codec entry.valueHash hsize (by omega) (by omega)
  rw [if_neg (by omega), ← bitmapBytes, hwritten.bitmap, codec.decode_encode _ hstorable.bitmap, Option.elim_some,
    readIntegers_eq hsize (by omega) (by omega), if_neg (by omega), ← integersBytes, hwritten.integers,
    codec.decode_encode _ hstorable.integers, Option.elim_some, readMapping_spec hsize hstored, hwritten.flag] at hread
  obtain ⟨htexts, hnonempty⟩ := mapOf_readBack h
  refine ⟨_, hread, rfl, rfl, rfl, ?_, htexts, hnonempty⟩
  cases entry.hasStringPks with
  | true => rfl
  | false => rfl

theorem exists_enumerates (entry : InvertedIndexEntry) : ∃ groups, entry.Enumerates groups := by
  let texts (hash : Nat) := ((entry.pkHashToOriginal.filter (·.1 = hash)).map Prod.snd).dedup
  have htexts : ∀ hash text, text ∈ texts hash ↔ (hash, text) ∈ entry.pkHashToOriginal := by
    intro hash text
    simp only [texts, List.mem_dedup, List.mem_map, List.mem_filter, decide_eq_true_eq]
    constructor
    · rintro ⟨p, ⟨hp, rfl⟩, rfl⟩
      exact hp
    · exact fun hp => ⟨_, ⟨hp, rfl⟩, rfl⟩
  have hhashes : ∀ hash, hash ∈ (entry.pkHashToOriginal.map Prod.fst).dedup ↔
      ∃ text, (hash, text) ∈ entry.pkHashToOriginal := by
    intro hash
    rw [List.mem_dedup, List.mem_map]
    constructor
    · rintro ⟨⟨hash, text⟩, hp, rfl⟩
      exact ⟨text, hp⟩
    · rintro ⟨text, hp⟩
      exact ⟨_, hp, rfl⟩
  refine ⟨(entry.pkHashToOriginal.map Prod.fst).dedup.map fun hash => (hash, texts hash), ?_, ?_, ?_, ?_⟩
  · rw [List.map_map]
    exact (List.nodup_dedup _).map fun _ _ h => h
  · intro g hg
    obtain ⟨hash, -, rfl⟩ := List.mem_map.mp hg
    exact List.nodup_dedup _
  · intro g hg
    obtain ⟨hash, hhash, rfl⟩ := List.mem_map.mp hg
    obtain ⟨text, htext⟩ := (hhashes hash).mp hhash
    exact List.ne_nil_of_mem ((htexts hash text).mpr htext)
  · intro hash text
    constructor
    · intro hp
      exact ⟨_, List.mem_map_of_mem ((hhashes hash).mpr ⟨text, hp⟩), rfl, (htexts hash text).mpr hp⟩
    · rintro ⟨g, hg, rfl, htext⟩
      obtain ⟨hash, -, rfl⟩ := List.mem_map.mp hg
      exact (htexts hash text).mp htext

end RoundTrip

/-- Entries that are reached are read back as they were written. Other bytes are read safely exactly if the lengths
    that are reached stay in 64 bits and the map stands whole after bitmaps that can be read. -/
theorem entriesStored_iff (codec : RoaringCodec) :
    (∀ hashes entry, Reached hashes entry → (∃ groups, entry.Enumerates groups) ∧
      ∀ groups, entry.Enumerates groups → (entry.toBytes codec groups).length ≤ isizeMax →
        ∃ d, fromBytes codec entry.valueHash (entry.toBytes codec groups) = .ok (some d) ∧ ReadBack entry d) ∧
    ∀ valueHash bytes, bytes.length ≤ isizeMax → (SafelyDecoded codec valueHash bytes ↔ Decodable codec bytes) := by
  refine ⟨fun hashes entry h => ⟨exists_enumerates entry, fun groups hgroups hsize => ?_⟩,
    fun valueHash bytes hsize => ?_⟩
  · exact fromBytes_toBytes h.storable hgroups hsize
  · exact safelyDecoded_iff hsize

/-! ### Bytes that are not read safely -/

def readU32s : Bytes → List Nat
  | a :: b :: c :: d :: rest => ofLeBytes [a, b, c, d] :: readU32s rest
  | _ => []

theorem readU32s_flatMap {l : List Nat} (h : ∀ n ∈ l, n < 2 ^ 32) : readU32s (l.flatMap (leBytes 4)) = l := by
  induction l with
  | nil => rfl
  | cons n l ih =>
    have hread :
      readU32s ((n :: l).flatMap (leBytes 4)) = ofLeBytes (leBytes 4 n) :: readU32s (l.flatMap (leBytes 4)) :=
      rfl
    have hn : n < 256 ^ 4 := h n List.mem_cons_self
    rw [hread, ofLeBytes_leBytes, Nat.mod_eq_of_lt hn, ih fun m hm => h m (List.mem_cons_of_mem n hm)]

def bitmapCookie : Bytes := [58, 48, 0, 0]

/-- Bitmaps as their numbers in order, after the start of all bitmaps and their count. -/
def sortedCodec : RoaringCodec where
  encode s := bitmapCookie ++ (leBytes 4 s.card ++ (s.sort (· ≤ ·)).flatMap (leBytes 4))
  decode bytes := if bytes.take 4 = bitmapCookie then some (readU32s (bytes.drop 8)).toFinset else none
  decode_encode s h := by
    have htake : (bitmapCookie ++ (leBytes 4 s.card ++ (s.sort (· ≤ ·)).flatMap (leBytes 4))).take 4 = bitmapCookie :=
      rfl
    have hdrop : (bitmapCookie ++ (leBytes 4 s.card ++ (s.sort (· ≤ ·)).flatMap (leBytes 4))).drop 8 =
        (s.sort (· ≤ ·)).flatMap (leBytes 4) := rfl
    have hread := readU32s_flatMap (l := s.sort (· ≤ ·)) fun n hn => h n ((Finset.mem_sort _).mp hn)
    rw [if_pos htake, hdrop, hread, Finset.sort_toFinset]

/-- A length of the first bitmap that no offset can be added to, and an entry that ends before its map. -/
def overlongBytes : Bytes := List.replicate 8 255

def cutBytes : Bytes := leBytes 8 8 ++ bitmapCookie ++ leBytes 4 0 ++ [0] ++ leBytes 8 8 ++ bitmapCookie ++ leBytes 4 0

theorem not_safelyDecoded : ¬ SafelyDecoded sortedCodec 7 overlongBytes ∧ ¬ SafelyDecoded sortedCodec 7 cutBytes := by
  constructor
  · rw [safelyDecoded_iff (by decide)]
    exact fun h => absurd (h (by decide)).1 (by decide)
  · rw [safelyDecoded_iff (by decide)]
    intro h
    obtain ⟨groups, hstored, -⟩ := ((h (by decide)).2 (by decide) (by decide)).2 (by decide) (by decide)
    obtain ⟨rest, hmapping⟩ := hstored.stored
    rw [mappingBytes, List.append_assoc] at hmapping
    exact absurd (hmapping.fits (leBytes_length 8 groups.length)) (by decide)

end Reiver.Pond
