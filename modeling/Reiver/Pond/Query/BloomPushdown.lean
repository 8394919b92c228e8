import Reiver.Lib.Bytes
import Reiver.Pond.Query.SemiJoin

/-! # Bloom filters as bytes

The model of the filter in `query/bloom_pushdown.rs` on its byte array, with its transmission. A filter that is made has
as many bytes as its bits need and so does one that is received, so no index falls out of the array. -/

namespace Reiver.Pond.BloomPushdown

structure BloomFilter where
  bits : Bytes
  numHashes : Nat
  numBits : Nat
  -- Counted in a `usize`.
  numItems : UInt64
deriving DecidableEq

/-- The floating-point estimates of the sizes, for a number of items and a false positive rate. -/
structure Sizing (R : Type) where
  numBits : Nat → R → Nat
  numHashes : Nat → Nat → Nat

namespace BloomFilter

def new {R : Type} (sizing : Sizing R) (expectedItems : Nat) (falsePositiveRate : R) : BloomFilter :=
  let expectedItems := max expectedItems 1
  let numBits := min (max (sizing.numBits expectedItems falsePositiveRate) minBloomBits) maxBloomBits
  let numHashes := min (max (sizing.numHashes numBits expectedItems) 1) maxHashFunctions
  { bits := List.replicate ((numBits + 7) / 8) 0, numHashes, numBits, numItems := 0 }

section Hashed
variable {T : Type} (h1 h2 : T → UInt64)

/-- The place of a value by one of the hash functions, in wrapping arithmetic. -/
def bitIndex (f : BloomFilter) (value : T) (i : Nat) : Nat := (h1 value + UInt64.ofNat i * h2 value).toNat % f.numBits

def insert (f : BloomFilter) (value : T) : BloomFilter :=
  { f with
    bits := (List.range f.numHashes).foldl (fun bits i => setBit bits (f.bitIndex h1 h2 value i)) f.bits
    numItems := f.numItems + 1 }

def mightContain (f : BloomFilter) (value : T) : Bool :=
  (List.range f.numHashes).all fun i => getBit f.bits (f.bitIndex h1 h2 value i)

end Hashed

def toBytes (f : BloomFilter) : Bytes :=
  leBytes 8 f.numBits ++ (leBytes 4 f.numHashes ++ (leBytes 4 0 ++ (leBytes 8 f.numItems.toNat ++ f.bits)))

def fromBytes (bytes : Bytes) : Option BloomFilter :=
  if bytes.length < 24 then none
  else
    let numBits := ofLeBytes (bytes.take 8)
    let numHashes := ofLeBytes ((bytes.drop 8).take 4)
    let numItems := UInt64.ofNat (ofLeBytes ((bytes.drop 16).take 8))
    if numBits = 0 ∨ numBits > maxBloomBits ∨ numHashes = 0 ∨ numHashes > maxHashFunctions then none
    else
      let expectedLen := 24 + (numBits + 7) / 8
      if bytes.length < expectedLen then none
      else some { bits := (bytes.drop 24).take ((numBits + 7) / 8), numHashes, numBits, numItems }

/-! ### Filters of the right size -/

/-- The bytes are those that the bits need, and the sizes are in their bounds. -/
structure Sized (f : BloomFilter) : Prop where
  bits_pos : 0 < f.numBits
  bits_le : f.numBits ≤ maxBloomBits
  hashes_pos : 0 < f.numHashes
  hashes_le : f.numHashes ≤ maxHashFunctions
  length : f.bits.length = (f.numBits + 7) / 8

section Sizes
variable {R T : Type} {h1 h2 : T → UInt64} {f g : BloomFilter} {value value' : T} {bytes : Bytes}

/-- The bits at the places of a value are set. -/
def setAll (bits : Bytes) (indices : List Nat) : Bytes := indices.foldl setBit bits

theorem insert_bits (f : BloomFilter) (value : T) :
    (f.insert h1 h2 value).bits = setAll f.bits ((List.range f.numHashes).map (f.bitIndex h1 h2 value)) := by
  rw [setAll, List.foldl_map]
  rfl

@[simp] theorem length_setAll (bits : Bytes) (indices : List Nat) : (setAll bits indices).length = bits.length := by
  induction indices generalizing bits with
  | nil => rfl
  | cons i indices ih => exact (ih _).trans length_setBit

theorem getBit_setAll {bits : Bytes} {indices : List Nat} {j : Nat} :
    getBit (setAll bits indices) j = (getBit bits j || decide (j ∈ indices ∧ j / 8 < bits.length)) := by
  induction indices generalizing bits with
  | nil => rw [decide_eq_false fun h => List.not_mem_nil h.1, Bool.or_false]; rfl
  | cons i indices ih =>
    show getBit (setAll (setBit bits i) indices) j = _
    rw [ih, getBit_setBit, length_setBit, Bool.or_assoc, ← Bool.decide_or]
    have hmem : (i = j ∧ i / 8 < bits.length) ∨ (j ∈ indices ∧ j / 8 < bits.length) ↔
        j ∈ i :: indices ∧ j / 8 < bits.length := by
      rw [List.mem_cons, or_and_right]
      exact or_congr_left ⟨fun h => ⟨h.1.symm, h.1 ▸ h.2⟩, fun h => ⟨h.1.symm, h.1 ▸ h.2⟩⟩
    rw [decide_eq_decide.mpr hmem]

theorem sized_new (sizing : Sizing R) (expectedItems : Nat) (rate : R) : (new sizing expectedItems rate).Sized where
  bits_pos := lt_min (lt_max_of_lt_right (by decide)) (by decide)
  bits_le := min_le_right _ _
  hashes_pos := lt_min (lt_max_of_lt_right (by decide)) (by decide)
  hashes_le := min_le_right _ _
  length := List.length_replicate

theorem Sized.insert (h : f.Sized) (value : T) : (f.insert h1 h2 value).Sized where
  bits_pos := h.bits_pos
  bits_le := h.bits_le
  hashes_pos := h.hashes_pos
  hashes_le := h.hashes_le
  length := by rw [insert_bits, length_setAll]; exact h.length

theorem Sized.inside (h : f.Sized) (value : T) (i : Nat) : f.bitIndex h1 h2 value i / 8 < f.bits.length := by
  have hmod : f.bitIndex h1 h2 value i < f.numBits := Nat.mod_lt _ h.bits_pos
  rw [h.length]
  omega

theorem mightContain_iff :
    f.mightContain h1 h2 value = true ↔
      ∀ j ∈ (List.range f.numHashes).map (f.bitIndex h1 h2 value), getBit f.bits j = true := by
  rw [mightContain, List.all_eq_true, List.forall_mem_map]

theorem mightContain_insert_self (h : f.Sized) : (f.insert h1 h2 value).mightContain h1 h2 value = true := by
  refine mightContain_iff.mpr fun j hj => ?_
  have hindex : j ∈ (List.range f.numHashes).map (f.bitIndex h1 h2 value) := hj
  obtain ⟨i, -, rfl⟩ := List.mem_map.mp hj
  rw [insert_bits, getBit_setAll, Bool.or_eq_true]
  exact .inr (decide_eq_true ⟨hindex, h.inside value i⟩)

theorem mightContain_insert (h : f.mightContain h1 h2 value = true) :
    (f.insert h1 h2 value').mightContain h1 h2 value = true := by
  refine mightContain_iff.mpr fun j hj => ?_
  rw [insert_bits, getBit_setAll, Bool.or_eq_true]
  exact .inl (mightContain_iff.mp h j hj)

/-! ### Inserting and transmitting -/

theorem sized_foldl (h : f.Sized) (values : List T) : (values.foldl (BloomFilter.insert h1 h2) f).Sized := by
  induction values generalizing f with
  | nil => exact h
  | cons value values ih => exact ih (h.insert value)

theorem mightContain_foldl (h : f.Sized) {values : List T}
    (hvalue : value ∈ values ∨ f.mightContain h1 h2 value = true) :
    (values.foldl (BloomFilter.insert h1 h2) f).mightContain h1 h2 value = true := by
  induction values generalizing f with
  | nil => exact hvalue.resolve_left List.not_mem_nil
  | cons first values ih =>
    refine ih (h.insert first) ?_
    rcases hvalue with hvalue | hvalue
    · rcases List.mem_cons.mp hvalue with rfl | hvalue
      · exact .inr (mightContain_insert_self h)
      · exact .inl hvalue
    · exact .inr (mightContain_insert hvalue)

theorem fromBytes_toBytes (h : f.Sized) (rest : Bytes) : fromBytes (f.toBytes ++ rest) = some f := by
  have hbits := h.bits_le
  have hhashes := h.hashes_le
  unfold maxBloomBits at hbits
  unfold maxHashFunctions at hhashes
  have hlength : (f.toBytes ++ rest).length = 24 + (f.numBits + 7) / 8 + rest.length := by
    simp only [toBytes, List.length_append, leBytes_length, h.length]
    omega
  have hstart : At (f.toBytes ++ rest) 0 (leBytes 8 f.numBits ++
      (leBytes 4 f.numHashes ++ (leBytes 4 0 ++ (leBytes 8 f.numItems.toNat ++ (f.bits ++ rest))))) := by
    refine ⟨Nat.zero_le _, ?_⟩
    simp only [toBytes, List.drop_zero, List.append_assoc]
  have hhashesAt := hstart.advance (leBytes_length 8 _)
  have hitemsAt := (hhashesAt.advance (leBytes_length 4 _)).advance (leBytes_length 4 _)
  have hbitsAt := hitemsAt.advance (leBytes_length 8 _)
  have hnumBits : ofLeBytes ((f.toBytes ++ rest).take 8) = f.numBits := by
    have htake := hstart.take (leBytes_length 8 _)
    rw [List.drop_zero] at htake
    rw [htake, ofLeBytes_leBytes]
    exact Nat.mod_eq_of_lt (by omega)
  have hnumHashes : ofLeBytes (((f.toBytes ++ rest).drop 8).take 4) = f.numHashes := by
    rw [hhashesAt.take (leBytes_length 4 _), ofLeBytes_leBytes]
    exact Nat.mod_eq_of_lt (by omega)
  have hnumItems : UInt64.ofNat (ofLeBytes (((f.toBytes ++ rest).drop 16).take 8)) = f.numItems := by
    have hlt : f.numItems.toNat < 256 ^ 8 := f.numItems.toNat_lt
    rw [hitemsAt.take (leBytes_length 8 _), ofLeBytes_leBytes, Nat.mod_eq_of_lt hlt]
    exact UInt64.ofNat_toNat
  have hchecks : ¬ (f.numBits = 0 ∨ f.numBits > maxBloomBits ∨ f.numHashes = 0 ∨ f.numHashes > maxHashFunctions) := by
    unfold maxBloomBits maxHashFunctions
    have := h.bits_pos
    have := h.hashes_pos
    omega
  rw [fromBytes, if_neg (by omega)]
  dsimp only
  rw [hnumBits, hnumHashes, hnumItems, if_neg hchecks, if_neg (by omega), hbitsAt.take h.length]

theorem sized_of_fromBytes (h : fromBytes bytes = some g) : g.Sized := by
  rw [fromBytes] at h
  dsimp only at h
  split_ifs at h with hshort hchecks hlength
  cases h
  refine ⟨?_, ?_, ?_, ?_, ?_⟩
  · exact Nat.pos_of_ne_zero fun hzero => hchecks (.inl hzero)
  · exact Nat.le_of_not_lt fun hlt => hchecks (.inr (.inl hlt))
  · exact Nat.pos_of_ne_zero fun hzero => hchecks (.inr (.inr (.inl hzero)))
  · exact Nat.le_of_not_lt fun hlt => hchecks (.inr (.inr (.inr hlt)))
  · rw [List.length_take, List.length_drop]
    exact Nat.min_eq_left (by omega)

end Sizes

/-- No inserted value is missed, also by the filter that is received, which is the one that was sent; and no filter
    that is received looks outside its bytes. -/
theorem bloom_exact {R T : Type} (sizing : Sizing R) (h1 h2 : T → UInt64) (expectedItems : Nat) (rate : R)
    (values : List T) :
    (∀ value ∈ values,
      (values.foldl (insert h1 h2) (new sizing expectedItems rate)).mightContain h1 h2 value = true ∧
      (fromBytes (values.foldl (insert h1 h2) (new sizing expectedItems rate)).toBytes).any
        (·.mightContain h1 h2 value) = true) ∧
    fromBytes (values.foldl (insert h1 h2) (new sizing expectedItems rate)).toBytes =
      some (values.foldl (insert h1 h2) (new sizing expectedItems rate)) ∧
    ∀ bytes g, fromBytes bytes = some g →
      0 < g.numBits ∧ ∀ (value : T) (i : Nat), g.bitIndex h1 h2 value i / 8 < g.bits.length := by
  have hsized := @sized_foldl T h1 h2 _ (sized_new sizing expectedItems rate) values
  have hsent := fromBytes_toBytes hsized []
  rw [List.append_nil] at hsent
  refine ⟨fun value hvalue => ?_, hsent, fun bytes g hg => ?_⟩
  · have hcontains := @mightContain_foldl T h1 h2 _ value (sized_new sizing expectedItems rate) values (.inl hvalue)
    exact ⟨hcontains, by rw [hsent]; exact hcontains⟩
  · have hg := sized_of_fromBytes hg
    exact ⟨hg.bits_pos, hg.inside⟩

end BloomFilter

end Reiver.Pond.BloomPushdown
