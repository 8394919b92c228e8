import Mathlib.Data.Finset.Card
import Mathlib.Data.String.Basic
import Mathlib.Order.Compare
import Reiver.Lib.Dict
import Reiver.Lib.Int64

/-! # Primary keys of the change log

The model of `PrimaryKey` in `wal_index/types.rs`: its ordering, its text, and what is read back from the text. -/

namespace Reiver.Pond

inductive PrimaryKey where
  | int64 (v : Int64)
  | string (s : String)
  | composite (parts : List PrimaryKey)

namespace PrimaryKey

mutual

def decEq : (a b : PrimaryKey) → Decidable (a = b)
  | int64 a, int64 b => decidable_of_iff (a = b) ⟨congrArg int64, int64.inj⟩
  | string a, string b => decidable_of_iff (a = b) ⟨congrArg string, string.inj⟩
  | composite a, composite b =>
    have := decEqParts a b
    decidable_of_iff (a = b) ⟨congrArg composite, composite.inj⟩
  | int64 _, string _ | int64 _, composite _ | string _, int64 _ | string _, composite _ | composite _, int64 _
  | composite _, string _ => .isFalse fun h => PrimaryKey.noConfusion h

def decEqParts : (a b : List PrimaryKey) → Decidable (a = b)
  | [], [] => .isTrue rfl
  | [], _ :: _ => .isFalse (List.cons_ne_nil _ _).symm
  | _ :: _, [] => .isFalse (List.cons_ne_nil _ _)
  | a :: as, b :: bs =>
    have := decEq a b
    have := decEqParts as bs
    decidable_of_iff (a = b ∧ as = bs) ⟨fun h => by rw [h.1, h.2], List.cons.inj⟩

end

instance : DecidableEq PrimaryKey := decEq

mutual

/-- Keys of one type are compared by value, keys of different types by type. -/
def cmp : PrimaryKey → PrimaryKey → Ordering
  | int64 a, int64 b => compare a.toInt b.toInt
  | string a, string b => compare a b
  | composite a, composite b => cmpParts a b
  | int64 _, _ => .lt
  | _, int64 _ => .gt
  | string _, composite _ => .lt
  | composite _, string _ => .gt

def cmpParts : List PrimaryKey → List PrimaryKey → Ordering
  | [], [] => .eq
  | [], _ :: _ => .lt
  | _ :: _, [] => .gt
  | a :: as, b :: bs => (cmp a b).then (cmpParts as bs)

end

instance : LE PrimaryKey := ⟨fun a b => cmp a b ≠ .gt⟩

instance (a b : PrimaryKey) : Decidable (a ≤ b) := inferInstanceAs (Decidable (cmp a b ≠ .gt))

mutual

def toStringRepr : PrimaryKey → String
  | int64 v => toString v.toInt
  | string s => s
  | composite parts => "|".intercalate (partReprs parts)

def partReprs : List PrimaryKey → List String
  | [] => []
  | p :: ps => toStringRepr p :: partReprs ps

end

def parse (s : String) (isNumeric : Bool) : PrimaryKey :=
  if isNumeric then
    match parseI64 s with
    | some v => int64 v
    | none => string s
  else string s

/-- The number that a bitmap holds for a key, if there is one. -/
def asU32 : PrimaryKey → Option Nat
  | int64 v => if 0 ≤ v.toInt ∧ v.toInt < 2 ^ 32 then some v.toInt.toNat else none
  | _ => none

theorem asU32_inj {pk pk' : PrimaryKey} {n : Nat} (h : pk.asU32 = some n) (h' : pk'.asU32 = some n) : pk = pk' := by
  have hint : ∀ {pk : PrimaryKey}, pk.asU32 = some n → ∃ v : Int64, pk = .int64 v ∧ v.toInt = n := by
    intro pk h
    cases pk with
    | int64 v =>
      rw [asU32] at h
      split at h
      · exact ⟨v, rfl, by have := Option.some_inj.mp h; omega⟩
      · cases h
    | string s => cases h
    | composite parts => cases h
  obtain ⟨v, rfl, hv⟩ := hint h
  obtain ⟨v', rfl, hv'⟩ := hint h'
  exact congrArg int64 (Int64.toInt_inj.mp (hv.trans hv'.symm))

end PrimaryKey

end Reiver.Pond

/-! # Inverted indexes of the change log

The model of `wal_index/inverted_index.rs`. A bitmap is a finite set of numbers, the map from hashes to texts is kept by
its pairs, and what the hasher computes is given. -/

namespace Reiver.Pond

inductive ColumnValue where
  | null
  | bool (b : Bool)
  | int64 (v : Int64)
  -- Floats are compared by their bits.
  | float64 (bits : UInt64)
  | string (s : String)
  | bytes (b : List UInt8)
  | timestamp (millis : Int64)
deriving DecidableEq

structure WalHashes where
  valueHash : ColumnValue → Nat
  pkHash : PrimaryKey → Nat

structure InvertedIndexEntry where
  valueHash : Nat
  pkBitmap : Finset Nat
  pkHashToOriginal : List (Nat × String)
  hasStringPks : Bool
  integerPks : Finset Nat

namespace InvertedIndexEntry

def new (valueHash : Nat) : InvertedIndexEntry := ⟨valueHash, ∅, [], false, ∅⟩

def pkToU32Hash (hashes : WalHashes) (pk : PrimaryKey) : Nat := hashes.pkHash pk % (2 ^ 32 - 1)

def addPk (hashes : WalHashes) (entry : InvertedIndexEntry) (pk : PrimaryKey) : InvertedIndexEntry :=
  match pk.asU32 with
  | some pkU32 =>
    { entry with pkBitmap := insert pkU32 entry.pkBitmap, integerPks := insert pkU32 entry.integerPks }
  | none =>
    let hash := pkToU32Hash hashes pk
    { entry with
      pkBitmap := insert hash entry.pkBitmap
      hasStringPks := true
      pkHashToOriginal := entry.pkHashToOriginal.insert (hash, pk.toStringRepr) }

def removePk (hashes : WalHashes) (entry : InvertedIndexEntry) (pk : PrimaryKey) : InvertedIndexEntry :=
  match pk.asU32 with
  | some pkU32 =>
    { entry with pkBitmap := entry.pkBitmap.erase pkU32, integerPks := entry.integerPks.erase pkU32 }
  | none =>
    let hash := pkToU32Hash hashes pk
    if entry.pkHashToOriginal.any (·.1 == hash) then
      let originals := entry.pkHashToOriginal.erase (hash, pk.toStringRepr)
      -- The hash leaves the bitmap with its last text.
      { entry with
        pkBitmap := if originals.any (·.1 == hash) then entry.pkBitmap else entry.pkBitmap.erase hash
        pkHashToOriginal := originals }
    else entry

def containsPk (hashes : WalHashes) (entry : InvertedIndexEntry) (pk : PrimaryKey) : Bool :=
  match pk.asU32 with
  | some pkU32 => if entry.hasStringPks then pkU32 ∈ entry.integerPks else pkU32 ∈ entry.pkBitmap
  | none =>
    let hash := pkToU32Hash hashes pk
    hash ∈ entry.pkBitmap && entry.pkHashToOriginal.contains (hash, pk.toStringRepr)

def len (entry : InvertedIndexEntry) : Nat :=
  if entry.hasStringPks then entry.pkHashToOriginal.length + entry.integerPks.card else entry.pkBitmap.card

def isEmpty (entry : InvertedIndexEntry) : Bool := entry.pkBitmap = ∅

end InvertedIndexEntry

structure InvertedIndex where
  columnName : String
  entries : Dict Nat InvertedIndexEntry
  distinctValues : Nat

namespace InvertedIndex

def new (columnName : String) : InvertedIndex := ⟨columnName, ∅, 0⟩

def maxInvertedIndexCardinality : Nat := 100000

def exceedsCardinalityLimit (index : InvertedIndex) : Bool := index.distinctValues > maxInvertedIndexCardinality

def add (hashes : WalHashes) (index : InvertedIndex) (value : ColumnValue) (pk : PrimaryKey) : InvertedIndex :=
  let hash := hashes.valueHash value
  match index.entries.lookup hash with
  | some entry => { index with entries := index.entries.insert hash (entry.addPk hashes pk) }
  | none =>
    { index with
      entries := index.entries.insert hash ((InvertedIndexEntry.new hash).addPk hashes pk)
      distinctValues := index.distinctValues + 1 }

def remove (hashes : WalHashes) (index : InvertedIndex) (value : ColumnValue) (pk : PrimaryKey) : InvertedIndex :=
  let hash := hashes.valueHash value
  match index.entries.lookup hash with
  | some entry =>
    let entry := entry.removePk hashes pk
    if entry.isEmpty then
      { index with entries := index.entries.erase hash, distinctValues := index.distinctValues - 1 }
    else { index with entries := index.entries.insert hash entry }
  | none => index

end InvertedIndex

structure InvertedIndexManager where
  indexes : Dict String InvertedIndex
  highCardinalityColumns : List String

namespace InvertedIndexManager

def new : InvertedIndexManager := ⟨∅, []⟩

def isHighCardinality (m : InvertedIndexManager) (column : String) : Bool := m.highCardinalityColumns.contains column

def markHighCardinality (m : InvertedIndexManager) (column : String) : InvertedIndexManager where
  indexes := m.indexes.erase column
  highCardinalityColumns := m.highCardinalityColumns.insert column

/-- Whether the column stays with the inverted index, and the manager. -/
def add (hashes : WalHashes) (m : InvertedIndexManager) (column : String) (value : ColumnValue) (pk : PrimaryKey) :
    Bool × InvertedIndexManager :=
  if m.isHighCardinality column then (false, m)
  else
    let index := ((m.indexes.lookup column).getD (.new column)).add hashes value pk
    let m := { m with indexes := m.indexes.insert column index }
    if index.exceedsCardinalityLimit then (false, m.markHighCardinality column) else (true, m)

def getMatchingPksWithStrings (hashes : WalHashes) (m : InvertedIndexManager) (column : String) (value : ColumnValue) :
    Option (Finset Nat × Bool × List (Nat × String)) := do
  let index ← m.indexes.lookup column
  let entry ← index.entries.lookup (hashes.valueHash value)
  some (entry.pkBitmap, entry.hasStringPks, entry.pkHashToOriginal)

end InvertedIndexManager

/-! ### Keys in an entry -/

def pkId (hashes : WalHashes) (pk : PrimaryKey) : Nat :=
  (pk.asU32).getD (InvertedIndexEntry.pkToU32Hash hashes pk)

section Add
variable {hashes : WalHashes} {entry : InvertedIndexEntry} {pk : PrimaryKey} {id n : Nat} {text : String}

theorem pkId_of_some (h : pk.asU32 = some n) : pkId hashes pk = n := by rw [pkId, h, Option.getD_some]

theorem pkId_of_none (h : pk.asU32 = none) : pkId hashes pk = InvertedIndexEntry.pkToU32Hash hashes pk := by
  rw [pkId, h, Option.getD_none]

theorem addPk_of_some (h : pk.asU32 = some n) : entry.addPk hashes pk =
    { entry with pkBitmap := insert n entry.pkBitmap, integerPks := insert n entry.integerPks } := by
  rw [InvertedIndexEntry.addPk, h]

theorem addPk_of_none (h : pk.asU32 = none) : entry.addPk hashes pk =
    { entry with
      pkBitmap := insert (pkId hashes pk) entry.pkBitmap
      hasStringPks := true
      pkHashToOriginal := entry.pkHashToOriginal.insert (pkId hashes pk, pk.toStringRepr) } := by
  rw [InvertedIndexEntry.addPk, h, pkId_of_none h]

theorem mem_pkBitmap_addPk : id ∈ (entry.addPk hashes pk).pkBitmap ↔ id ∈ entry.pkBitmap ∨ pkId hashes pk = id := by
  cases hpk : pk.asU32 with
  | some n => rw [addPk_of_some hpk, Finset.mem_insert, pkId_of_some hpk, or_comm, eq_comm]
  | none => rw [addPk_of_none hpk, Finset.mem_insert, or_comm, eq_comm]

theorem mem_texts_addPk : (id, text) ∈ (entry.addPk hashes pk).pkHashToOriginal ↔
    (id, text) ∈ entry.pkHashToOriginal ∨ pk.asU32 = none ∧ pkId hashes pk = id ∧ pk.toStringRepr = text := by
  cases hpk : pk.asU32 with
  | some n =>
    rw [addPk_of_some hpk]
    simp
  | none =>
    rw [addPk_of_none hpk, List.mem_insert_iff, or_comm, Prod.mk.injEq, eq_comm (a := id), eq_comm (a := text)]
    simp

theorem hasStringPks_addPk :
    (entry.addPk hashes pk).hasStringPks = true ↔ entry.hasStringPks = true ∨ pk.asU32 = none := by
  cases hpk : pk.asU32 with
  | some n =>
    rw [addPk_of_some hpk]
    simp
  | none =>
    rw [addPk_of_none hpk]
    simp

theorem mem_integerPks_addPk : n ∈ (entry.addPk hashes pk).integerPks ↔ n ∈ entry.integerPks ∨ pk.asU32 = some n := by
  cases hpk : pk.asU32 with
  | some m => rw [addPk_of_some hpk, Finset.mem_insert, or_comm, Option.some_inj, eq_comm]
  | none =>
    rw [addPk_of_none hpk]
    simp

end Add

/-! ### What an index holds -/

section Holds
variable {hashes : WalHashes} {m : InvertedIndexManager} {pk : PrimaryKey} {column : String} {value : ColumnValue}

/-- A value of a column that was added for a key. -/
structure IndexAdd where
  column : String
  value : ColumnValue
  pk : PrimaryKey

def addedUnder (hashes : WalHashes) (adds : List IndexAdd) (column : String) (hash : Nat) (pk : PrimaryKey) : Prop :=
  ∃ e ∈ adds, e.column = column ∧ hashes.valueHash e.value = hash ∧ e.pk = pk

/-- An entry holds the keys that were added: all of them in the bitmap, and those that are no small integers by their
    texts. -/
structure EntryHolds (hashes : WalHashes) (entry : InvertedIndexEntry) (added : PrimaryKey → Prop) : Prop where
  bitmap : ∀ id, id ∈ entry.pkBitmap ↔ ∃ pk, added pk ∧ pkId hashes pk = id
  texts : ∀ id text, (id, text) ∈ entry.pkHashToOriginal ↔
    ∃ pk, added pk ∧ pk.asU32 = none ∧ pkId hashes pk = id ∧ pk.toStringRepr = text
  strings : entry.hasStringPks = true ↔ ∃ pk, added pk ∧ pk.asU32 = none

theorem entryHolds_new (hash : Nat) : EntryHolds hashes (.new hash) fun _ => False where
  bitmap _ := iff_of_false (Finset.notMem_empty _) fun ⟨_, h, _⟩ => h
  texts _ _ := iff_of_false List.not_mem_nil fun ⟨_, h, _⟩ => h
  strings := iff_of_false Bool.false_ne_true fun ⟨_, h, _⟩ => h

theorem EntryHolds.congr {entry : InvertedIndexEntry} {added added' : PrimaryKey → Prop}
    (h : EntryHolds hashes entry added) (hadded : ∀ pk, added pk ↔ added' pk) : EntryHolds hashes entry added' := by
  have heq : added = added' := funext fun pk => propext (hadded pk)
  exact heq ▸ h

theorem EntryHolds.addPk {entry : InvertedIndexEntry} {added : PrimaryKey → Prop} (h : EntryHolds hashes entry added)
    (pk : PrimaryKey) : EntryHolds hashes (entry.addPk hashes pk) fun pk' => added pk' ∨ pk' = pk := by
  have hor : ∀ P : PrimaryKey → Prop, (∃ pk', (added pk' ∨ pk' = pk) ∧ P pk') ↔ (∃ pk', added pk' ∧ P pk') ∨ P pk := by
    intro P
    simp only [or_and_right, exists_or, exists_eq_left]
  refine ⟨fun id => ?_, fun id text => ?_, ?_⟩
  · rw [hor, mem_pkBitmap_addPk, h.bitmap]
  · rw [hor, mem_texts_addPk, h.texts]
  · rw [hor, hasStringPks_addPk, h.strings]

def InvertedIndexManager.entry (m : InvertedIndexManager) (column : String) (hash : Nat) : InvertedIndexEntry :=
  ((m.indexes.lookup column).bind fun index => index.entries.lookup hash).getD (.new hash)

/-- Every column that stays with the inverted index holds what was added for it. -/
def IndexHolds (hashes : WalHashes) (m : InvertedIndexManager) (adds : List IndexAdd) : Prop :=
  ∀ column, m.isHighCardinality column = false → ∀ hash,
    EntryHolds hashes (m.entry column hash) (addedUnder hashes adds column hash)

theorem indexHolds_new : IndexHolds hashes .new [] := fun _ _ hash =>
  (entryHolds_new hash).congr fun _ => iff_of_false id fun ⟨_, h, _⟩ => absurd h List.not_mem_nil

theorem lookup_index_add (index : InvertedIndex) (hash : Nat) : (index.add hashes value pk).entries.lookup hash =
    if hash = hashes.valueHash value then
      some (((index.entries.lookup (hashes.valueHash value)).getD (.new (hashes.valueHash value))).addPk hashes pk)
    else index.entries.lookup hash := by
  rw [InvertedIndex.add]
  cases index.entries.lookup (hashes.valueHash value) with
  | some entry => exact Dict.lookup_insert' _ _ _ _
  | none => exact Dict.lookup_insert' _ _ _ _

theorem lookup_index_remove (index : InvertedIndex) (hash : Nat) :
    (index.remove hashes value pk).entries.lookup hash =
      if hash = hashes.valueHash value then
        (index.entries.lookup (hashes.valueHash value)).bind fun entry =>
          if (entry.removePk hashes pk).isEmpty then none else some (entry.removePk hashes pk)
      else index.entries.lookup hash := by
  rw [InvertedIndex.remove]
  cases hlookup : index.entries.lookup (hashes.valueHash value) with
  | some entry =>
    dsimp only
    rw [Option.bind_some]
    split
    · exact Dict.lookup_erase' _ _ _
    · exact Dict.lookup_insert' _ _ _ _
  | none =>
    dsimp only
    split
    · next heq => rw [heq, hlookup, Option.bind_none]
    · rfl

theorem entry_index_add (index : InvertedIndex) (hash : Nat) :
    ((index.add hashes value pk).entries.lookup hash).getD (.new hash) =
      if hash = hashes.valueHash value then ((index.entries.lookup hash).getD (.new hash)).addPk hashes pk
      else (index.entries.lookup hash).getD (.new hash) := by
  rw [lookup_index_add]
  split
  · next heq => rw [heq, Option.getD_some]
  · rfl

theorem isHighCardinality_mark {column' : String}
    (h : (m.markHighCardinality column).isHighCardinality column' = false) :
    column' ≠ column ∧ m.isHighCardinality column' = false := by
  simp only [InvertedIndexManager.isHighCardinality, InvertedIndexManager.markHighCardinality, List.contains_eq_mem,
    decide_eq_false_iff_not, List.mem_insert_iff, not_or] at h ⊢
  exact h

theorem entry_getD_new (hash : Nat) :
    ((((m.indexes.lookup column).getD (.new column)).entries.lookup hash).getD (.new hash)) = m.entry column hash := by
  rw [InvertedIndexManager.entry]
  cases m.indexes.lookup column with
  | none => rfl
  | some index => rfl

theorem add_entry {column' : String} (h : (m.add hashes column value pk).2.isHighCardinality column' = false)
    (hash : Nat) :
    m.isHighCardinality column' = false ∧ (m.add hashes column value pk).2.entry column' hash =
      if column' = column ∧ hash = hashes.valueHash value then (m.entry column' hash).addPk hashes pk
      else m.entry column' hash := by
  rw [InvertedIndexManager.add] at h ⊢
  cases hcolumn : m.isHighCardinality column with
  | true =>
    simp only [hcolumn, if_true] at h ⊢
    have hne : ¬ (column' = column ∧ hash = hashes.valueHash value) := by
      rintro ⟨rfl, -⟩
      rw [h] at hcolumn
      exact Bool.false_ne_true hcolumn
    exact ⟨h, (if_neg hne).symm⟩
  | false =>
    simp only [hcolumn, Bool.false_eq_true, if_false] at h ⊢
    cases hlimit : (((m.indexes.lookup column).getD (.new column)).add hashes value pk).exceedsCardinalityLimit with
    | true =>
      simp only [hlimit, if_true] at h ⊢
      obtain ⟨hne, hbefore⟩ := isHighCardinality_mark h
      refine ⟨hbefore, ?_⟩
      rw [if_neg fun hsame => hne hsame.1]
      rw [InvertedIndexManager.entry, InvertedIndexManager.markHighCardinality, Dict.lookup_erase', if_neg hne,
        Dict.lookup_insert', if_neg hne, InvertedIndexManager.entry]
    | false =>
      simp only [hlimit, Bool.false_eq_true, if_false] at h ⊢
      refine ⟨h, ?_⟩
      rw [InvertedIndexManager.entry, Dict.lookup_insert']
      by_cases hsame : column' = column
      · subst hsame
        rw [if_pos rfl, Option.bind_some, entry_index_add]
        simp only [true_and, entry_getD_new]
      · rw [if_neg hsame, if_neg fun hboth => hsame hboth.1, InvertedIndexManager.entry]

theorem IndexHolds.add {adds : List IndexAdd} (h : IndexHolds hashes m adds) :
    IndexHolds hashes (m.add hashes column value pk).2 (adds ++ [⟨column, value, pk⟩]) := by
  intro column' hcolumn hash
  obtain ⟨hbefore, hentry⟩ := add_entry hcolumn hash
  have hold := h column' hbefore hash
  have hadded : ∀ pk', addedUnder hashes (adds ++ [⟨column, value, pk⟩]) column' hash pk' ↔
      addedUnder hashes adds column' hash pk' ∨ column = column' ∧ hashes.valueHash value = hash ∧ pk = pk' := by
    intro pk'
    simp only [addedUnder, List.mem_append, List.mem_singleton, or_and_right, exists_or, exists_eq_left]
  rw [hentry]
  split_ifs with hnew
  · obtain ⟨rfl, rfl⟩ := hnew
    refine (hold.addPk pk).congr fun pk' => ?_
    rw [hadded, eq_comm (a := pk')]
    simp
  · refine hold.congr fun pk' => ?_
    rw [hadded]
    exact (or_iff_left fun h => hnew ⟨h.1.symm, h.2.1.symm⟩).symm

end Holds

end Reiver.Pond
