import Mathlib.Data.Finset.Sort
import Mathlib.Data.List.Dedup
import Reiver.Pond.WalIndex.Blocks
import Reiver.Pond.WalIndex.InvertedIndex

/-! # Two-phase queries of the change log

The model of `wal_index/query.rs` with the checks of `skip_index.rs`: skip indexes rule out blocks, then inverted
indexes give the keys. Floats are an arbitrary type with the operations that are used (`FloatOps`), a filter is what it
contains, and the storage is the function that loads what it holds. -/

namespace Reiver.Pond

inductive PredicateOp where
  | eq
  | ne
  | gt
  | gte
  | lt
  | lte
  | isNull
  | isNotNull
  | inList
deriving DecidableEq

namespace PredicateOp

def canUseInvertedIndex (op : PredicateOp) : Bool := op = eq || op = inList

def canUseMinMax (op : PredicateOp) : Bool := op = eq || op = gt || op = gte || op = lt || op = lte

end PredicateOp

structure Predicate where
  column : String
  op : PredicateOp
  values : List ColumnValue

def Predicate.value (p : Predicate) : Option ColumnValue := p.values.head?

/-! ### Skip indexes -/

structure FloatOps (F : Type) where
  ofInt64 : Int64 → F
  ofBits : UInt64 → F
  isNan : F → Bool
  le : F → F → Bool
  lt : F → F → Bool

structure MinMaxStats (F : Type) where
  min : F
  max : F

namespace MinMaxStats
variable {F : Type} (ops : FloatOps F)

def mightContain (stats : MinMaxStats F) (value : F) : Bool :=
  if ops.isNan value || ops.isNan stats.min || ops.isNan stats.max then true
  else ops.le stats.min value && ops.le value stats.max

def mightContainGt (stats : MinMaxStats F) (threshold : F) : Bool := ops.lt threshold stats.max

def mightContainGte (stats : MinMaxStats F) (threshold : F) : Bool := ops.le threshold stats.max

def mightContainLt (stats : MinMaxStats F) (threshold : F) : Bool := ops.lt stats.min threshold

def mightContainLte (stats : MinMaxStats F) (threshold : F) : Bool := ops.le stats.min threshold

end MinMaxStats

inductive BlockSkipIndex (F : Type) where
  | minMax (stats : MinMaxStats F)
  | xorFilter (contains : Nat → Bool)

def ColumnValue.asF64 {F : Type} (ops : FloatOps F) : ColumnValue → Option F
  | .int64 v => some (ops.ofInt64 v)
  | .float64 bits => some (ops.ofBits bits)
  | .timestamp millis => some (ops.ofInt64 millis)
  | _ => none

namespace BlockSkipIndex
variable {F : Type} (ops : FloatOps F)

def mightContainEq (hashes : WalHashes) (index : BlockSkipIndex F) (value : ColumnValue) : Bool :=
  match index with
  | minMax stats => ((value.asF64 ops).map (stats.mightContain ops)).getD true
  | xorFilter contains => contains (hashes.valueHash value)

/-- A comparison with the least or greatest value, which a filter cannot answer. -/
def mightCompare (compare : MinMaxStats F → F → Bool) (index : BlockSkipIndex F) (value : ColumnValue) : Bool :=
  match index with
  | minMax stats => ((value.asF64 ops).map (compare stats)).getD true
  | xorFilter _ => true

def mightContainGt : BlockSkipIndex F → ColumnValue → Bool := mightCompare ops (MinMaxStats.mightContainGt ops)

def mightContainGte : BlockSkipIndex F → ColumnValue → Bool := mightCompare ops (MinMaxStats.mightContainGte ops)

def mightContainLt : BlockSkipIndex F → ColumnValue → Bool := mightCompare ops (MinMaxStats.mightContainLt ops)

def mightContainLte : BlockSkipIndex F → ColumnValue → Bool := mightCompare ops (MinMaxStats.mightContainLte ops)

end BlockSkipIndex

def checkSkipIndex {F : Type} (ops : FloatOps F) (hashes : WalHashes) (index : BlockSkipIndex F) (p : Predicate) :
    Bool :=
  match p.value with
  | none => true
  | some value =>
    match p.op with
    | .eq => index.mightContainEq ops hashes value
    | .gt => index.mightContainGt ops value
    | .gte => index.mightContainGte ops value
    | .lt => index.mightContainLt ops value
    | .lte => index.mightContainLte ops value
    | .inList => p.values.any fun value => index.mightContainEq ops hashes value
    | _ => true

/-! ### The executor -/

inductive QueryError where
  | validation (message : String)
  | storage (message : String)

structure StoredSkipIndex (F : Type) where
  blockId : BlockId
  columnName : String
  -- What is read from the stored text, if it can be read.
  index : Option (BlockSkipIndex F)

abbrev CachedSkipIndexes (F : Type) := Dict BlockId (Dict String (BlockSkipIndex F))

structure TwoPhaseQueryExecutor (F : Type) where
  blockManager : BlockManager
  invertedIndexManager : InvertedIndexManager
  loadSkipIndexesForBlocks : List BlockId → Except QueryError (List (StoredSkipIndex F))
  skipIndexCache : CachedSkipIndexes F

structure BlockEliminationResult where
  candidateBlocks : List BlockId
  eliminatedBlocks : List BlockId
  indexedColumns : List String

structure PkResolutionResult where
  matchingPks : List PrimaryKey
  isComplete : Bool
  initialPkCount : Nat

/-- The keys that are resolved so far, by their numbers. -/
structure PkResolution where
  resultBitmap : Option (Finset Nat)
  isComplete : Bool
  initialPkCount : Nat
  hasStringPks : Bool
  allHashMappings : List (Nat × String)

namespace TwoPhaseQueryExecutor
variable {F : Type} (ops : FloatOps F) (hashes : WalHashes)

def cacheEntry (cache : CachedSkipIndexes F) (stored : StoredSkipIndex F) : CachedSkipIndexes F :=
  match stored.index with
  | some index =>
    cache.insert stored.blockId (((cache.lookup stored.blockId).getD ∅).insert stored.columnName index)
  | none => cache

def ensureSkipIndexesLoaded (e : TwoPhaseQueryExecutor F) (blockIds : List BlockId) :
    Except QueryError (TwoPhaseQueryExecutor F) :=
  let missing := blockIds.filter fun id => (e.skipIndexCache.lookup id).isNone
  if missing = [] then .ok e
  else do
    let stored ← e.loadSkipIndexesForBlocks missing
    .ok { e with skipIndexCache := stored.foldl cacheEntry e.skipIndexCache }

def cachedIndex (e : TwoPhaseQueryExecutor F) (id : BlockId) (column : String) : Option (BlockSkipIndex F) :=
  (e.skipIndexCache.lookup id).bind (·.lookup column)

/-- Whether a block may hold rows for a predicate. -/
def mightMatch (e : TwoPhaseQueryExecutor F) (p : Predicate) (id : BlockId) : Bool :=
  !p.op.canUseMinMax || ((e.cachedIndex id p.column).map fun index => checkSkipIndex ops hashes index p).getD true

/-- The candidates and the indexed columns after a predicate. -/
def eliminateBlocks (e : TwoPhaseQueryExecutor F) (found : List BlockId × List String) (p : Predicate) :
    List BlockId × List String :=
  if p.op.canUseMinMax then
    (found.1.filter (e.mightMatch ops hashes p),
      if found.1.any fun id => (e.cachedIndex id p.column).isSome then found.2.insert p.column else found.2)
  else found

def phase1BlockElimination (e : TwoPhaseQueryExecutor F) (predicates : List Predicate) :
    Except QueryError (BlockEliminationResult × TwoPhaseQueryExecutor F) :=
  let allBlocks := e.blockManager.getAllBlockIds
  if allBlocks = [] then .ok (⟨[], [], []⟩, e)
  else do
    let e ← e.ensureSkipIndexesLoaded allBlocks
    let (candidates, columns) := predicates.foldl (e.eliminateBlocks ops hashes) (allBlocks, [])
    .ok (⟨candidates, allBlocks.filter (· ∉ candidates), columns⟩, e)

/-- The values that are looked up for a predicate. -/
def lookupValues (p : Predicate) : List ColumnValue :=
  if p.op = .eq then p.value.toList else p.values

def collectPks (m : InvertedIndexManager) (column : String) (found : Finset Nat × Bool × List (Nat × String))
    (value : ColumnValue) : Finset Nat × Bool × List (Nat × String) :=
  match m.getMatchingPksWithStrings hashes column value with
  | some (pks, isString, mappings) =>
    (found.1 ∪ pks, found.2.1 || isString, if isString then found.2.2 ++ mappings else found.2.2)
  | none => found

def resolvePredicate (m : InvertedIndexManager) (r : PkResolution) (p : Predicate) : PkResolution :=
  if !p.op.canUseInvertedIndex || m.isHighCardinality p.column then { r with isComplete := false }
  else
    let (bitmap, hasStringPks, mappings) :=
      (lookupValues p).foldl (collectPks hashes m p.column) (∅, r.hasStringPks, r.allHashMappings)
    match r.resultBitmap with
    | none => ⟨some bitmap, r.isComplete, bitmap.card, hasStringPks, mappings⟩
    | some result => ⟨some (result ∩ bitmap), r.isComplete, r.initialPkCount, hasStringPks, mappings⟩

def originals (r : PkResolution) (id : Nat) : List String :=
  ((r.allHashMappings.filter (·.1 = id)).map (·.2)).dedup

def decodePk (r : PkResolution) (id : Nat) : List PrimaryKey :=
  if r.hasStringPks && originals r id ≠ [] then (originals r id).map .string else [.int64 (Int64.ofNat id)]

def phase2PkResolution (e : TwoPhaseQueryExecutor F) (predicates : List Predicate) (candidateBlocks : List BlockId) :
    PkResolutionResult :=
  if candidateBlocks = [] then ⟨[], true, 0⟩
  else
    let r := predicates.foldl (resolvePredicate hashes e.invertedIndexManager) ⟨none, true, 0, false, []⟩
    { matchingPks := ((r.resultBitmap.map fun bitmap => bitmap.sort (· ≤ ·)).getD []).flatMap (decodePk r)
      isComplete := r.isComplete
      initialPkCount := r.initialPkCount }

def execute (e : TwoPhaseQueryExecutor F) (predicates : List Predicate) :
    Except QueryError (List PrimaryKey × TwoPhaseQueryExecutor F) :=
  if predicates = [] then .error (.validation "At least one predicate is required for indexed query")
  else do
    let (elimination, e) ← e.phase1BlockElimination ops hashes predicates
    if elimination.candidateBlocks = [] then .ok ([], e)
    else .ok ((e.phase2PkResolution hashes predicates elimination.candidateBlocks).matchingPks, e)

end TwoPhaseQueryExecutor

end Reiver.Pond
