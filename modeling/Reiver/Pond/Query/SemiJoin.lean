import Mathlib.Data.List.Sort
import Reiver.Lib.Joins
import Reiver.Pond.Query.Literals

/-! # The semi-join

The model of `query/semi_join.rs`: the probe query runs, its keys filter the build side, by an IN clause or by a Bloom
filter, and the two results are joined in memory by a hash table of canonical keys. Every row of the result is kept with
the rows it is made of. -/

namespace Reiver.Pond

/-! ### Values -/

inductive JsonNumber (F : Type) where
  | posInt (n : Nat)
  | negInt (i : Int)
  | float (f : F)
deriving DecidableEq

inductive Json (F : Type) where
  | null
  | bool (b : Bool)
  | number (n : JsonNumber F)
  | string (s : String)
  | other (text : String)
deriving DecidableEq

/-- Floats: their value, how Rust and JSON print them, and how a JSON number is read. -/
structure Numbers (F : Type) where
  value : F → Rat
  display : F → String
  text : F → String
  parse : String → Option (JsonNumber F)

variable {F : Type} (N : Numbers F)

def JsonNumber.value : JsonNumber F → Rat
  | posInt n => n
  | negInt i => i
  | float f => N.value f

def JsonNumber.toText : JsonNumber F → String
  | posInt n => toString n
  | negInt i => toString i
  | float f => N.text f

def normalizeNumber : JsonNumber F → String
  | .posInt n => toString n
  | .negInt i => toString i
  | .float f => N.display f

def valueToRawKey : Json F → Option String
  | .null => none
  | .string s => some s
  | .number n => some (n.toText N)
  | .bool b => some (if b then "1" else "0")
  | .other text => some text

def couldBeNumeric (s : String) : Bool := s.toList.head?.any fun c => c.isDigit || isSign c || c = '.'

def valueToKey : Json F → Option String
  | .null => none
  | .string s =>
    if couldBeNumeric s then
      match N.parse s with
      | some n => some (normalizeNumber N n)
      | none => some s
    else some s
  | .number n => some (normalizeNumber N n)
  | .bool b => some (if b then "1" else "0")
  | .other text => some text

/-! ### Results -/

structure ColumnInfo where
  name : String
  dataType : String
  nullable : Bool

abbrev QueryRow (F : Type) := List (Json F)

structure QueryResult (F : Type) where
  columns : List ColumnInfo
  rows : List (QueryRow F)
  rowCount : Nat
  truncated : Bool

def position (columns : List ColumnInfo) (name : String) : Option Nat := columns.findIdx? (·.name = name)

/-- What is left without the element at an index, if there is one. -/
def dropAt {α : Type} : Option Nat → List α → List α
  | some i, l => l.eraseIdx i
  | none, l => l

inductive JoinType where
  | inner
  | left
  | right
  | full
  | cross
deriving DecidableEq

def JoinType.debug : JoinType → String
  | inner => "Inner"
  | left => "Left"
  | right => "Right"
  | full => "Full"
  | cross => "Cross"

inductive SemiJoinError where
  | probeQueryFailed (e : String)
  | buildQueryFailed (e : String)
  | keyColumnNotFound (column : String)
  | joinFailed (message : String)
  | tooManyKeys (keys limit : Nat)
  | bloomFilterError (e : String)
  | unsupportedJoin (message : String)
deriving DecidableEq

/-! ### The Bloom filter -/

def minBloomBits : Nat := 64
def maxHashFunctions : Nat := 16
def maxBloomBits : Nat := 128 * 1024 * 1024 * 8
def maxBloomBytes : Nat := 1024 * 1024

/-- The two hashes of a key, and the sizes that are computed for a number of keys at its false positive rate. -/
structure Hashing where
  h1 : String → Nat
  h2 : String → Nat
  numBits : Nat → Nat
  numHashes : Nat → Nat → Nat

structure BloomFilter where
  bits : List Bool
  numHashes : Nat
  numBits : Nat
  pos : 0 < numBits
  fits : numBits ≤ bits.length

def setBits (bits : List Bool) (indices : List Nat) : List Bool := indices.foldl (fun bits i => bits.set i true) bits

@[simp] theorem length_setBits (bits : List Bool) (indices : List Nat) :
    (setBits bits indices).length = bits.length := by
  induction indices generalizing bits with
  | nil => rfl
  | cons i indices ih => exact (ih _).trans List.length_set

namespace BloomFilter
variable (H : Hashing)

def new (expectedItems : Nat) : BloomFilter :=
  let expectedItems := max expectedItems 1
  let numBits := min (max (H.numBits expectedItems) minBloomBits) maxBloomBits
  let numHashes := min (max (H.numHashes numBits expectedItems) 1) maxHashFunctions
  { bits := List.replicate ((numBits + 7) / 8 * 8) false, numHashes, numBits
    pos := lt_min (lt_max_of_lt_right (by decide)) (by decide)
    fits := by rw [List.length_replicate]; omega }

/-- The bits of a key, by double hashing in 64 bits. -/
def indices (f : BloomFilter) (key : String) : List Nat :=
  (List.range f.numHashes).map fun i => (H.h1 key + i * H.h2 key) % 2 ^ 64 % f.numBits

def insert (f : BloomFilter) (key : String) : BloomFilter :=
  { f with bits := setBits f.bits (f.indices H key), fits := by rw [length_setBits]; exact f.fits }

def mightContain (f : BloomFilter) (key : String) : Bool := (f.indices H key).all fun i => f.bits.getD i false

def sizeBytes (f : BloomFilter) : Nat := f.bits.length / 8

def fromKeys (keys : List String) : Except SemiJoinError BloomFilter :=
  let filter := new H keys.dedup.length
  if filter.sizeBytes > maxBloomBytes then
    .error (.bloomFilterError
      ("Filter too large: " ++ toString filter.sizeBytes ++ " bytes exceeds maximum " ++ toString maxBloomBytes))
  else .ok (keys.dedup.foldl (insert H) filter)

end BloomFilter

/-! ### The executor -/

structure FederationConfig where
  semiJoinInClauseLimit : Nat := 10000
  semiJoinBloomLimit : Nat := 1000000
  enableBloomPushdown : Bool := true

structure SemiJoinReduction where
  probeKeyColumn : String
  buildKeyColumn : String
  maxKeysForInClause : Nat
  joinType : JoinType

/-- The build side: what its base query returns, when its database takes a value for equal to a literal, and whether the
    base query is parsed, the filtered query runs and the schema query runs. -/
structure BuildSource (F : Type) where
  answer : QueryResult F
  equals : SqlValue → Json F → Bool
  parseError : Option String := none
  queryError : Option String := none
  schemaFails : Bool := false

structure SemiJoinEnv (F : Type) where
  numbers : Numbers F
  hashing : Hashing
  chTypeIsNumeric : String → Bool

/-- The rows of a result, each with the probe row and the build row that it is made of. -/
structure JoinedResult (F : Type) where
  columns : List ColumnInfo
  entries : List ((QueryRow F × Option (QueryRow F)) × QueryRow F)
  truncated : Bool

def JoinedResult.toQueryResult (r : JoinedResult F) : QueryResult F where
  columns := r.columns
  rows := r.entries.map (·.2)
  rowCount := r.entries.length
  truncated := r.truncated

/-- The columns but the key, or none when the schema query fails. -/
def fetchBuildColumnMetadata (source : BuildSource F) (buildKeyColumn : String) : List ColumnInfo :=
  if source.schemaFails then []
  else dropAt (position source.answer.columns buildKeyColumn) source.answer.columns

def findColumn (columns : List ColumnInfo) (name : String) : Except SemiJoinError Nat :=
  match position columns name with
  | some i => .ok i
  | none => .error (.keyColumnNotFound name)

def extractKeys (result : QueryResult F) (columnName : String) : Except SemiJoinError (List String) := do
  let i ← findColumn result.columns columnName
  return ((result.rows.filterMap fun row => row[i]?.bind (valueToRawKey N)).dedup).insertionSort (· ≤ ·)

inductive BuildFilter where
  | inClause (list : List SqlValue)
  | clientSide (filter : BloomFilter)

def BuildFilter.passes (env : SemiJoinEnv F) (source : BuildSource F) : BuildFilter → Json F → Bool
  | inClause list, v => list.any fun literal => source.equals literal v
  | clientSide filter, v => (valueToRawKey env.numbers v).any (filter.mightContain env.hashing)

def chooseFilter (env : SemiJoinEnv F) (config : FederationConfig) (strategy : SemiJoinReduction)
    (source : BuildSource F) (keys : List String) (isNumericType : Bool) : Except SemiJoinError BuildFilter :=
  let inLimit := min strategy.maxKeysForInClause config.semiJoinInClauseLimit
  if keys.length ≤ inLimit then
    match source.parseError with
    | some e => .error (.joinFailed ("failed to parse base query: " ++ e))
    | none => .ok (.inClause (keys.map fun k => keyToExpr k isNumericType))
  else if config.enableBloomPushdown && keys.length ≤ config.semiJoinBloomLimit then
    (BloomFilter.fromKeys env.hashing keys).map .clientSide
  else
    .error (.tooManyKeys keys.length (if config.enableBloomPushdown then config.semiJoinBloomLimit else inLimit))

/-- The type of the probe key decides how the keys are quoted. -/
def isNumericKey (env : SemiJoinEnv F) (columns : List ColumnInfo) (name : String) : Bool :=
  (columns.find? (·.name = name)).any fun c => env.chTypeIsNumeric c.dataType

/-- What the filtered build query returns, and what the client-side filter retains of it. -/
def filteredBuild (env : SemiJoinEnv F) (source : BuildSource F) (buildKeyColumn : String) (filter : BuildFilter) :
    Except SemiJoinError (QueryResult F) :=
  match source.queryError with
  | some e => .error (.buildQueryFailed e)
  | none => do
    let i ← findColumn source.answer.columns buildKeyColumn
    let rows := source.answer.rows.filter fun row => row[i]?.any (filter.passes env source)
    return { source.answer with rows, rowCount := rows.length }

def nullPaddedRow (probeRow : QueryRow F) (buildColumns : List ColumnInfo) (buildKeyIdx : Nat) : QueryRow F :=
  probeRow ++ (buildColumns.eraseIdx buildKeyIdx).map fun _ => .null

def joinedRow (buildColumns : List ColumnInfo) (buildKeyIdx : Nat) : QueryRow F × Option (QueryRow F) → QueryRow F
  | (probeRow, some buildRow) => probeRow ++ buildRow.eraseIdx buildKeyIdx
  | (probeRow, none) => nullPaddedRow probeRow buildColumns buildKeyIdx

def joinResults (probe build : QueryResult F) (probeKeyCol buildKeyCol : String) (joinType : JoinType) :
    Except SemiJoinError (JoinedResult F) := do
  let probeKeyIdx ← findColumn probe.columns probeKeyCol
  let buildKeyIdx ← findColumn build.columns buildKeyCol
  if joinType ≠ .inner ∧ joinType ≠ .left then
    .error (.unsupportedJoin (joinType.debug ++ " join is not supported for cross-database semi-joins"))
  else
    let keyOf (i : Nat) (row : QueryRow F) := row[i]?.bind (valueToKey N)
    let pairs := hashJoin (joinType = .left) (keyOf probeKeyIdx) (keyOf buildKeyIdx) probe.rows build.rows
    return {
      columns := probe.columns ++ build.columns.eraseIdx buildKeyIdx
      entries := pairs.map fun pair => (pair, joinedRow build.columns buildKeyIdx pair)
      truncated := probe.truncated || build.truncated }

/-- Without keys nothing matches, and the build query is not run. -/
def joinWithoutKeys (probe : QueryResult F) (buildColumns : List ColumnInfo) (joinType : JoinType) :
    JoinedResult F :=
  if joinType = .left ∧ probe.rows ≠ [] then
    { columns := probe.columns ++ buildColumns
      entries := probe.rows.map fun row => ((row, none), row ++ List.replicate buildColumns.length .null)
      truncated := probe.truncated }
  else { columns := probe.columns ++ buildColumns, entries := [], truncated := false }

def semiJoin (env : SemiJoinEnv F) (config : FederationConfig) (strategy : SemiJoinReduction)
    (probe : Except String (QueryResult F)) (source : BuildSource F) : Except SemiJoinError (JoinedResult F) := do
  let probeResult ← probe.mapError .probeQueryFailed
  let keys ← extractKeys env.numbers probeResult strategy.probeKeyColumn
  if keys.isEmpty then
    return joinWithoutKeys probeResult (fetchBuildColumnMetadata source strategy.buildKeyColumn) strategy.joinType
  let filter ← chooseFilter env config strategy source keys
    (isNumericKey env probeResult.columns strategy.probeKeyColumn)
  let buildResult ← filteredBuild env source strategy.buildKeyColumn filter
  joinResults env.numbers probeResult buildResult strategy.probeKeyColumn strategy.buildKeyColumn strategy.joinType

def executeSemiJoin (env : SemiJoinEnv F) (config : FederationConfig) (strategy : SemiJoinReduction)
    (probe : Except String (QueryResult F)) (source : BuildSource F) : Except SemiJoinError (QueryResult F) :=
  (semiJoin env config strategy probe source).map (·.toQueryResult)

/-! ### The join in SQL -/

/-- When two values are equal in SQL. What values of different kinds are is left open. -/
def sqlEq (mixed : Json F → Json F → Bool) : Json F → Json F → Bool
  | .null, _ => false
  | _, .null => false
  | .string s, .string t => s = t
  | .number m, .number n => m.value N = n.value N
  | .bool a, .bool b => a = b
  | v, w => mixed v w

/-- Values that are of different kinds, or whose kind has no equality of its own. -/
def mixedKinds : Json F → Json F → Bool
  | .null, _ => false
  | _, .null => false
  | .string _, .string _ => false
  | .number _, .number _ => false
  | .bool _, .bool _ => false
  | _, _ => true

def keyAt (columns : List ColumnInfo) (name : String) (row : QueryRow F) : Json F :=
  ((position columns name).bind (row[·]?)).getD .null

/-- The row of a pair: the columns of the build side but its key follow those of the probe side. -/
def sqlRow (build : QueryResult F) (buildKeyColumn : String) : QueryRow F × Option (QueryRow F) → QueryRow F
  | (probeRow, some buildRow) => probeRow ++ dropAt (position build.columns buildKeyColumn) buildRow
  | (probeRow, none) =>
    probeRow ++ (dropAt (position build.columns buildKeyColumn) build.columns).map fun _ => .null

/-- The rows of the equi-join of two results, each with the rows it is made of. -/
def equiJoin (mixed : Json F → Json F → Bool) (strategy : SemiJoinReduction) (probe build : QueryResult F) :
    List ((QueryRow F × Option (QueryRow F)) × QueryRow F) :=
  (join (strategy.joinType = .left)
    (fun p b => sqlEq N mixed (keyAt probe.columns strategy.probeKeyColumn p)
      (keyAt build.columns strategy.buildKeyColumn b)) probe.rows build.rows).map
    fun pair => (pair, sqlRow build strategy.buildKeyColumn pair)

end Reiver.Pond
