import Reiver.Lib.Upsert
import Reiver.Pond.Arrow

/-! # Merging by primary key

The model of `sync/merge.rs`. A merge is an update by key of the rows seen by column name
(`mergeBatchesByPk_spec`): rows are compared by the keys the code encodes for them, and two rows are the same
when their cells agree by name, up to the metadata columns that are stripped from stored files. -/

namespace Reiver.Pond

inductive MergeError where
  | pkMissingFromNew (columns : List String)
  | pkMissingFromExisting (columns : List String)
  | unsupportedArrayType (dataType : DataType)
  | columnOutOfBounds (idx : Nat)
  | schemaMismatch (column : String) (existing new : DataType)
  | projectFailed
deriving DecidableEq

/-! ### Keys -/

def nullSentinel : String := "\x00"

def stableTypeTag : DataType → String
  | .boolean => "Bool"
  | .int8 => "I8"
  | .int16 => "I16"
  | .int32 => "I32"
  | .int64 => "I64"
  | .uint8 => "U8"
  | .uint16 => "U16"
  | .uint32 => "U32"
  | .uint64 => "U64"
  | .float16 => "F16"
  | .float32 => "F32"
  | .float64 => "F64"
  | .utf8 | .largeUtf8 => "S"
  | .binary | .largeBinary => "B"
  | .date32 => "D32"
  | .date64 => "D64"
  | .timestamp _ _ => "TS"
  | .decimal128 _ _ => "Dec128"
  | .decimal256 _ _ => "Dec256"
  | .other _ => "Other"

/-- `cell_to_string` of a cell that is not null. -/
def valueToString (env : ArrowEnv) : DataType → Value → Except MergeError String
  | .int64, .int i => .ok (stableTypeTag .int64 ++ ":" ++ toString i)
  | .utf8, .text s => .ok (stableTypeTag .utf8 ++ ":" ++ s)
  | dataType, v =>
    match env.fmt dataType v with
    | some s => .ok (stableTypeTag dataType ++ ":" ++ s)
    | none => .error (.unsupportedArrayType dataType)

def cellToString (env : ArrowEnv) (dataType : DataType) : Cell → Except MergeError String
  | none => .ok nullSentinel
  | some v => valueToString env dataType v

/-- One component of a key: a marker, and for a value its length in bytes and its text. -/
def pkComponent (env : ArrowEnv) : Option (DataType × Value) → Except MergeError String
  | none => .ok "\x00"
  | some (dataType, v) => do
    let val ← cellToString env dataType (some v)
    .ok ("\x01" ++ toString val.utf8ByteSize ++ ":" ++ val)

/-- The components of a composite key are separated by `\x1F`. -/
def buildPkKey (env : ArrowEnv) (pkCols : List (Option (DataType × Value))) : Except MergeError String := do
  let components ← pkCols.mapM (pkComponent env)
  .ok ("\x1F".intercalate components)

/-- `batch.column(idx)`: a column past the schema is a panic. -/
def column (schema : Schema) (idx : Nat) : Except MergeError Field :=
  match schema[idx]? with
  | some field => .ok field
  | none => .error (.columnOutOfBounds idx)

def columnCell (schema : Schema) (row : BatchRow) (idx : Nat) : Except MergeError (Option (DataType × Value)) := do
  let field ← column schema idx
  .ok ((row[idx]?).join.map fun v => (field.dataType, v))

def rowKey (env : ArrowEnv) (schema : Schema) (pkIndices : List Nat) (row : BatchRow) : Except MergeError String := do
  let cells ← pkIndices.mapM (columnCell schema row)
  buildPkKey env cells

/-- The keys of the rows of a batch. The key columns are taken before the rows are looked at. -/
def batchKeys (env : ArrowEnv) (pkIndices : List Nat) (b : RecordBatch) : Except MergeError (List String) := do
  let _ ← pkIndices.mapM (column b.schema)
  b.rows.mapM (rowKey env b.schema pkIndices)

/-- The positions of the key columns, all of which must be there. -/
def resolvePk (missing : List String → MergeError) (schema : Schema) (pkColumns : List String) :
    Except MergeError (List Nat) :=
  let missingColumns := pkColumns.filter fun name => schema.indexOf name = none
  if missingColumns ≠ [] then .error (missing missingColumns) else .ok (pkColumns.filterMap schema.indexOf)

/-! ### Schemas -/

/-- Adds a field of some batch to the unified schema. -/
def addField (batches : List RecordBatch) (fields : Schema) (field : Field) : Except MergeError Schema :=
  match fields.find? (·.name = field.name) with
  | some existing =>
    if existing.dataType ≠ field.dataType then .error (.schemaMismatch field.name existing.dataType field.dataType)
    else if field.nullable ∧ ¬existing.nullable then
      .ok (fields.map fun f => if f.name = field.name then { f with nullable := true } else f)
    else .ok fields
  | none =>
    -- A field that is missing from some batch must be nullable.
    if batches.all fun b => (Schema.indexOf b.schema field.name).isSome then .ok (fields ++ [field])
    else .ok (fields ++ [{ field with nullable := true }])

def unifyBatchSchemas (batches : List RecordBatch) : Except MergeError Schema :=
  (batches.flatMap (·.schema)).foldlM (addField batches) []

/-- The cells of a row in the order of another schema, null where the row has none. -/
def projectRow (source target : Schema) (row : BatchRow) : BatchRow :=
  target.map fun field => (source.indexOf field.name).bind fun i => (row[i]?).join

/-- The checks of `RecordBatch::try_new` on the columns of a projection. -/
def projectable (b : RecordBatch) (target : Schema) : Bool :=
  target.all fun field =>
    match Schema.indexOf b.schema field.name with
    | some i =>
      (b.schema[i]?).any (·.dataType = field.dataType) &&
        (field.nullable || b.rows.all fun row => (row[i]?).join.isSome)
    | none => field.nullable || b.rows.isEmpty

def projectBatchToSchema (b : RecordBatch) (target : Schema) : Except MergeError RecordBatch :=
  if projectable b target then
    .ok {
      schema := target
      rows := b.rows.map (projectRow b.schema target)
      wf := fun row hrow => by
        obtain ⟨row', -, rfl⟩ := List.mem_map.mp hrow
        exact List.length_map _ }
  else .error .projectFailed

/-- Batches of different schema versions are projected to one. -/
def reconcileSchemas (result : List RecordBatch) : Except MergeError (List RecordBatch) :=
  match result with
  | [] => .ok []
  | first :: rest =>
    if rest.any (·.schema ≠ first.schema) then do
      let unified ← unifyBatchSchemas result
      result.mapM (projectBatchToSchema · unified)
    else .ok result

def metaCols : List String := ["_dh_sync_version", "_dh_op", "_dh_last_op"]

def isMeta (name : String) : Bool := metaCols.contains name

/-- Keeps the cells of the fields that are no metadata. -/
def stripRow (schema : Schema) (row : BatchRow) : BatchRow :=
  ((schema.zip row).filter fun e => !isMeta e.1.name).map (·.2)

def stripBatch (b : RecordBatch) : RecordBatch :=
  if b.schema.any (isMeta ·.name) then {
    schema := b.schema.filter fun field => !isMeta field.name
    rows := b.rows.map (stripRow b.schema)
    wf := fun row hrow => by
      obtain ⟨row', hrow', rfl⟩ := List.mem_map.mp hrow
      have hlen : b.schema.length ≤ row'.length := Nat.le_of_eq (b.wf row' hrow').symm
      have hfst : (b.schema.zip row').map Prod.fst = b.schema := List.map_fst_zip hlen
      conv => rhs; rw [← hfst]
      rw [stripRow, List.length_map, List.filter_map, List.length_map]
      rfl }
  else b

def stripMetadataColumns (batches : List RecordBatch) : List RecordBatch := batches.map stripBatch

/-! ### Merging -/

/-- The last position of every key in the new batches. -/
def seenPks (newBatchKeys : List (List String)) : Dict String (Nat × Nat) :=
  (newBatchKeys.zipIdx.flatMap fun (keys, batchIdx) => keys.zipIdx.map fun (key, row) => (key, (batchIdx, row))).foldl
    (fun seen e => seen.insert e.1 e.2) ∅

def mergeBatchesByPk (env : ArrowEnv) (existing new : List RecordBatch) (pkColumns : List String) :
    Except MergeError (List RecordBatch) :=
  if pkColumns = [] then .ok (existing ++ new)
  else
    match new with
    | [] => .ok existing
    | firstNew :: _ => do
      let newPkIndices ← resolvePk .pkMissingFromNew firstNew.schema pkColumns
      let pkIndices ←
        match existing with
        | [] => .ok []
        | firstExisting :: _ => resolvePk .pkMissingFromExisting firstExisting.schema pkColumns
      let newBatchKeys ← new.mapM (batchKeys env newPkIndices)
      let seen := seenPks newBatchKeys
      let kept ← existing.mapM fun b => do
        let keys ← batchKeys env pkIndices b
        .ok (b.filterRecordBatch (keys.map fun key => !(seen.lookup key).isSome))
      let deduped := (new.zip newBatchKeys).zipIdx.map fun ((b, keys), batchIdx) =>
        b.filterRecordBatch (keys.zipIdx.map fun (key, row) => seen.lookup key = some (batchIdx, row))
      reconcileSchemas ((kept ++ deduped).filter (·.rows ≠ []))

end Reiver.Pond
