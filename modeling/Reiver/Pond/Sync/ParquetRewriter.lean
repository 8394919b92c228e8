import Reiver.Lib.Dict
import Reiver.Pond.Arrow
import Reiver.Pond.WalIndex.InvertedIndex

/-! # Rewriting Parquet files

The model of `parquet_rewriter.rs`: the changes of a log of events are applied to the rows of a file. A file is the
batch that was written to it; the reader gives no batch where there are no rows. What the libraries make of floats and
bytes is given (`CellCodec`). -/

namespace Reiver.Pond

inductive WalEventType where
  | insert
  | update
  | delete
deriving DecidableEq

structure WalEvent where
  eventType : WalEventType
  primaryKey : PrimaryKey
  columns : List (String × ColumnValue)

namespace ParquetRewriter

inductive CellValue where
  | null
  | bool (b : Bool)
  | int8 (v : Int8)
  | int16 (v : Int16)
  | int32 (v : Int32)
  | int64 (v : Int64)
  | uint8 (v : UInt8)
  | uint16 (v : UInt16)
  | uint32 (v : UInt32)
  | uint64 (v : UInt64)
  | float32 (bits : UInt32)
  | float64 (bits : UInt64)
  | string (s : String)
  | binary (b : List UInt8)
  | date32 (days : Int32)
  | timestamp (v : Int64)

def fromWal : ColumnValue → CellValue
  | .null => .null
  | .bool b => .bool b
  | .int64 v => .int64 v
  | .float64 bits => .float64 bits
  | .string s => .string s
  | .bytes b => .binary b
  | .timestamp millis => .timestamp millis

abbrev RowValues := Dict String CellValue

inductive ParquetChange where
  | insert (values : RowValues)
  | update (primaryKey : PrimaryKey) (newValues : RowValues)
  | delete (primaryKey : PrimaryKey)

def ParquetChange.inserted : ParquetChange → Option RowValues
  | .insert values => some values
  | _ => none

inductive ArrowError where
  | noColumns
  | columnCount
  | nullInNonNullable
  | columnType
deriving DecidableEq

inductive RewriteError where
  | schemaMismatch (message : String)
  | writeError (message : String)
  | arrow (e : ArrowError)
  | primaryKeyNotFound
deriving DecidableEq

/-- The bits of an integer or a narrow float as a wide one, and of bytes. -/
structure CellCodec where
  intAsFloat : Int64 → Nat
  widen : UInt32 → Nat
  bytes : List UInt8 → Nat

/-! ### New rows -/

def appendInt32 (field : Field) (v : Int64) : Except RewriteError Cell :=
  if Int32.minValue.toInt ≤ v.toInt ∧ v.toInt ≤ Int32.maxValue.toInt then .ok (some (.int v.toInt))
  else if field.nullable then .ok none
  else .error (.schemaMismatch ("Int64 value " ++ toString v.toInt ++ " out of range for non-nullable Int32 column "
    ++ field.name))

/-- What a builder appends for a value. A value of another kind, and any value of a type without a builder, is null. -/
def appendValue (codec : CellCodec) (field : Field) (value : Option CellValue) : Except RewriteError Cell :=
  match field.dataType, value with
  | .int64, some (.int64 v) => .ok (some (.int v.toInt))
  | .int32, some (.int32 v) => .ok (some (.int v.toInt))
  | .int32, some (.int64 v) => appendInt32 field v
  | .float64, some (.float64 bits) => .ok (some (.bits bits.toNat))
  | .float64, some (.float32 bits) => .ok (some (.bits (codec.widen bits)))
  | .float64, some (.int64 v) => .ok (some (.bits (codec.intAsFloat v)))
  | .utf8, some (.string s) => .ok (some (.text s))
  | .boolean, some (.bool b) => .ok (some (.bits b.toNat))
  | .timestamp _ _, some (.timestamp v) => .ok (some (.int v.toInt))
  | .timestamp _ _, some (.int64 v) => .ok (some (.int v.toInt))
  | .binary, some (.binary b) => .ok (some (.bits (codec.bytes b)))
  | _, _ => .ok none

/-- The type of the array that is built: builders of timestamps know no time zone. -/
def arrayType : DataType → DataType
  | .timestamp unit _ => .timestamp unit none
  | dt => dt

structure ArrayData where
  dataType : DataType
  cells : List Cell

/-- `RecordBatch::try_new`. -/
def tryNew (schema : Schema) (columns : List ArrayData) : Except ArrowError RecordBatch :=
  match columns.head? with
  | none => .error .noColumns
  | some first =>
    if h : columns.length = schema.length then
      if ∃ e ∈ schema.zip columns, e.1.nullable = false ∧ none ∈ e.2.cells then .error .nullInNonNullable
      else if ∃ e ∈ schema.zip columns, e.1.dataType ≠ e.2.dataType then .error .columnType
      else .ok {
        schema := schema
        rows := (List.range first.cells.length).map fun i => columns.map fun column => (column.cells[i]?).join
        wf := by
          intro row hrow
          obtain ⟨i, -, rfl⟩ := List.mem_map.mp hrow
          rw [List.length_map, h] }
    else .error .columnCount

def buildColumn (codec : CellCodec) (rows : List RowValues) (field : Field) : Except RewriteError ArrayData := do
  let cells ← rows.mapM fun row => appendValue codec field (row.lookup field.name)
  .ok ⟨arrayType field.dataType, cells⟩

def buildBatchFromValues (codec : CellCodec) (schema : Schema) (rows : List RowValues) :
    Except RewriteError RecordBatch :=
  if rows = [] then .error (.writeError "No rows to build")
  else do
    let columns ← schema.mapM (buildColumn codec rows)
    (tryNew schema columns).mapError .arrow

end ParquetRewriter

/-! ### The rewriter -/

structure ParquetRewriter where
  primaryKeyColumns : List String

namespace ParquetRewriter

def matchesSinglePk (dataType : DataType) (value : Value) : PrimaryKey → Bool
  | .int64 expected => dataType = .int64 && value = .int expected.toInt
  | .string expected => dataType = .utf8 && value = .text expected
  | .composite _ => false

def matchesAt (schema : Schema) (row : BatchRow) (column : Nat) (pk : PrimaryKey) : Bool :=
  match schema[column]?, (row[column]?).join with
  | some field, some value => matchesSinglePk field.dataType value pk
  | _, _ => false

def indexOf (schema : Schema) (name : String) : Except RewriteError Nat :=
  match schema.indexOf name with
  | some i => .ok i
  | none => .error .primaryKeyNotFound

def findRowByPk (r : ParquetRewriter) (batch : RecordBatch) (pk : PrimaryKey) : Except RewriteError (Option Nat) :=
  match r.primaryKeyColumns, pk with
  | [], _ => .error .primaryKeyNotFound
  | columns, .composite parts =>
    if parts.length ≠ columns.length then .error .primaryKeyNotFound
    else do
      let indices ← columns.mapM (indexOf batch.schema)
      .ok (batch.rows.findIdx? fun row => (parts.zip indices).all fun e => matchesAt batch.schema row e.2 e.1)
  | column :: _, pk => do
    let i ← indexOf batch.schema column
    .ok (batch.rows.findIdx? fun row => matchesAt batch.schema row i pk)

/-- What the changes come to for the rows of the file. -/
structure Collected where
  rowsToDelete : List Bool
  updates : List RowValues
  inserts : List RowValues

def collectChange (r : ParquetRewriter) (batch : RecordBatch) (s : Collected) :
    ParquetChange → Except RewriteError Collected
  | .delete pk => do
    match ← r.findRowByPk batch pk with
    | some i => .ok { s with rowsToDelete := s.rowsToDelete.set i true }
    | none => .ok s
  | .update pk newValues => do
    match ← r.findRowByPk batch pk with
    | some i => .ok { s with rowsToDelete := s.rowsToDelete.set i true, updates := s.updates ++ [newValues] }
    | none => .ok s
  | .insert values => .ok { s with inserts := s.inserts ++ [values] }

/-- `concat_batches` of two batches. -/
def concatBatches (schema : Schema) (a b : RecordBatch) : Except ArrowError RecordBatch :=
  if h : a.schema = schema ∧ b.schema = schema then
    .ok {
      schema := schema
      rows := a.rows ++ b.rows
      wf := by
        intro row hrow
        rcases List.mem_append.mp hrow with hrow | hrow
        · exact h.1 ▸ a.wf row hrow
        · exact h.2 ▸ b.wf row hrow }
  else .error .columnType

def applyChangesToBatch (r : ParquetRewriter) (codec : CellCodec) (batch : RecordBatch)
    (changes : List ParquetChange) : Except RewriteError RecordBatch := do
  let s ← changes.foldlM (r.collectChange batch) ⟨List.replicate batch.numRows false, [], []⟩
  let filtered := batch.filterRecordBatch (s.rowsToDelete.map (!·))
  let allNewRows := s.updates ++ s.inserts
  if allNewRows = [] then .ok filtered
  else do
    let newBatch ← buildBatchFromValues codec batch.schema allNewRows
    if filtered.numRows = 0 then .ok newBatch
    else (concatBatches batch.schema filtered newBatch).mapError .arrow

def applyChanges (r : ParquetRewriter) (codec : CellCodec) (file : RecordBatch) (changes : List ParquetChange) :
    Except RewriteError RecordBatch :=
  if file.rows = [] then
    let inserts := changes.filterMap ParquetChange.inserted
    if inserts.isEmpty then .ok file
    else .error (.schemaMismatch "Cannot insert into empty file without schema")
  else r.applyChangesToBatch codec file changes

def toValues (columns : List (String × ColumnValue)) : RowValues :=
  columns.foldl (fun values e => values.insert e.1 (fromWal e.2)) ∅

def walEventToChange (event : WalEvent) : Option ParquetChange :=
  match event.eventType with
  | .insert => some (.insert (toValues event.columns))
  | .update => some (.update event.primaryKey (toValues event.columns))
  | .delete => some (.delete event.primaryKey)

def applyWalEvents (r : ParquetRewriter) (codec : CellCodec) (file : RecordBatch) (events : List WalEvent) :
    Except RewriteError RecordBatch :=
  let changes := events.filterMap walEventToChange
  if changes.isEmpty then .ok file else r.applyChanges codec file changes

end ParquetRewriter

end Reiver.Pond
