import Mathlib.Algebra.Order.Ring.Int
import Mathlib.Data.List.Basic

/-! # Record batches

The part of Arrow the sync path uses: typed columns, rows of nullable cells, and the kernels that filter,
slice and read them. A batch is kept by rows; every row has one cell for each field of the schema. -/

namespace Reiver.Pond

inductive TimeUnit where
  | second
  | millisecond
  | microsecond
  | nanosecond
deriving DecidableEq

inductive DataType where
  | boolean
  | int8
  | int16
  | int32
  | int64
  | uint8
  | uint16
  | uint32
  | uint64
  | float16
  | float32
  | float64
  | utf8
  | largeUtf8
  | binary
  | largeBinary
  | date32
  | date64
  | timestamp (unit : TimeUnit) (tz : Option String)
  | decimal128 (precision scale : Int)
  | decimal256 (precision scale : Int)
  | other (name : String)
deriving DecidableEq

/-- A value: an integer for the types stored as one (times and dates included), a text, or the bits of
    anything else. -/
inductive Value where
  | int (i : Int)
  | text (s : String)
  | bits (n : Nat)
deriving DecidableEq

abbrev Cell := Option Value

structure Field where
  name : String
  dataType : DataType
  nullable : Bool
deriving DecidableEq

abbrev Schema := List Field

def Schema.indexOf (schema : Schema) (name : String) : Option Nat := schema.findIdx? (·.name = name)

abbrev BatchRow := List Cell

structure RecordBatch where
  schema : Schema
  rows : List BatchRow
  wf : ∀ row ∈ rows, row.length = schema.length
deriving DecidableEq

namespace RecordBatch

def numRows (b : RecordBatch) : Nat := b.rows.length

/-- `filter_record_batch`. -/
def filterRecordBatch (b : RecordBatch) (mask : List Bool) : RecordBatch where
  schema := b.schema
  rows := ((b.rows.zip mask).filter (·.2)).map (·.1)
  wf row hrow := by
    obtain ⟨e, he, rfl⟩ := List.mem_map.mp hrow
    exact b.wf e.1 (List.of_mem_zip (List.mem_filter.mp he).1).1

def slice (b : RecordBatch) (offset len : Nat) : RecordBatch where
  schema := b.schema
  rows := (b.rows.drop offset).take len
  wf row hrow := b.wf row (List.mem_of_mem_drop (List.mem_of_mem_take hrow))

theorem filterRecordBatch_map (b : RecordBatch) (p : BatchRow → Bool) :
    (b.filterRecordBatch (b.rows.map p)).rows = b.rows.filter p := by
  show ((b.rows.zip (b.rows.map p)).filter (·.2)).map (·.1) = b.rows.filter p
  generalize b.rows = rows
  induction rows with
  | nil => rfl
  | cons row rows ih =>
    rw [List.map_cons, List.zip_cons_cons, List.filter_cons, List.filter_cons]
    split
    · rw [List.map_cons, ih]
    · exact ih

end RecordBatch

/-- A typed value by column name, `none` where the column is missing or the cell is null. -/
abbrev RowView := String → Option (DataType × Value)

def rowView (schema : Schema) (row : BatchRow) : RowView := fun name =>
  (schema.indexOf name).bind fun i =>
    (schema[i]?).bind fun field => (row[i]?).join.map fun v => (field.dataType, v)

/-- What a function makes of the rows of some batches, in order. -/
def rowsBy {β : Type} (f : Schema → BatchRow → β) (batches : List RecordBatch) : List β :=
  batches.flatMap fun b => b.rows.map (f b.schema)

section RowsBy
variable {β : Type} {f : Schema → BatchRow → β}

theorem rowsBy_nil : rowsBy f [] = [] := rfl

theorem rowsBy_cons (b : RecordBatch) (batches : List RecordBatch) :
    rowsBy f (b :: batches) = b.rows.map (f b.schema) ++ rowsBy f batches := rfl

theorem rowsBy_append (batches batches' : List RecordBatch) :
    rowsBy f (batches ++ batches') = rowsBy f batches ++ rowsBy f batches' := by
  rw [rowsBy, List.flatMap_append]
  rfl

theorem rowsBy_singleton (b : RecordBatch) : rowsBy f [b] = b.rows.map (f b.schema) := by
  rw [rowsBy_cons, rowsBy_nil, List.append_nil]

theorem mem_rowsBy {a : β} {batches : List RecordBatch} :
    a ∈ rowsBy f batches ↔ ∃ b ∈ batches, ∃ row ∈ b.rows, f b.schema row = a := by
  simp only [rowsBy, List.mem_flatMap, List.mem_map]

end RowsBy

/-- The rows of some batches, by column name. -/
def views (batches : List RecordBatch) : List RowView :=
  batches.flatMap fun b => b.rows.map (rowView b.schema)

section Views
variable {batches batches' : List RecordBatch}

@[simp] theorem views_nil : views [] = [] := rfl

@[simp] theorem views_cons (b : RecordBatch) (batches : List RecordBatch) :
    views (b :: batches) = b.rows.map (rowView b.schema) ++ views batches := rfl

@[simp] theorem views_append : views (batches ++ batches') = views batches ++ views batches' := by
  rw [views, List.flatMap_append]
  rfl

theorem views_filter_rows (batches : List RecordBatch) : views (batches.filter (·.rows ≠ [])) = views batches := by
  induction batches with
  | nil => rfl
  | cons b batches ih =>
    rw [List.filter_cons]
    split
    · rw [views_cons, views_cons, ih]
    · next h =>
      have hb : b.rows = [] := by simpa using h
      rw [views_cons, hb, List.map_nil, List.nil_append, ih]

end Views

def Uniform (schema : Schema) (batches : List RecordBatch) : Prop := ∀ b ∈ batches, b.schema = schema

/-- Batches of the same columns, with whatever rows. -/
def SameColumns (batches batches' : List RecordBatch) : Prop := batches.map (·.schema) = batches'.map (·.schema)

/-- What the Arrow and Parquet libraries decide: the display of a value, the memory a batch is charged with,
    and the floating-point estimate of the rows of `rows` that fit `target` of `size` bytes. -/
structure ArrowEnv where
  fmt : DataType → Value → Option String
  arrayMemorySize : RecordBatch → Nat
  rowsPerChunk : (rows target size : Nat) → Nat

end Reiver.Pond
