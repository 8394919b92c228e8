import Mathlib.Data.List.Sort
import Reiver.Lib.Dict
import Reiver.Pond.Arrow

/-! # Batches on the write path

The model of `partition_batches_by_date`, `extract_date_from_row` and `split_batches_by_size` of
`sync_executor.rs`. A date is its number of days since the epoch. -/

namespace Reiver.Pond

abbrev NaiveDate := Int

/-- The dates `chrono` represents, from -262143-01-01 to 262142-12-31. -/
def NaiveDate.ofDays? (days : Int) : Option NaiveDate :=
  if -96465293 ≤ days ∧ days ≤ 95026236 then some days else none

def secondsPerDay : Int := 86400

def TimeUnit.perSecond : TimeUnit → Int
  | .second => 1
  | .millisecond => 1000
  | .microsecond => 1000000
  | .nanosecond => 1000000000

/-- The first column a table is partitioned by. -/
def isDateType : DataType → Bool
  | .timestamp _ _ | .date32 | .date64 => true
  | _ => false

def timestampColumn (schema : Schema) : Option Nat := schema.findIdx? (isDateType ·.dataType)

/-- The date of a cell of a date column; none for null and for dates out of range. -/
def extractDate : DataType → Cell → Option NaiveDate
  | .timestamp unit _, some (.int v) => NaiveDate.ofDays? (v / (unit.perSecond * secondsPerDay))
  | .date32, some (.int v) => NaiveDate.ofDays? v
  | .date64, some (.int v) => NaiveDate.ofDays? (v / (1000 * secondsPerDay))
  | _, _ => none

def extractDateFromRow (schema : Schema) (colIdx : Nat) (row : BatchRow) : Option NaiveDate :=
  (schema[colIdx]?).bind fun field => extractDate field.dataType (row[colIdx]?).join

/-! ### Buckets by date -/

def pushBucket (buckets : Dict NaiveDate (List RecordBatch)) (date : NaiveDate) (batch : RecordBatch) :
    Dict NaiveDate (List RecordBatch) :=
  buckets.insert date ((buckets.lookup date).getD [] ++ [batch])

/-- A batch of one date goes to its bucket whole, a batch of several is split. -/
def bucketBatch (today : NaiveDate) (idx : Nat) (buckets : Dict NaiveDate (List RecordBatch)) (batch : RecordBatch) :
    Dict NaiveDate (List RecordBatch) :=
  let rowDates := batch.rows.map fun row => (extractDateFromRow batch.schema idx row).getD today
  match rowDates.dedup with
  | [date] => pushBucket buckets date batch
  | dates => dates.foldl (fun buckets date =>
      pushBucket buckets date (batch.filterRecordBatch (rowDates.map (· = date)))) buckets

/-- The buckets in the order of their dates. `today` stands in for a missing date. -/
def partitionBatchesByDate (today : NaiveDate) (batches : List RecordBatch) : List (NaiveDate × List RecordBatch) :=
  match batches with
  | [] => []
  | first :: _ =>
    match timestampColumn first.schema with
    | some idx => (batches.foldl (bucketBatch today idx) ∅).pairs.insertionSort fun a b => a.1 ≤ b.1
    | none => [(today, batches)]

/-! ### Files by size -/

def targetFileSizeBytes : Nat := 200 * 1024 * 1024

/-- The chunks closed so far, the open chunk and its size. -/
structure Chunking where
  chunks : List (List RecordBatch) := []
  current : List RecordBatch := []
  size : Nat := 0

def Chunking.flush (c : Chunking) : Chunking :=
  if c.current ≠ [] then { chunks := c.chunks ++ [c.current] } else c

def Chunking.push (env : ArrowEnv) (target : Nat) (c : Chunking) (batch : RecordBatch) : Chunking :=
  let c := if c.current ≠ [] ∧ c.size + env.arrayMemorySize batch > target then c.flush else c
  { c with current := c.current ++ [batch], size := c.size + env.arrayMemorySize batch }

/-- Slices of `len` rows from `offset` on; the fuel is the number of rows. -/
def slicesFrom (batch : RecordBatch) (len : Nat) : Nat → Nat → List RecordBatch
  | 0, _ => []
  | fuel + 1, offset =>
    if offset < batch.numRows then
      batch.slice offset (min (batch.numRows - offset) len) :: slicesFrom batch len fuel (offset + len)
    else []

/-- A batch past the target is split at the row level. -/
def splitBatch (env : ArrowEnv) (target : Nat) (c : Chunking) (batch : RecordBatch) : Chunking :=
  let batchSize := env.arrayMemorySize batch
  if batchSize > target ∧ batch.numRows > 1 then
    let rowsPerChunk := max (env.rowsPerChunk batch.numRows target batchSize) 1
    (slicesFrom batch rowsPerChunk batch.numRows 0).foldl (·.push env target) c.flush
  else c.push env target batch

def splitBatchesBySize (env : ArrowEnv) (batches : List RecordBatch) (target : Nat) : List (List RecordBatch) :=
  let chunks := (batches.foldl (splitBatch env target) {}).flush.chunks
  if chunks = [] ∧ batches ≠ [] then [batches] else chunks

/-! ### What splitting keeps -/

section Split
variable {env : ArrowEnv} {target : Nat} {schema : Schema} {β : Type} {f : Schema → BatchRow → β}

def Chunking.batches (c : Chunking) : List RecordBatch := c.chunks.flatten ++ c.current

theorem flush_batches (c : Chunking) : c.flush.batches = c.batches := by
  unfold Chunking.flush
  split
  · simp [Chunking.batches]
  · rfl

theorem flush_current (c : Chunking) : c.flush.current = [] := by
  unfold Chunking.flush
  split
  · rfl
  · next h => simpa using h

theorem push_batches (c : Chunking) (batch : RecordBatch) :
    (c.push env target batch).batches = c.batches ++ [batch] := by
  unfold Chunking.push
  dsimp only
  split
  · rw [← flush_batches c]
    simp [Chunking.batches]
  · simp [Chunking.batches]

theorem slicesFrom_rowsBy (batch : RecordBatch) {len : Nat} (hlen : 0 < len) (fuel offset : Nat)
    (hfuel : batch.numRows ≤ fuel + offset) :
    rowsBy f (slicesFrom batch len fuel offset) = (batch.rows.drop offset).map (f batch.schema) ∧
      Uniform batch.schema (slicesFrom batch len fuel offset) := by
  induction fuel generalizing offset with
  | zero =>
    rw [slicesFrom, List.drop_eq_nil_of_le (by simpa [RecordBatch.numRows] using hfuel)]
    exact ⟨rfl, fun b hb => absurd hb List.not_mem_nil⟩
  | succ fuel ih =>
    rw [slicesFrom]
    split
    · next hlt =>
      obtain ⟨hrows, huni⟩ := ih (offset + len) (by omega)
      refine ⟨?_, fun b hb => ?_⟩
      · rw [rowsBy_cons, hrows]
        show ((batch.rows.drop offset).take (min (batch.numRows - offset) len)).map (f batch.schema) ++ _ = _
        have htake : (batch.rows.drop offset).take (min (batch.numRows - offset) len) =
            (batch.rows.drop offset).take len := by
          rw [List.take_eq_take_iff, List.length_drop, RecordBatch.numRows]
          omega
        rw [htake, ← List.map_append, ← List.drop_drop, List.take_append_drop]
      · rcases List.mem_cons.mp hb with rfl | hb
        · rfl
        · exact huni b hb
    · next hge =>
      rw [List.drop_eq_nil_of_le (Nat.le_of_not_lt hge)]
      exact ⟨rfl, fun b hb => absurd hb List.not_mem_nil⟩

theorem pushAll_batches (slices : List RecordBatch) (c : Chunking) :
    (slices.foldl (·.push env target) c).batches = c.batches ++ slices := by
  induction slices generalizing c with
  | nil => simp
  | cons b slices ih => rw [List.foldl_cons, ih, push_batches, List.append_assoc, List.singleton_append]

theorem splitBatch_batches (c : Chunking) (batch : RecordBatch) : ∃ parts,
    (splitBatch env target c batch).batches = c.batches ++ parts ∧ rowsBy f parts = rowsBy f [batch] ∧
      Uniform batch.schema parts := by
  unfold splitBatch
  dsimp only
  split
  · have hslices := slicesFrom_rowsBy (f := f) batch (Nat.lt_of_lt_of_le Nat.zero_lt_one
      (le_max_right (env.rowsPerChunk batch.numRows target (env.arrayMemorySize batch)) 1)) batch.numRows 0 (le_refl _)
    refine ⟨_, ?_, ?_, hslices.2⟩
    · rw [pushAll_batches, flush_batches]
    · rw [hslices.1, rowsBy_singleton]
      rfl
  · exact ⟨[batch], push_batches c batch, rfl, fun b hb => List.mem_singleton.mp hb ▸ rfl⟩

theorem splitBatchesBySize_rowsBy (f : Schema → BatchRow → β) (env : ArrowEnv) (target : Nat)
    (batches : List RecordBatch) :
    rowsBy f (splitBatchesBySize env batches target).flatten = rowsBy f batches ∧
      ∀ schema, Uniform schema batches → Uniform schema (splitBatchesBySize env batches target).flatten := by
  have hfold : ∀ (batches : List RecordBatch) (c : Chunking), ∃ parts,
      (batches.foldl (splitBatch env target) c).batches = c.batches ++ parts ∧ rowsBy f parts = rowsBy f batches ∧
        ∀ schema, Uniform schema batches → Uniform schema parts := by
    intro batches
    induction batches with
    | nil => exact fun c => ⟨[], by simp, rfl, fun _ h => h⟩
    | cons b batches ih =>
      intro c
      obtain ⟨parts, hb, hv, hu⟩ := @splitBatch_batches env target β f c b
      obtain ⟨parts', hb', hv', hu'⟩ := ih (splitBatch env target c b)
      refine ⟨parts ++ parts', by rw [List.foldl_cons, hb', hb, List.append_assoc], ?_, fun schema hs x hx => ?_⟩
      · rw [rowsBy_append, hv, hv', ← rowsBy_append, List.singleton_append]
      · rcases List.mem_append.mp hx with hx | hx
        · exact (hu x hx).trans (hs b List.mem_cons_self)
        · exact hu' schema (fun y hy => hs y (List.mem_cons_of_mem _ hy)) x hx
  obtain ⟨parts, hb, hv, hu⟩ := hfold batches {}
  have hchunks : (batches.foldl (splitBatch env target) {}).flush.chunks.flatten = parts := by
    have hflush := flush_batches (batches.foldl (splitBatch env target) {})
    rw [hb, Chunking.batches, flush_current, List.append_nil] at hflush
    exact hflush
  unfold splitBatchesBySize
  dsimp only
  split
  · rw [List.flatten_singleton]
    exact ⟨rfl, fun _ h => h⟩
  · rw [hchunks]
    exact ⟨hv, hu⟩

theorem splitBatchesBySize_spec (env : ArrowEnv) (target : Nat) (batches : List RecordBatch) :
    views (splitBatchesBySize env batches target).flatten = views batches ∧
      ∀ schema, Uniform schema batches → Uniform schema (splitBatchesBySize env batches target).flatten :=
  splitBatchesBySize_rowsBy rowView env target batches

end Split

end Reiver.Pond
