import Mathlib.Data.String.Basic
import Reiver.Lib.Run
import Reiver.Pond.Sync.UpsertHistory

/-! # Jobs of a warm source

The model of `sync_tables_internal` on the warm tier with `filter_batches_by_age` and
`extract_last_incremental_value`, over a source whose rows do not change. A job that fails changes nothing that is
committed; a redelivered message is one more job. -/

namespace Reiver.Pond

/-- Instants are in nanoseconds since the epoch. -/
def nanosPerSecond : Int := 1000000000

inductive SyncScope where
  | full
  | timeBased (olderThanDays : Nat)
deriving DecidableEq

structure TableInfo where
  name : String
  incrementalKey : Option String
  primaryKeyColumns : List String

structure TableCheckpoint where
  incrementalKey : String
  lastValue : String
  lastSyncVersion : Int
deriving DecidableEq

/-- What the connector returns for a table, all batches with one schema. -/
structure Fetched where
  schema : Schema
  batches : List RecordBatch
  uniform : Uniform schema batches

/-- The tables of a source, and what its connector returns for a table, an incremental key and a last value, in every
    job alike. -/
structure WarmSource where
  tables : List TableInfo
  nodup : (tables.map (·.name)).Nodup
  syncScope : SyncScope
  fetchTable : String → Option String → Option String → Fetched

/-- What libraries decide: the text of an instant in microseconds, `none` out of the range of `chrono`, and the
    greatest finite number of some floats, given by their bits. -/
structure SyncEnv extends ArrowEnv where
  formatMicros : Int → Option String
  maxFinite : List Nat → Option String

/-! ### The time-based scope -/

def i64Min : Int := -(2 ^ 63)

def i64Max : Int := 2 ^ 63 - 1

/-- `Utc::now() - Duration::days(…)`, a panic out of the range of `chrono`. -/
def cutoff (now : Int) (olderThanDays : Nat) : Option Int :=
  let cutoff := now - olderThanDays * (secondsPerDay * nanosPerSecond)
  if (NaiveDate.ofDays? (cutoff / (secondsPerDay * nanosPerSecond))).isSome then some cutoff else none

def cutoffValue (cutoff : Int) : DataType → Int
  | .timestamp .nanosecond _ =>
    if i64Min ≤ cutoff ∧ cutoff ≤ i64Max then cutoff
    else if i64Min ≤ cutoff / 1000 * 1000 ∧ cutoff / 1000 * 1000 ≤ i64Max then cutoff / 1000 * 1000
    else i64Max
  | .timestamp unit _ => cutoff / (nanosPerSecond / unit.perSecond)
  | .date32 => cutoff / nanosPerSecond / secondsPerDay
  | _ => cutoff / (nanosPerSecond / 1000)

/-- The mask of a row; a row without a timestamp is dropped. -/
def olderThan (cutoff : Int) (colType : DataType) (tsColIdx : Nat) (row : BatchRow) : Bool :=
  match (row[tsColIdx]?).join with
  | some (.int v) => decide (v ≤ cutoffValue cutoff colType)
  | _ => false

def filterBatchesByAge (now : Int) (olderThanDays : Nat) (batches : List RecordBatch) : Option (List RecordBatch) :=
  match batches with
  | [] => some []
  | first :: _ =>
    (cutoff now olderThanDays).bind fun cutoff =>
      match timestampColumn first.schema with
      | none => some batches
      | some tsColIdx =>
        (first.schema[tsColIdx]?).bind fun field =>
          -- a column of another type does not compare
          if ∀ b ∈ batches, (b.schema[tsColIdx]?).map (·.dataType) = some field.dataType then
            some ((batches.map fun b =>
              b.filterRecordBatch (b.rows.map (olderThan cutoff field.dataType tsColIdx))).filter
              (·.rows ≠ []))
          else none

def scopedBatches (scope : SyncScope) (now : Int) (batches : List RecordBatch) : Option (List RecordBatch) :=
  match scope with
  | .full => some batches
  | .timeBased olderThanDays => filterBatchesByAge now olderThanDays batches

/-! ### The last value -/

def saturate (v : Int) : Int := max i64Min (min i64Max v)

def toMicros : TimeUnit → Int → Int
  | .second, v => saturate (v * 1000000)
  | .millisecond, v => saturate (v * 1000)
  | .microsecond, v => v
  | .nanosecond, v => v / 1000 + if v % 1000 ≠ 0 then 1 else 0

def microsOf : DataType × Value → Option Int
  | (.timestamp unit _, .int v) => some (toMicros unit v)
  | _ => none

def intOf : DataType × Value → Option Int
  | (.int64, .int v) => some v
  | _ => none

def floatOf : DataType × Value → Option Nat
  | (.float64, .bits n) => some n
  | _ => none

def textOf : DataType × Value → Option String
  | (.utf8, .text s) => some s
  | _ => none

def isOrdered : DataType → Bool
  | .int64 | .timestamp _ _ | .float64 | .utf8 => true
  | _ => false

def columnValues (idx : Nat) (b : RecordBatch) : List (DataType × Value) :=
  match b.schema[idx]? with
  | none => []
  | some field => b.rows.filterMap fun row => (row[idx]?).join.map fun v => (field.dataType, v)

def lastCell (env : SyncEnv) (idx : Nat) (batches : List RecordBatch) : Option String := do
  let batch ← batches.getLast?
  let row ← batch.rows.getLast?
  let field ← batch.schema[idx]?
  let v ← (row[idx]?).join
  env.fmt field.dataType v

def extractLastIncrementalValue (env : SyncEnv) (batches : List RecordBatch) (incrementalKey : String) :
    Option String :=
  match batches with
  | [] => none
  | first :: _ =>
    (first.schema.indexOf incrementalKey).bind fun idx =>
      let values := batches.flatMap (columnValues idx)
      match (values.filterMap microsOf).max?, (values.filterMap intOf).max?, env.maxFinite (values.filterMap floatOf),
          (values.filterMap textOf).max? with
      | some micros, _, _, _ => some ((env.formatMicros micros).getD (toString micros))
      | none, some v, _, _ => some (toString v)
      | none, none, some v, _ => some v
      | none, none, none, some v => some v
      | none, none, none, none =>
        if batches.any fun b => b.rows ≠ [] ∧ (b.schema[idx]?).any (isOrdered ·.dataType) then none
        else lastCell env idx batches

/-! ### A job -/

/-- The instant and the day at which a job handles a table. -/
structure Clock where
  now : Int
  today : NaiveDate

structure WarmJob where
  clock : String → Clock
  syncVersion : Int

/-- The committed files of a table, its checkpoint, and when the last job handled it. -/
structure TableState where
  table : WarmTable := ∅
  checkpoint : Option TableCheckpoint := none
  handled : Option Int := none

abbrev WarmState := String → TableState

namespace TableState

def incrementalKey (ts : TableState) (info : TableInfo) : Option String :=
  match ts.checkpoint with
  | some cp => some cp.incrementalKey
  | none => info.incrementalKey

def lastValue (ts : TableState) : Option String := ts.checkpoint.map (·.lastValue)

def fetched (src : WarmSource) (ts : TableState) (info : TableInfo) : Fetched :=
  src.fetchTable info.name (ts.incrementalKey info) ts.lastValue

def rowCount (batches : List RecordBatch) : Nat := (batches.map (·.numRows)).sum

/-- Merges into a table with a last value and a primary key, appends to any other. -/
def merges (ts : TableState) (info : TableInfo) : Bool := ts.lastValue.isSome && info.primaryKeyColumns ≠ []

def writeWarm (env : SyncEnv) (ts : TableState) (info : TableInfo) (today : NaiveDate) (batches : List RecordBatch) :
    Option WarmTable :=
  if ts.merges info then
    (mergeWarmIncremental env.toArrowEnv info.primaryKeyColumns ts.table today batches).toOption
  else some (writeWarmIncremental env.toArrowEnv ts.table today batches)

/-- The checkpoint after a table; it does not advance when the time filter dropped rows. -/
def advance (env : SyncEnv) (ts : TableState) (info : TableInfo) (syncVersion : Int)
    (fetched kept : List RecordBatch) : Option TableCheckpoint :=
  match ts.incrementalKey info with
  | none => ts.checkpoint
  | some key =>
    if rowCount kept < rowCount fetched then ts.checkpoint
    else
      match extractLastIncrementalValue env kept key with
      | none => ts.checkpoint
      | some v => some { incrementalKey := key, lastValue := v, lastSyncVersion := syncVersion }

def sync (env : SyncEnv) (src : WarmSource) (job : WarmJob) (info : TableInfo) (ts : TableState) : Option TableState :=
  let clock := job.clock info.name
  let batches := (ts.fetched src info).batches
  if batches = [] then some { ts with handled := some clock.now }
  else
    (scopedBatches src.syncScope clock.now batches).bind fun kept =>
      if kept = [] then some { ts with handled := some clock.now }
      else
        (ts.writeWarm env info clock.today kept).map fun table =>
          { table, checkpoint := ts.advance env info job.syncVersion batches kept, handled := some clock.now }

end TableState

def syncTables (env : SyncEnv) (src : WarmSource) (s : WarmState) (job : WarmJob) : Option WarmState :=
  src.tables.foldlM (fun s info => ((s info.name).sync env src job info).map (Function.update s info.name)) s

end Reiver.Pond
