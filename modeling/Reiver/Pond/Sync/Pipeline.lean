import Mathlib.Order.Defs.LinearOrder
import Reiver.Lib.Upsert
import Reiver.Pond.Sync.CatalogHistory
import Reiver.Pond.Sync.HotTier

/-! # Sync runs and the checkpoint

The steps of `sync_source`, `sync_tables_internal`, `commit_staging_tables` and `execute_sync`, one statement or
request at a time, over the partition catalog and the hot tier; a run may stop after any of them. The source
changes between the steps. A file and a hot table are known by the rows they hold. -/

namespace Reiver.Pond

inductive StorageTier where
  | warm
  | hot
deriving DecidableEq

/-- What is fixed about the tables of a source: the incremental key and the primary key of a row, the value
    `extract_last_incremental_value` takes from the rows of a run, and what a ClickHouse table has of a row that is
    inserted into it. -/
structure SourceSpec (Row K P : Type) where
  key : String → Row → Option K
  pk : String → Row → P
  hasPk : String → Bool
  lastValue : String → List Row → Option K
  written : String → Row → Row

/-- The table a run is at. `snapshot` is the source table at the time of the fetch. -/
structure CurrentTable (Row : Type) where
  table : String
  incremental : Bool
  snapshot : List Row
  fetched : List Row
  scope : Option (Row → Bool)
  date : Row → NaiveDate
  written : List Row

def CurrentTable.kept {Row : Type} (c : CurrentTable Row) : List Row :=
  match c.scope with
  | none => c.fetched
  | some p => c.fetched.filter p

inductive RunPhase where
  | tables
  | committing
  | partlyCommitted
  | saving (ok : Bool)
  | saved
deriving DecidableEq

/-- The variables of a run: its copy of the checkpoint, the staging tables to commit and those committed, and the
    tables it advanced after appending to them. -/
structure SyncRun (Row K : Type) where
  jobId : Uuid
  tier : StorageTier
  checkpoint : Dict String K
  current : Option (CurrentTable Row) := none
  staged : List String := []
  committed : List String := []
  appended : List String := []
  phase : RunPhase := .tables

/-- `contents` are the rows of a file with their table; `reached` is the checkpoint each table has got to. -/
structure Pipeline (Row K : Type) where
  source : String → List Row
  stored : Dict String K
  warehouse : Warehouse
  contents : Uuid → List (String × Row)
  hot : HotDb Row
  run : Option (SyncRun Row K)
  reached : String → Option K

inductive PipelineAction (Row : Type) where
  | changeSource (t : String) (rows : List Row)
  | statement (a : SyncAction)
  | startRun (jobId : Uuid) (tier : StorageTier)
  | fetch (t : String) (rows : List Row) (scope : Option (Row → Bool)) (date : Row → NaiveDate)
  | appendFile (id partitionId : Uuid) (filePath : String) (syncVersion sizeBytes : Int) (rows : List Row)
  | mergeBucket (partitionId : Uuid) (newFiles : List (Uuid × NewPartitionFile × List (String × Row)))
      (syncVersion : Int)
  | createStaging
  | insertBatch (rows : List Row)
  | finishTable
  | endTables (ok : Bool) (dropped : String → Bool)
  | commitStaging (fault : CommitFault) (dropped : String → Bool)
  | savePartial
  | save
  | commitSync (sourceId : Uuid)
  | crash

namespace Pipeline
variable {Row K P : Type} [DecidableEq Row] [LinearOrder K] [DecidableEq P]

def init : Pipeline Row K where
  source := fun _ => []
  stored := ∅
  warehouse := .init
  contents := fun _ => []
  hot := .init
  run := none
  reached := fun _ => none

/-- A row whose key is not greater than `v`. -/
def AtMost (spec : SourceSpec Row K P) (t : String) (v : K) (row : Row) : Prop := ∃ k ∈ spec.key t row, k ≤ v

/-- A row that a fetch after `last` returns. -/
def AfterLast (spec : SourceSpec Row K P) (t : String) (last : Option K) (row : Row) : Prop :=
  ∀ v ∈ last, ∃ k ∈ spec.key t row, v < k


/-- The table is merged rather than appended to. -/
def merges (spec : SourceSpec Row K P) (run : SyncRun Row K) (c : CurrentTable Row) : Bool :=
  decide (run.tier = .warm) && c.incremental && spec.hasPk c.table

def appends (spec : SourceSpec Row K P) (run : SyncRun Row K) (c : CurrentTable Row) : Bool :=
  decide (run.tier = .warm) && !merges spec run c

def withRun (w : Pipeline Row K) (run : SyncRun Row K) : Pipeline Row K := { w with run := some run }

def endRun (w : Pipeline Row K) : Pipeline Row K := { w with run := none }

/-- The rows of the files a bucket is merged into, and what the merge makes of them. -/
def mergedRows (spec : SourceSpec Row K P) (w : Pipeline Row K) (c : CurrentTable Row) (partitionId : Uuid)
    (bucket : List Row) : List (String × Row) :=
  upsert (fun e => (e.1, spec.pk e.1 e.2)) ((w.warehouse.catalog.listPartitionFiles partitionId).flatMap w.contents)
    (bucket.map fun row => (c.table, row))

/-- The value the checkpoint of the table advances to: none when the time filter dropped rows. -/
def advance (spec : SourceSpec Row K P) (c : CurrentTable Row) : Option K :=
  if c.kept.length < c.fetched.length then none else spec.lastValue c.table c.kept

/-- The variables of a run that has finished a table. -/
def finished (spec : SourceSpec Row K P) (run : SyncRun Row K) (c : CurrentTable Row) : SyncRun Row K :=
  match advance spec c with
  | none => { run with current := none }
  | some v =>
    { run with
      current := none
      checkpoint := run.checkpoint.insert c.table v
      appended := if appends spec run c then c.table :: run.appended else run.appended }

/-- The statements that touch no committed file. -/
def isPlain : SyncAction → Bool
  | .addPartitionFile .. | .swapPartitionFiles .. | .commitSync .. => false
  | _ => true

/-- The steps of a run that is at the tables. -/
@[grind =]
def tableStep (spec : SourceSpec Row K P) (w : Pipeline Row K) (run : SyncRun Row K) :
    PipelineAction Row → Option (Pipeline Row K)
  | .fetch t rows scope date =>
    let last := run.checkpoint.lookup t
    if run.current.isNone then
      let c : CurrentTable Row :=
        { table := t, incremental := last.isSome, snapshot := w.source t, fetched := rows, scope, date, written := [] }
      if c.kept = [] then some w else some (w.withRun { run with current := some c })
    else none
  | .appendFile id partitionId filePath syncVersion sizeBytes rows =>
    run.current.bind fun c =>
      if appends spec run c ∧ ∀ row ∈ rows, row ∈ c.kept then
        (w.warehouse.step (.addPartitionFile id partitionId filePath syncVersion rows.length sizeBytes "I"
          (some run.jobId))).map fun warehouse =>
            { w with
              warehouse
              contents := Function.update w.contents id (rows.map fun row => (c.table, row))
              run := some { run with current := some { c with written := c.written ++ rows } } }
      else none
  | .mergeBucket partitionId newFiles syncVersion =>
    run.current.bind fun c =>
      (w.warehouse.catalog.partitions.lookup partitionId).bind fun p =>
        let bucket := c.kept.filter (c.date · = p.partitionDate)
        if merges spec run c ∧ p.tableName = c.table ∧ newFiles ≠ [] ∧
            newFiles.flatMap (·.2.2) = mergedRows spec w c partitionId bucket then
          (w.warehouse.step (.swapPartitionFiles partitionId (w.warehouse.catalog.listPartitionFiles partitionId)
            (newFiles.map fun f => (f.1, f.2.1)) syncVersion)).map fun warehouse =>
              { w with
                warehouse
                contents := fun id => ((newFiles.find? (·.1 == id)).map (·.2.2)).getD (w.contents id)
                run := some { run with current := some { c with written := c.written ++ bucket } } }
        else none
  | .createStaging =>
    run.current.bind fun c =>
      if run.tier = .hot then
        some { w with
          hot := w.hot.createStagingTable c.table, run := some { run with staged := run.staged ++ [c.table] } }
      else none
  | .insertBatch rows =>
    run.current.bind fun c =>
      if run.tier = .hot ∧ c.table ∈ run.staged ∧ (c.written ++ rows).isPrefixOf c.kept then
        some { w with
          hot := w.hot.insertStagingBatch spec.written c.table rows
          run := some { run with current := some { c with written := c.written ++ rows } } }
      else none
  | .finishTable =>
    run.current.bind fun c =>
      if ∀ row ∈ c.kept, row ∈ c.written then some (w.withRun (finished spec run c)) else none
  | .endTables ok dropped =>
    if ok ∧ run.current.isSome then none
    else if run.tier = .hot ∧ run.staged ≠ [] then
      if ok then some (w.withRun { run with phase := .committing })
      else some { w.endRun with hot := w.hot.rollbackStagingTables dropped run.staged }
    else some (w.withRun { run with phase := .saving ok, current := none })
  | _ => none

/-- Commits the next staging table; on a failure the rest is rolled back. -/
def commitStep (w : Pipeline Row K) (run : SyncRun Row K) (fault : CommitFault) (dropped : String → Bool) :
    Option (Pipeline Row K) :=
  match run.staged with
  | [] => none
  | t :: rest =>
    match w.hot.commitStagingTable fault t with
    | (hot, .committed) =>
      some { w with
        hot
        run := some { run with
          staged := rest, committed := t :: run.committed
          phase := if rest = [] then .saving true else .committing } }
    | (hot, _) =>
      some { w with
        hot := hot.rollbackStagingTables dropped run.staged
        run := some { run with phase := .partlyCommitted } }

def step (spec : SourceSpec Row K P) (w : Pipeline Row K) (a : PipelineAction Row) : Option (Pipeline Row K) :=
  match a, w.run with
  | .changeSource t rows, _ => some { w with source := Function.update w.source t rows }
  | .statement a, _ =>
    if isPlain a then (w.warehouse.step a).map fun warehouse => { w with warehouse } else none
  | .startRun jobId tier, none => some (w.withRun { jobId, tier, checkpoint := w.stored })
  | .crash, _ => some w.endRun
  | a, some run =>
    match run.phase, a with
    | .tables, a => tableStep spec w run a
    | .committing, .commitStaging fault dropped => commitStep w run fault dropped
    | .partlyCommitted, .savePartial =>
      if run.committed = [] then none
      else
        some { w.endRun with
          stored := run.checkpoint.filter fun t _ => t ∈ run.committed
          reached := fun t => if t ∈ run.committed then run.checkpoint.lookup t else w.reached t }
    | .saving ok, .save =>
      some { w with
        stored := run.checkpoint
        reached := run.checkpoint.lookup
        run := if ok then some { run with phase := .saved } else none }
    | .saved, .commitSync sourceId =>
      if run.tier = .warm then
        (w.warehouse.step (.commitSync run.jobId sourceId)).map fun warehouse => { w.endRun with warehouse }
      else none
    | _, _ => none
  | _, none => none

/-! ### The checkpoint and the committed rows -/

/-- The row is in a committed file or in a committed hot table. -/
def Committed (w : Pipeline Row K) (t : String) (row : Row) : Prop :=
  (∃ id file, w.warehouse.catalog.files.lookup id = some file ∧ file.syncState = .committed ∧
    (t, row) ∈ w.contents id) ∨ row ∈ rowsIn w.hot.production t

/-- Each source row that the stored checkpoint covers is committed. -/
def NeverAhead (spec : SourceSpec Row K P) (w : Pipeline Row K) : Prop :=
  ∀ t v, w.stored.lookup t = some v → ∀ row ∈ w.source t, AtMost spec t v row → w.Committed t row

/-- No table has lost the checkpoint it had reached. -/
def NoRegress (w : Pipeline Row K) : Prop := ∀ t v, w.reached t = some v → w.stored.lookup t = some v

/-- The row is beyond every value the checkpoint of its table has or is about to get. -/
def Beyond (spec : SourceSpec Row K P) (w : Pipeline Row K) (t : String) (row : Row) : Prop :=
  (∀ v ∈ w.stored.lookup t, ¬AtMost spec t v row) ∧
    ∀ run ∈ w.run, (∀ v ∈ run.checkpoint.lookup t, ¬AtMost spec t v row) ∧
      ∀ c ∈ run.current, c.table = t → ∀ v ∈ spec.lastValue t c.kept, ¬AtMost spec t v row

def DistinctKeys (spec : SourceSpec Row K P) (t : String) (rows : List Row) : Prop :=
  spec.hasPk t = true → ∀ a ∈ rows, ∀ b ∈ rows, spec.pk t a = spec.pk t b → a = b

/-- A full answer of the connector: every row after the last value, and only rows of the source. -/
def Answers (spec : SourceSpec Row K P) (w : Pipeline Row K) (t : String) (last : Option K) (rows : List Row) : Prop :=
  (∀ row ∈ w.source t, AfterLast spec t last row → row ∈ rows) ∧ ∀ row ∈ rows, row ∈ w.source t

/-- New source rows are beyond the checkpoint and have keys of their own; the connector answers in full, as of one
    moment; the statements on the catalog are safe; the rows of a staging table are written as they are, and one
    that is committed has every row its production table still needs; and a checkpoint is saved only when the run
    appended to no table it advanced, and not for some of the tables only. -/
def Disciplined (spec : SourceSpec Row K P) (w : Pipeline Row K) : PipelineAction Row → Prop
  | .changeSource t rows =>
    (∀ row ∈ rows, row ∉ w.source t → w.Beyond spec t row) ∧ DistinctKeys spec t rows
  | .statement a => w.warehouse.Safe a
  | .fetch t rows .. => ∀ run ∈ w.run, Answers spec w t (run.checkpoint.lookup t) rows
  | .insertBatch rows => ∀ run ∈ w.run, ∀ c ∈ run.current, ∀ row ∈ rows, spec.written c.table row = row
  | .mergeBucket partitionId .. => w.warehouse.catalog.Standing partitionId
  | .commitStaging .. =>
    ∀ run ∈ w.run, ∀ t ∈ run.staged.head?, ∀ row ∈ rowsIn w.hot.production t, row ∈ w.source t →
      row ∈ rowsIn w.hot.staging t
  | .savePartial => ∀ run ∈ w.run, run.appended = [] ∧ ∀ t ∈ w.stored.keys, t ∈ run.committed
  | .save => ∀ run ∈ w.run, run.appended = []
  | .commitSync sourceId => ∀ run ∈ w.run, w.warehouse.Safe (.commitSync run.jobId sourceId)
  | _ => True

end Pipeline

end Reiver.Pond
