import Reiver.Lib.Dict
import Reiver.Lib.Run
import Reiver.Pond.Sync.Batches

/-! # The partition catalog

The tables `warehouse_partitions`, `warehouse_partition_files` and `warehouse_jobs`, and the statements the warm
tier runs on them: those of `partition_manager.rs`, `cleanup_orphans` and `commit_sync`. A statement that breaks
a constraint is refused. Ids of new rows are drawn at random and never collide. -/

namespace Reiver.Pond

inductive SyncState where
  | pending
  | committed
deriving DecidableEq

inductive JobStatus where
  | pending
  | running
  | completed
  | failed
  | cancelled
deriving DecidableEq

/-- A row of `warehouse_jobs`. Times are in seconds. -/
structure Job where
  status : JobStatus := .pending
  startedAt : Option Int := none
deriving DecidableEq

/-- A row of `warehouse_partitions`. -/
structure Partition where
  sourceId : Uuid
  tableName : String
  partitionDate : NaiveDate
  syncState : SyncState := .committed
  jobId : Option Uuid := none
  parquetPath : Option String := none
  rowCount : Int := 0
  sizeBytes : Int := 0
deriving DecidableEq

/-- A row of `warehouse_partition_files`. -/
structure PartitionFile where
  partitionId : Uuid
  filePath : String
  syncVersion : Int
  rowCount : Int
  sizeBytes : Int
  opTypes : String
  jobId : Option Uuid
  syncState : SyncState
deriving DecidableEq

structure NewPartitionFile where
  filePath : String
  rowCount : Int
  sizeBytes : Int
deriving DecidableEq

/-- The three tables; a file belongs to a partition. -/
structure Catalog where
  partitions : Dict Uuid Partition
  files : Dict Uuid PartitionFile
  jobs : Dict Uuid Job
  references : ∀ id file, files.lookup id = some file → file.partitionId ∈ partitions

namespace Catalog

def empty : Catalog where
  partitions := ∅
  files := ∅
  jobs := ∅
  references := fun _ _ h => (nomatch h)

def JobExists (c : Catalog) (jobId : Option Uuid) : Prop := ∀ j ∈ jobId, j ∈ c.jobs

instance (c : Catalog) (jobId : Option Uuid) : Decidable (c.JobExists jobId) :=
  inferInstanceAs (Decidable (∀ j ∈ jobId, j ∈ c.jobs))

/-- `INSERT … ON CONFLICT (source_id, table_name, partition_date) DO NOTHING`. -/
def getOrCreatePartition (c : Catalog) (id sourceId : Uuid) (tableName : String) (partitionDate : NaiveDate) :
    Option Catalog :=
  if c.partitions.values.any fun p =>
      p.sourceId = sourceId ∧ p.tableName = tableName ∧ p.partitionDate = partitionDate then some c
  else if id ∈ c.partitions then none
  else
    some { c with
      partitions := c.partitions.insert id { sourceId, tableName, partitionDate }
      references := fun fid file h => (AList.mem_insert _).mpr (Or.inr (c.references fid file h)) }

def addPartitionFile (c : Catalog) (id partitionId : Uuid) (filePath : String) (syncVersion rowCount sizeBytes : Int)
    (opTypes : String) (jobId : Option Uuid) : Option Catalog :=
  if h : id ∉ c.files ∧ partitionId ∈ c.partitions ∧ c.JobExists jobId then
    some { c with
      files := c.files.insert id
        { partitionId, filePath, syncVersion, rowCount, sizeBytes, opTypes, jobId, syncState := .pending }
      references := fun fid file hfile => by
        rw [Dict.lookup_insert'] at hfile
        split at hfile
        · cases hfile
          exact h.2.1
        · exact c.references fid file hfile }
  else none

def listPartitionFiles (c : Catalog) (partitionId : Uuid) : List Uuid :=
  (c.files.pairs.filter fun e => e.2.partitionId = partitionId ∧ e.2.syncState = .committed).map Prod.fst

def insertSwapped (partitionId : Uuid) (syncVersion : Int) (files : Dict Uuid PartitionFile)
    (newFiles : List (Uuid × NewPartitionFile)) : Dict Uuid PartitionFile :=
  newFiles.foldl (fun files nf => files.insert nf.1 {
    partitionId, syncVersion, filePath := nf.2.filePath, rowCount := nf.2.rowCount, sizeBytes := nf.2.sizeBytes
    opTypes := "I", jobId := none, syncState := .committed }) files

theorem lookup_insertSwapped {partitionId : Uuid} {syncVersion : Int} {files : Dict Uuid PartitionFile}
    {newFiles : List (Uuid × NewPartitionFile)} {id : Uuid} :
    (id ∉ newFiles.map Prod.fst ∧ (insertSwapped partitionId syncVersion files newFiles).lookup id = files.lookup id) ∨
      id ∈ newFiles.map Prod.fst ∧ ∃ file, (insertSwapped partitionId syncVersion files newFiles).lookup id =
        some file ∧ file.partitionId = partitionId ∧ file.syncState = .committed := by
  induction newFiles generalizing files with
  | nil => exact Or.inl ⟨List.not_mem_nil, rfl⟩
  | cons nf newFiles ih =>
    rw [insertSwapped, List.foldl_cons, ← insertSwapped, List.map_cons, List.mem_cons]
    rcases ih with ⟨hnot, hlook⟩ | ⟨hmem, hfile⟩
    · rw [hlook, Dict.lookup_insert']
      by_cases h : id = nf.1
      · exact Or.inr ⟨Or.inl h, _, if_pos h, rfl, rfl⟩
      · exact Or.inl ⟨fun hor => hor.elim h hnot, if_neg h⟩
    · exact Or.inr ⟨Or.inr hmem, hfile⟩

/-- Inserts the new files as committed and deletes the old ones, in one transaction. -/
def swapPartitionFiles (c : Catalog) (partitionId : Uuid) (oldFileIds : List Uuid)
    (newFiles : List (Uuid × NewPartitionFile)) (syncVersion : Int) : Option Catalog :=
  if h : (newFiles = [] ∨ partitionId ∈ c.partitions) ∧ (∀ nf ∈ newFiles, nf.1 ∉ c.files ∧ nf.1 ∉ oldFileIds) ∧
      (newFiles.map Prod.fst).Nodup then
    some { c with
      files := (insertSwapped partitionId syncVersion c.files newFiles).filter fun id _ => id ∉ oldFileIds
      references := fun fid file hfile => by
        rw [Dict.lookup_filter, Option.filter_eq_some_iff] at hfile
        rcases @lookup_insertSwapped partitionId syncVersion c.files newFiles fid with
          ⟨-, hold⟩ | ⟨hmem, f, hf, hpid, -⟩
        · exact c.references fid file (hold ▸ hfile.1)
        · rw [hf] at hfile
          cases hfile.1
          rw [hpid]
          exact h.1.resolve_left fun hnil => List.not_mem_nil (hnil ▸ hmem : fid ∈ ([] : List _).map Prod.fst) }
  else none

def updatePartitionData (c : Catalog) (partitionId : Uuid) (parquetPath : String) (rowCount sizeBytes : Int)
    (jobId : Option Uuid) : Option Catalog :=
  match c.partitions.lookup partitionId with
  | none => some c
  | some p =>
    if c.JobExists jobId then
      some { c with
        partitions := c.partitions.insert partitionId { p with
          parquetPath := some parquetPath, rowCount, sizeBytes, jobId
          syncState := if jobId.isSome then .pending else .committed }
        references := fun fid file h => (AList.mem_insert _).mpr (Or.inr (c.references fid file h)) }
    else none

/-- `SET sync_state = 'committed' WHERE job_id = $1 AND sync_state = 'pending'`. -/
def commitPartition (jobId : Uuid) (p : Partition) : Partition :=
  if p.jobId = some jobId ∧ p.syncState = .pending then { p with syncState := .committed } else p

def commitFile (jobId : Uuid) (f : PartitionFile) : PartitionFile :=
  if f.jobId = some jobId ∧ f.syncState = .pending then { f with syncState := .committed } else f

/-- The aggregates of a partition that has committed files. -/
def aggregate (files : Dict Uuid PartitionFile) (sourceId id : Uuid) (p : Partition) : Partition :=
  let committed := files.values.filter fun f => f.partitionId = id ∧ f.syncState = .committed
  if p.sourceId = sourceId ∧ committed ≠ [] then
    { p with rowCount := (committed.map (·.rowCount)).sum, sizeBytes := (committed.map (·.sizeBytes)).sum }
  else p

theorem commitFile_partitionId (jobId : Uuid) (f : PartitionFile) :
    (commitFile jobId f).partitionId = f.partitionId := by
  unfold commitFile
  split <;> rfl

/-- Commits what the job has pending, then sets the aggregates, in one transaction. -/
def commitSync (c : Catalog) (jobId sourceId : Uuid) : Catalog :=
  let files := c.files.mapValues fun _ f => commitFile jobId f
  { c with
    files
    partitions := (c.partitions.mapValues fun _ p => commitPartition jobId p).mapValues (aggregate files sourceId)
    references := fun fid file h => by
      rw [Dict.lookup_mapValues] at h
      obtain ⟨f, hf, rfl⟩ := Option.map_eq_some_iff.mp h
      rw [commitFile_partitionId, Dict.mem_mapValues, Dict.mem_mapValues]
      exact c.references fid f hf }

def updateJobStatus (c : Catalog) (now : Int) (jobId : Uuid) (status : JobStatus) : Catalog :=
  match c.jobs.lookup jobId with
  | none => c
  | some job =>
    let startedAt := if status = .running then some now else job.startedAt
    { c with jobs := c.jobs.insert jobId { status, startedAt } }

def insertJob (c : Catalog) (jobId : Uuid) : Option Catalog :=
  if jobId ∈ c.jobs then none else some { c with jobs := c.jobs.insert jobId {} }

def sixHours : Int := 6 * 60 * 60

/-- A pending partition of a job that is gone, failed or cancelled, or started long ago and not running. -/
def isOrphan (c : Catalog) (now : Int) (sourceId : Uuid) (p : Partition) : Bool :=
  decide (p.sourceId = sourceId) && decide (p.syncState = .pending) &&
    match p.jobId.bind c.jobs.lookup with
    | none => true
    | some job =>
      decide (job.status = .failed) || decide (job.status = .cancelled) ||
        (decide (job.status ≠ .running) && job.startedAt.any fun t => t < now - sixHours)

/-- Deletes the orphans; their files go with them. -/
def cleanupOrphans (c : Catalog) (now : Int) (sourceId : Uuid) : Catalog :=
  let partitions := c.partitions.filter fun _ p => !c.isOrphan now sourceId p
  { c with
    partitions
    files := c.files.filter fun _ f => f.partitionId ∈ partitions
    references := fun fid file h => by
      rw [Dict.lookup_filter, Option.filter_eq_some_iff] at h
      exact of_decide_eq_true h.2 }

end Catalog

end Reiver.Pond
