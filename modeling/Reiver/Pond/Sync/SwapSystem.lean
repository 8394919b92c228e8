import Reiver.Pond.Sync.Catalog
import Reiver.Pond.Sync.Compaction

/-! # Compaction beside a merge

The statements of `compact_partition_inner` and of `merge_warm_incremental` on one partition. Both list the committed
files, download them, write their replacement under new keys, swap the file records and delete the old objects; the
advisory lock of the compaction is not taken by the merge, so their steps interleave. -/

namespace Reiver.Pond

inductive SwapTask where
  | compaction
  | merge
deriving DecidableEq

def SwapTask.other : SwapTask → SwapTask
  | .compaction => .merge
  | .merge => .compaction

/-- The partition, and the rows that the merge brings. -/
structure SwapParams where
  env : CompactionEnv
  partitionId : Uuid
  pkColumns : List String
  newBatches : List RecordBatch

/-- The batches that replace those of the listed files; an empty list is nothing to do. -/
def SwapParams.rewrite (p : SwapParams) (task : SwapTask) (batches : List RecordBatch) : Option (List RecordBatch) :=
  match task with
  | .compaction => compactBatches p.env batches
  | .merge => (mergeBatchesByPk p.env.toArrowEnv (stripMetadataColumns batches) p.newBatches p.pkColumns).toOption

def SwapTask.targetFileSize : SwapTask → Nat
  | .compaction => compactionTargetFileSize
  | .merge => targetFileSizeBytes

/-- A file record as it is listed: its id and its path. -/
abbrev ListedFile := Uuid × String

/-- How far a task has come. `seen` is history: whether the other task had swapped when the files were listed. -/
inductive SwapPhase where
  | idle
  | reading (seen : Bool) (files : List ListedFile) (downloaded : List (List RecordBatch))
  | written (seen : Bool) (files : List ListedFile) (newFiles : List NewPartitionFile)
  | deleting (paths : List String)
  | done (swapped : Bool)

namespace SwapPhase

def swapped : SwapPhase → Bool
  | .deleting _ => true
  | .done swapped => swapped
  | _ => false

def listed? : SwapPhase → Option (Bool × List ListedFile)
  | .reading seen files _ => some (seen, files)
  | .written seen files _ => some (seen, files)
  | _ => none

/-- The objects uploaded and not registered yet. -/
def newPaths : SwapPhase → List String
  | .written _ _ newFiles => newFiles.map (·.filePath)
  | _ => []

def oldPaths : SwapPhase → List String
  | .deleting paths => paths
  | _ => []

end SwapPhase

structure SwapSystem where
  catalog : Catalog
  objects : Dict String (List RecordBatch)
  phase : SwapTask → SwapPhase := fun _ => .idle

/-- `files` are the keys and the sizes of the files written, `ids` the ids of their records. Deletions of objects are
    best effort: `ok` and `cleaned` say which succeed. -/
inductive SwapAction where
  | list (task : SwapTask)
  | download (task : SwapTask)
  | write (task : SwapTask) (files : List (String × Int))
  | swap (task : SwapTask) (ids : List Uuid) (syncVersion : Int)
  | delete (task : SwapTask) (ok : Bool)
  | fail (task : SwapTask) (cleaned : List String)

def Catalog.listedFiles (c : Catalog) (partitionId : Uuid) : List ListedFile :=
  (c.files.pairs.filter fun e => e.2.partitionId = partitionId ∧ e.2.syncState = .committed).map
    fun e => (e.1, e.2.filePath)

namespace SwapSystem

def setPhase (s : SwapSystem) (task : SwapTask) (phase : SwapPhase) : SwapSystem :=
  { s with phase := Function.update s.phase task phase }

def list (p : SwapParams) (s : SwapSystem) (task : SwapTask) : Option SwapSystem :=
  match s.phase task with
  | .idle =>
    let files := s.catalog.listedFiles p.partitionId
    if task = .compaction ∧ files.length ≤ 1 then some (s.setPhase task (.done false))
    else some (s.setPhase task (.reading (s.phase task.other).swapped files []))
  | _ => none

/-- The next file; a file that is gone aborts the task. -/
def download (s : SwapSystem) (task : SwapTask) : Option SwapSystem :=
  match s.phase task with
  | .reading seen files downloaded =>
    (files[downloaded.length]?).map fun file =>
      match s.objects.lookup file.2 with
      | some batches => s.setPhase task (.reading seen files (downloaded ++ [batches]))
      | none => s.setPhase task (.done false)
  | _ => none

def Fresh (s : SwapSystem) (key : String) : Prop :=
  key ∉ s.objects ∧ (∀ file ∈ s.catalog.files.values, file.filePath ≠ key) ∧
    ∀ task ∈ [SwapTask.compaction, .merge], key ∉ (s.phase task).newPaths ∧ key ∉ (s.phase task).oldPaths

instance (s : SwapSystem) (key : String) : Decidable (s.Fresh key) := inferInstanceAs (Decidable (_ ∧ _ ∧ _))

def putObjects (objects : Dict String (List RecordBatch)) (chunks : List (String × List RecordBatch)) :
    Dict String (List RecordBatch) :=
  chunks.foldl (fun objects e => objects.insert e.1 e.2) objects

def newFile (file : String × Int) (chunk : List RecordBatch) : NewPartitionFile where
  filePath := file.1
  rowCount := (chunk.map fun b => (b.numRows : Int)).sum
  sizeBytes := file.2

/-- A partition without a path is not compacted. -/
def write (p : SwapParams) (s : SwapSystem) (task : SwapTask) (files : List (String × Int)) : Option SwapSystem :=
  match s.phase task with
  | .reading seen oldFiles downloaded =>
    if downloaded.length = oldFiles.length then
      match p.rewrite task downloaded.flatten with
      | none | some [] => some (s.setPhase task (.done false))
      | some batches =>
        let chunks := splitBatchesBySize p.env.toArrowEnv batches task.targetFileSize
        if files.length = chunks.length ∧ (files.map Prod.fst).Nodup ∧ (∀ file ∈ files, s.Fresh file.1) ∧
            (task = .compaction → (s.catalog.partitions.lookup p.partitionId).any (·.parquetPath.isSome)) then
          some { s.setPhase task (.written seen oldFiles (List.zipWith newFile files chunks)) with
            objects := putObjects s.objects ((files.map Prod.fst).zip chunks) }
        else none
    else none
  | _ => none

def swap (p : SwapParams) (s : SwapSystem) (task : SwapTask) (ids : List Uuid) (syncVersion : Int) :
    Option SwapSystem :=
  match s.phase task with
  | .written _ files newFiles =>
    if ids.length = newFiles.length then
      let oldFileIds := files.map Prod.fst
      let oldPaths := (s.catalog.files.pairs.filter (·.1 ∈ oldFileIds)).map (·.2.filePath)
      (s.catalog.swapPartitionFiles p.partitionId oldFileIds (ids.zip newFiles) syncVersion).map fun catalog =>
        { s.setPhase task (.deleting oldPaths) with catalog }
    else none
  | _ => none

def delete (s : SwapSystem) (task : SwapTask) (ok : Bool) : Option SwapSystem :=
  match s.phase task with
  | .deleting (path :: paths) =>
    some { s.setPhase task (.deleting paths) with objects := if ok then s.objects.erase path else s.objects }
  | .deleting [] => some (s.setPhase task (.done true))
  | _ => none

/-- Any statement before the commit may fail; what was uploaded is cleaned up. -/
def fail (s : SwapSystem) (task : SwapTask) (cleaned : List String) : Option SwapSystem :=
  match s.phase task with
  | .reading _ _ _ | .written _ _ _ =>
    some { s.setPhase task (.done false) with
      objects := s.objects.filter fun path _ => !decide (path ∈ (s.phase task).newPaths ∧ path ∈ cleaned) }
  | _ => none

def step (p : SwapParams) (s : SwapSystem) : SwapAction → Option SwapSystem
  | .list task => s.list p task
  | .download task => s.download task
  | .write task files => s.write p task files
  | .swap task ids syncVersion => s.swap p task ids syncVersion
  | .delete task ok => s.delete task ok
  | .fail task cleaned => s.fail task cleaned

/-! ### What a step does -/

section Steps
variable {p : SwapParams} {s s' : SwapSystem} {task : SwapTask}

theorem list_cases (h : s.list p task = some s') : s.phase task = .idle ∧
    (s' = s.setPhase task (.done false) ∨
      (task = .compaction → 2 ≤ (s.catalog.listedFiles p.partitionId).length) ∧
      s' = s.setPhase task (.reading (s.phase task.other).swapped (s.catalog.listedFiles p.partitionId) [])) := by
  unfold list at h
  split at h
  · next hidle =>
    dsimp only at h
    split at h
    · exact ⟨hidle, Or.inl (Option.some_inj.mp h).symm⟩
    · next hmany =>
      exact ⟨hidle, Or.inr ⟨fun htask => by by_contra hlt; exact hmany ⟨htask, by omega⟩, (Option.some_inj.mp h).symm⟩⟩
  · cases h

theorem download_cases (h : s.download task = some s') : ∃ seen files downloaded,
    s.phase task = .reading seen files downloaded ∧ (s' = s.setPhase task (.done false) ∨
      ∃ file batches, files[downloaded.length]? = some file ∧ s.objects.lookup file.2 = some batches ∧
        s' = s.setPhase task (.reading seen files (downloaded ++ [batches]))) := by
  unfold download at h
  split at h
  · next seen files downloaded hphase =>
    obtain ⟨file, hfile, h⟩ := Option.map_eq_some_iff.mp h
    refine ⟨seen, files, downloaded, hphase, ?_⟩
    split at h
    · next batches hlook => exact Or.inr ⟨file, batches, hfile, hlook, h.symm⟩
    · exact Or.inl h.symm
  · cases h

theorem write_cases {files : List (String × Int)} (h : s.write p task files = some s') :
    ∃ seen oldFiles downloaded, s.phase task = .reading seen oldFiles downloaded ∧
      downloaded.length = oldFiles.length ∧ (s' = s.setPhase task (.done false) ∨
      ∃ batches chunks, p.rewrite task downloaded.flatten = some batches ∧
        chunks = splitBatchesBySize p.env.toArrowEnv batches task.targetFileSize ∧ files.length = chunks.length ∧
        (files.map Prod.fst).Nodup ∧ (∀ file ∈ files, s.Fresh file.1) ∧
        s' = { s.setPhase task (.written seen oldFiles (List.zipWith newFile files chunks)) with
          objects := putObjects s.objects ((files.map Prod.fst).zip chunks) }) := by
  unfold write at h
  split at h
  · next seen oldFiles downloaded hphase =>
    split at h
    · next hlen =>
      refine ⟨seen, oldFiles, downloaded, hphase, hlen, ?_⟩
      split at h
      · exact Or.inl (Option.some_inj.mp h).symm
      · exact Or.inl (Option.some_inj.mp h).symm
      · next batches _ hrewrite =>
        dsimp only at h
        split at h
        · next hguard =>
          obtain ⟨hfiles, hnd, hfresh, -⟩ := hguard
          exact Or.inr ⟨batches, _, hrewrite, rfl, hfiles, hnd, hfresh, (Option.some_inj.mp h).symm⟩
        · cases h
    · cases h
  · cases h

theorem swap_cases {ids : List Uuid} {syncVersion : Int} (h : s.swap p task ids syncVersion = some s') :
    ∃ seen files newFiles catalog, s.phase task = .written seen files newFiles ∧ ids.length = newFiles.length ∧
      s.catalog.swapPartitionFiles p.partitionId (files.map Prod.fst) (ids.zip newFiles) syncVersion = some catalog ∧
      s' = { s.setPhase task (.deleting ((s.catalog.files.pairs.filter (·.1 ∈ files.map Prod.fst)).map (·.2.filePath)))
        with catalog } := by
  unfold swap at h
  split at h
  · next seen files newFiles hphase =>
    split at h
    · next hlen =>
      obtain ⟨catalog, hcatalog, h⟩ := Option.map_eq_some_iff.mp h
      exact ⟨seen, files, newFiles, catalog, hphase, hlen, hcatalog, h.symm⟩
    · cases h
  · cases h

theorem delete_cases {ok : Bool} (h : s.delete task ok = some s') :
    (s.phase task = .deleting [] ∧ s' = s.setPhase task (.done true)) ∨
      ∃ path paths, s.phase task = .deleting (path :: paths) ∧
        s' = { s.setPhase task (.deleting paths) with objects := if ok then s.objects.erase path else s.objects } := by
  unfold delete at h
  split at h
  · next path paths hphase => exact Or.inr ⟨path, paths, hphase, (Option.some_inj.mp h).symm⟩
  · next hphase => exact Or.inl ⟨hphase, (Option.some_inj.mp h).symm⟩
  · cases h

theorem fail_cases {cleaned : List String} (h : s.fail task cleaned = some s') :
    (s.phase task).swapped = false ∧ s' = { s.setPhase task (.done false) with
      objects := s.objects.filter fun path _ => !decide (path ∈ (s.phase task).newPaths ∧ path ∈ cleaned) } := by
  unfold fail at h
  split at h
  · next hphase => exact ⟨by rw [hphase]; rfl, (Option.some_inj.mp h).symm⟩
  · next hphase => exact ⟨by rw [hphase]; rfl, (Option.some_inj.mp h).symm⟩
  · cases h

end Steps

end SwapSystem

end Reiver.Pond
