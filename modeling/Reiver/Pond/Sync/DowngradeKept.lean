import Reiver.Lib.Fallible
import Reiver.Pond.Sync.CatalogHistory
import Reiver.Pond.Sync.UpgradeKept

/-! # What a downgrade to warm keeps

A downgrade exports what it can, commits what its job recorded, and drops every table. A table that is not exported
is kept only if what the job commits shows its rows already (`downgrade_kept_iff`). -/

namespace Reiver.Pond

variable {Row : Type}

/-! ### The catalog -/

namespace Catalog
variable {c c' : Catalog} {id sourceId jobId : Uuid} {tableName : String} {partitionDate : NaiveDate}

/-- A file of the source that is committed, or that a commit of the job commits. -/
def Shows (c : Catalog) (sourceId jobId : Uuid) (key : ObjectKey) : Prop :=
  ∃ id p, c.partitions.lookup id = some p ∧ p.sourceId = sourceId ∧
    (p.syncState = .committed ∨ p.jobId = some jobId) ∧ p.tableName = key.1 ∧
    (p.parquetPath = some key.2 ∨ ∃ fid f, c.files.lookup fid = some f ∧ f.partitionId = id ∧
      (f.syncState = .committed ∨ f.jobId = some jobId) ∧ f.filePath = key.2)

theorem commitPartition_eq (jobId : Uuid) (p : Partition) :
    (commitPartition jobId p).sourceId = p.sourceId ∧ (commitPartition jobId p).tableName = p.tableName ∧
      (commitPartition jobId p).parquetPath = p.parquetPath ∧
      ((commitPartition jobId p).syncState = .committed ↔ p.syncState = .committed ∨ p.jobId = some jobId) := by
  unfold commitPartition
  cases hstate : p.syncState <;> by_cases hjob : p.jobId = some jobId <;> simp [hstate, hjob]

theorem commitFile_eq (jobId : Uuid) (f : PartitionFile) :
    (commitFile jobId f).filePath = f.filePath ∧
      ((commitFile jobId f).syncState = .committed ↔ f.syncState = .committed ∨ f.jobId = some jobId) := by
  unfold commitFile
  cases hstate : f.syncState <;> by_cases hjob : f.jobId = some jobId <;> simp [hstate, hjob]

theorem aggregate_paths (files : Dict Uuid PartitionFile) (sourceId id : Uuid) (p : Partition) :
    (aggregate files sourceId id p).sourceId = p.sourceId ∧ (aggregate files sourceId id p).tableName = p.tableName ∧
      (aggregate files sourceId id p).parquetPath = p.parquetPath := by
  unfold aggregate
  dsimp only
  split <;> exact ⟨rfl, rfl, rfl⟩

theorem mem_listCommittedPartitions {e : Uuid × Partition} : e ∈ c.listCommittedPartitions sourceId ↔
    c.partitions.lookup e.1 = some e.2 ∧ e.2.sourceId = sourceId ∧ e.2.syncState = .committed := by
  rw [listCommittedPartitions, List.mem_filter, decide_eq_true_eq]
  exact and_congr_left' Dict.mem_pairs

theorem mem_getPartitionFilePaths {path : String} : path ∈ c.getPartitionFilePaths id ↔
    ∃ fid f, c.files.lookup fid = some f ∧ f.partitionId = id ∧ f.syncState = .committed ∧ f.filePath = path := by
  rw [getPartitionFilePaths, List.mem_map]
  simp only [List.mem_filter, Dict.mem_values, decide_eq_true_eq]
  constructor
  · rintro ⟨f, ⟨⟨fid, hf⟩, hid, hstate⟩, hpath⟩
    exact ⟨fid, f, hf, hid, hstate, hpath⟩
  · rintro ⟨fid, f, hf, hid, hstate, hpath⟩
    exact ⟨f, ⟨⟨fid, hf⟩, hid, hstate⟩, hpath⟩

theorem lookup_commitSync_partitions : (c.commitSync jobId sourceId).partitions.lookup id =
    (c.partitions.lookup id).map fun p =>
      aggregate (c.files.mapValues fun _ f => commitFile jobId f) sourceId id (commitPartition jobId p) := by
  rw [commitSync]
  dsimp only
  rw [Dict.lookup_mapValues, Dict.lookup_mapValues, Option.map_map]
  rfl

theorem lookup_commitSync_files {fid : Uuid} : (c.commitSync jobId sourceId).files.lookup fid =
    (c.files.lookup fid).map (commitFile jobId) := by
  rw [commitSync]
  exact Dict.lookup_mapValues _ _ _

theorem findPartition_eq_some (h : c.findPartition sourceId tableName partitionDate = some id) :
    ∃ p, c.partitions.lookup id = some p ∧ p.sourceId = sourceId ∧ p.tableName = tableName := by
  rw [findPartition] at h
  obtain ⟨e, he, rfl⟩ := Option.map_eq_some_iff.mp h
  have hmem := Dict.mem_pairs.mp (List.mem_of_find?_eq_some he)
  have hfound := List.find?_some he
  rw [decide_eq_true_eq] at hfound
  exact ⟨e.2, hmem, hfound.1, hfound.2.1⟩

theorem getOrCreatePartition_eq (c : Catalog) (id sourceId : Uuid) (tableName : String) (partitionDate : NaiveDate) :
    c.getOrCreatePartition id sourceId tableName partitionDate =
      if c.findPartition sourceId tableName partitionDate = none then
        if id ∈ c.partitions then none
        else some { c with
          partitions := c.partitions.insert id { sourceId, tableName, partitionDate }
          references := fun fid file h => (AList.mem_insert _).mpr (Or.inr (c.references fid file h)) }
      else some c := by
  have hany : (c.partitions.values.any fun p =>
      decide (p.sourceId = sourceId ∧ p.tableName = tableName ∧ p.partitionDate = partitionDate)) = true ↔
      c.findPartition sourceId tableName partitionDate ≠ none := by
    rw [findPartition, Ne, Option.map_eq_none_iff, List.find?_eq_none, List.any_eq_true]
    simp only [decide_eq_true_eq, not_forall, not_not, Dict.mem_values]
    constructor
    · rintro ⟨p, ⟨id, hid⟩, hp⟩
      exact ⟨(id, p), Dict.mem_pairs.mpr hid, hp⟩
    · rintro ⟨e, he, hp⟩
      exact ⟨e.2, ⟨e.1, Dict.mem_pairs.mp he⟩, hp⟩
  unfold getOrCreatePartition
  by_cases hfind : c.findPartition sourceId tableName partitionDate = none
  · rw [if_neg fun h => hany.mp h hfind, if_pos hfind]
  · rw [if_pos (hany.mpr hfind), if_neg hfind]

theorem findPartition_insert {p : Partition} (hp : p.sourceId = sourceId ∧ p.tableName = tableName ∧
    p.partitionDate = partitionDate) (hc : c'.partitions = c.partitions.insert id p) :
    c'.findPartition sourceId tableName partitionDate = some id := by
  rw [findPartition, hc, Dict.pairs, AList.entries_insert, List.map_cons, List.find?_cons, decide_eq_true hp]
  rfl

theorem findPartition_insert_ne {p : Partition} (hp : p.tableName ≠ tableName)
    (hold : ∀ q, c.partitions.lookup id = some q → q.tableName ≠ tableName)
    (hc : c'.partitions = c.partitions.insert id p) :
    c'.findPartition sourceId tableName partitionDate = c.findPartition sourceId tableName partitionDate := by
  rw [findPartition, findPartition, hc]
  refine congrArg (Option.map Prod.fst) (Dict.find?_pairs_insert ?_ fun q hq => ?_)
  · exact decide_eq_false fun h => hp h.2.1
  · exact decide_eq_false fun h => hold q hq h.2.1

end Catalog

theorem mem_warmKeys_commitSync {s s' : TieredSource Row} {c : Catalog} {jobId : Uuid} {name : String}
    {key : ObjectKey} (hid : s'.sourceId = s.sourceId) (hc : s'.catalog = c.commitSync jobId s.sourceId) :
    key ∈ s'.warmKeys name ↔ sanitizeIdentifier key.1 = name ∧ c.Shows s.sourceId jobId key := by
  rw [TieredSource.mem_warmKeys, TieredSource.partitions, hid, hc]
  refine and_congr_right fun _ => ?_
  constructor
  · rintro ⟨⟨id, p'⟩, he, htable, hpath⟩
    obtain ⟨hlook, hsource, hstate⟩ := Catalog.mem_listCommittedPartitions.mp he
    rw [Catalog.lookup_commitSync_partitions] at hlook
    dsimp only at hlook htable hsource hstate
    obtain ⟨p, hp, rfl⟩ := Option.map_eq_some_iff.mp hlook
    obtain ⟨hasource, hatable, hapath⟩ :=
      Catalog.aggregate_paths (c.files.mapValues fun _ f => Catalog.commitFile jobId f) s.sourceId id
      (Catalog.commitPartition jobId p)
    obtain ⟨hcsource, hctable, hcpath, hcstate⟩ := Catalog.commitPartition_eq jobId p
    rw [(Warehouse.aggregate_eq _ _ _ _).1, hcstate] at hstate
    rw [TieredSource.warmPaths, hc, List.mem_append, Option.mem_toList, Catalog.mem_getPartitionFilePaths] at hpath
    refine ⟨id, p, hp, hcsource ▸ hasource ▸ hsource, hstate, hctable ▸ hatable ▸ htable, ?_⟩
    rcases hpath with ⟨fid, f', hf', hfid, hfstate, hfpath⟩ | hpath
    · rw [Catalog.lookup_commitSync_files] at hf'
      obtain ⟨f, hf, rfl⟩ := Option.map_eq_some_iff.mp hf'
      rw [Catalog.commitFile_partitionId] at hfid
      rw [(Catalog.commitFile_eq jobId f).2] at hfstate
      rw [(Catalog.commitFile_eq jobId f).1] at hfpath
      exact .inr ⟨fid, f, hf, hfid, hfstate, hfpath⟩
    · rw [hapath, hcpath] at hpath
      exact .inl hpath
  · rintro ⟨id, p, hp, hsource, hstate, htable, hpath⟩
    obtain ⟨hasource, hatable, hapath⟩ :=
      Catalog.aggregate_paths (c.files.mapValues fun _ f => Catalog.commitFile jobId f) s.sourceId id
      (Catalog.commitPartition jobId p)
    obtain ⟨hcsource, hctable, hcpath, hcstate⟩ := Catalog.commitPartition_eq jobId p
    refine ⟨(id, Catalog.aggregate (c.files.mapValues fun _ f => Catalog.commitFile jobId f) s.sourceId id
      (Catalog.commitPartition jobId p)), Catalog.mem_listCommittedPartitions.mpr ⟨?_, ?_, ?_⟩, ?_, ?_⟩
    · rw [Catalog.lookup_commitSync_partitions, hp]
      rfl
    · exact hasource.trans (hcsource.trans hsource)
    · rw [(Warehouse.aggregate_eq _ _ _ _).1, hcstate]
      exact hstate
    · exact hatable.trans (hctable.trans htable)
    · rw [TieredSource.warmPaths, hc, List.mem_append, Option.mem_toList, Catalog.mem_getPartitionFilePaths]
      rcases hpath with hpath | ⟨fid, f, hf, hfid, hfstate, hfpath⟩
      · exact .inr ((hapath.trans hcpath).trans hpath)
      · refine .inl ⟨fid, Catalog.commitFile jobId f, ?_, ?_, ?_, ?_⟩
        · rw [Catalog.lookup_commitSync_files, hf]
          rfl
        · exact (Catalog.commitFile_partitionId jobId f).trans hfid
        · exact (Catalog.commitFile_eq jobId f).2.mpr hfstate
        · exact (Catalog.commitFile_eq jobId f).1.trans hfpath

/-! ### Exporting -/

section Export
variable {s : TieredSource Row} {job : TierJob} {o : DowngradeOutcomes} {run run' : ExportRun Row} {name : String}
  {done rest : List String}

namespace TieredSource

/-- The partition of a table for today, before the job. -/
def todaysPartition (s : TieredSource Row) (job : TierJob) (name : String) : Option Uuid :=
  s.catalog.findPartition s.sourceId name job.partitionDate

def exportKey (s : TieredSource Row) (job : TierJob) (o : DowngradeOutcomes) (name : String) : ObjectKey :=
  (name, job.r2Key s.name name ((s.todaysPartition job name).getD (o.newIds name)))

def Uploads (s : TieredSource Row) (job : TierJob) (o : DowngradeOutcomes) (name : String) : Prop :=
  s.tables.rows name ≠ [] ∧ s.exportKey job o name ∉ s.objects ∧ o.exports name ≠ .failed

/-- The table is exported: its rows are stored, and the job is told so. -/
def Exports (s : TieredSource Row) (job : TierJob) (o : DowngradeOutcomes) (name : String) : Prop :=
  s.tables.rows name ≠ [] ∧ s.exportKey job o name ∉ s.objects ∧ o.exports name = .written

end TieredSource

instance : DecidablePred (s.Uploads job o) := fun name =>
  inferInstanceAs (Decidable (s.tables.rows name ≠ [] ∧ s.exportKey job o name ∉ s.objects ∧ o.exports name ≠ .failed))

theorem uploads_of_exports (h : s.Exports job o name) : s.Uploads job o name :=
  ⟨h.1, h.2.1, by rw [h.2.2]; decide⟩

/-- Nothing stops the export of a table: its partition is there or can be inserted, and what is exported can be
    recorded. -/
structure ExportUnhindered (s : TieredSource Row) (job : TierJob) (o : DowngradeOutcomes) (done : List String)
    (name : String) : Prop where
  created : o.partitionCreated name = true
  fresh : s.todaysPartition job name = none → o.newIds name ∉ s.catalog.partitions ∧
    ∀ u ∈ done, s.todaysPartition job u = none → o.newIds u ≠ o.newIds name
  recorded : s.Exports job o name → o.recorded name = true ∧ job.jobId ∈ s.catalog.jobs ∧ o.tableRecorded name = true

structure ExportInv (s : TieredSource Row) (job : TierJob) (o : DowngradeOutcomes) (done : List String)
    (run : ExportRun Row) : Prop where
  files : run.catalog.files = s.catalog.files
  jobs : run.catalog.jobs = s.catalog.jobs
  found : ∀ name ∉ done,
    run.catalog.findPartition s.sourceId name job.partitionDate = s.todaysPartition job name
  ids : ∀ id, id ∈ run.catalog.partitions ↔
    id ∈ s.catalog.partitions ∨ ∃ u ∈ done, s.todaysPartition job u = none ∧ id = o.newIds u
  count : run.tablesExported = 0 ↔ ∀ name ∈ done, ¬s.Exports job o name
  unshown : ∀ key, (key.1 ∈ done → ¬s.Exports job o key.1) →
    (run.catalog.Shows s.sourceId job.jobId key ↔ s.catalog.Shows s.sourceId job.jobId key)
  shown : ∀ name ∈ done, s.Exports job o name → run.catalog.Shows s.sourceId job.jobId (s.exportKey job o name)
  objects : ∀ key, run.objects.lookup key =
    if key.1 ∈ done ∧ key = s.exportKey job o key.1 ∧ s.Uploads job o key.1 then some (s.tables.rows key.1)
    else s.objects.lookup key

/-- The partition of a table is found or inserted; the rows of other tables are as they were. -/
structure Opened (s : TieredSource Row) (job : TierJob) (o : DowngradeOutcomes) (name : String) (c c' : Catalog) :
    Prop where
  files : c'.files = c.files
  jobs : c'.jobs = c.jobs
  found : c'.findPartition s.sourceId name job.partitionDate =
    some ((s.todaysPartition job name).getD (o.newIds name))
  others : ∀ u ≠ name, c'.findPartition s.sourceId u job.partitionDate = c.findPartition s.sourceId u job.partitionDate
  ids : ∀ id, id ∈ c'.partitions ↔ id ∈ c.partitions ∨ s.todaysPartition job name = none ∧ id = o.newIds name
  shows : ∀ key, c'.Shows s.sourceId job.jobId key ↔ c.Shows s.sourceId job.jobId key

theorem opened_found {c : Catalog} {id : Uuid} (htoday : s.todaysPartition job name = some id)
    (hfound : c.findPartition s.sourceId name job.partitionDate = some id) : Opened s job o name c c where
  files := rfl
  jobs := rfl
  found := by rw [hfound, htoday]; rfl
  others _ _ := rfl
  ids _ := ⟨.inl, fun h => h.elim (fun hmem => hmem) fun hnew => absurd (htoday.symm.trans hnew.1) (by simp)⟩
  shows _ := Iff.rfl

theorem opened_inserted {c c' : Catalog} (htoday : s.todaysPartition job name = none)
    (hfresh : o.newIds name ∉ c.partitions) (hfiles : c'.files = c.files) (hjobs : c'.jobs = c.jobs)
    (hpartitions : c'.partitions = c.partitions.insert (o.newIds name)
      { sourceId := s.sourceId, tableName := name, partitionDate := job.partitionDate }) :
    Opened s job o name c c' where
  files := hfiles
  jobs := hjobs
  found := by rw [Catalog.findPartition_insert ⟨rfl, rfl, rfl⟩ hpartitions, htoday]; rfl
  others u hu := by
    refine Catalog.findPartition_insert_ne (fun h => hu h.symm) (fun q hq => ?_) hpartitions
    exact absurd (Dict.mem_iff_lookup.mpr ⟨q, hq⟩) hfresh
  ids id := by
    rw [hpartitions, AList.mem_insert, or_comm]
    exact or_congr_right ⟨fun h => ⟨htoday, h⟩, fun h => h.2⟩
  shows key := by
    unfold Catalog.Shows
    rw [hpartitions, hfiles]
    constructor
    · rintro ⟨id, p, hp, hsource, hstate, htable, hpath⟩
      rw [Dict.lookup_insert'] at hp
      split at hp
      · next hid =>
        cases hp
        -- The new partition has no path, and no file refers to it.
        rcases hpath with hpath | ⟨fid, f, hf, hfid, -⟩
        · cases hpath
        · exact absurd (hid ▸ hfid ▸ c.references fid f hf) hfresh
      · exact ⟨id, p, hp, hsource, hstate, htable, hpath⟩
    · rintro ⟨id, p, hp, hrest⟩
      refine ⟨id, p, ?_, hrest⟩
      rw [Dict.lookup_insert', if_neg fun h : id = o.newIds name => hfresh (Dict.mem_iff_lookup.mpr ⟨p, h ▸ hp⟩), hp]

theorem opened_of_getOrCreate (hinv : ExportInv s job o done run) (hname : name ∉ done) {c : Catalog}
    (h : run.catalog.getOrCreatePartition (o.newIds name) s.sourceId name job.partitionDate = some c) :
    Opened s job o name run.catalog c := by
  have hfound := hinv.found name hname
  rw [Catalog.getOrCreatePartition_eq, hfound] at h
  split at h
  · next htoday =>
    split at h
    · cases h
    · next hfresh =>
      cases h
      exact opened_inserted htoday hfresh rfl rfl rfl
  · next htoday =>
    cases h
    obtain ⟨id, hid⟩ := Option.ne_none_iff_exists'.mp htoday
    exact opened_found hid (hfound.trans hid)

theorem getOrCreate_iff (hinv : ExportInv s job o done run) (hname : name ∉ done) :
    (∃ c, run.catalog.getOrCreatePartition (o.newIds name) s.sourceId name job.partitionDate = some c) ↔
      (s.todaysPartition job name = none → o.newIds name ∉ s.catalog.partitions ∧
        ∀ u ∈ done, s.todaysPartition job u = none → o.newIds u ≠ o.newIds name) := by
  rw [Catalog.getOrCreatePartition_eq, hinv.found name hname]
  by_cases htoday : s.todaysPartition job name = none
  · rw [if_pos htoday, forall_prop_of_true htoday]
    have hids := hinv.ids (o.newIds name)
    split
    · next hmem =>
      refine iff_of_false (fun h => by obtain ⟨c, hc⟩ := h; cases hc) fun h => ?_
      rcases hids.mp hmem with hold | ⟨u, hu, hnone, heq⟩
      · exact h.1 hold
      · exact h.2 u hu hnone heq.symm
    · next hnot =>
      refine iff_of_true ⟨_, rfl⟩ ⟨fun hold => hnot (hids.mpr (.inl hold)), fun u hu hnone heq => ?_⟩
      exact hnot (hids.mpr (.inr ⟨u, hu, hnone, heq.symm⟩))
  · rw [if_neg htoday]
    exact iff_of_true ⟨_, rfl⟩ fun h => absurd h htoday

theorem mem_objects_iff (hinv : ExportInv s job o done run) (hname : name ∉ done) :
    s.exportKey job o name ∈ run.objects ↔ s.exportKey job o name ∈ s.objects := by
  rw [Dict.mem_iff_lookup, Dict.mem_iff_lookup, hinv.objects, if_neg fun h => hname h.1]

theorem exportTable_of_not_exports (hinv : ExportInv s job o done run) (hname : name ∉ done) {c : Catalog}
    (hcreated : o.partitionCreated name = true)
    (hget : run.catalog.getOrCreatePartition (o.newIds name) s.sourceId name job.partitionDate = some c)
    (hnot : ¬s.Exports job o name) : exportTable job o s run name = .ok { run with
      catalog := c
      objects := if s.Uploads job o name then run.objects.insert (s.exportKey job o name) (s.tables.rows name)
        else run.objects } := by
  have hop := opened_of_getOrCreate hinv hname hget
  have hkey :
    (name, job.r2Key s.name name ((s.todaysPartition job name).getD (o.newIds name))) = s.exportKey job o name := rfl
  rw [exportTable, if_pos hcreated, hget]
  dsimp only
  rw [hop.found]
  dsimp only
  by_cases hrows : s.tables.rows name = []
  · rw [if_pos hrows, if_neg fun h : s.Uploads job o name => h.1 hrows]
  · rw [if_neg hrows, exportTableToS3, hkey]
    by_cases hmem : s.exportKey job o name ∈ s.objects
    · rw [if_pos ((mem_objects_iff hinv hname).mpr hmem), if_neg fun h : s.Uploads job o name => h.2.1 hmem]
    · rw [if_neg fun h => hmem ((mem_objects_iff hinv hname).mp h)]
      cases hexport : o.exports name with
      | failed => rw [if_neg fun h : s.Uploads job o name => h.2.2 hexport]
      | unanswered => rw [if_pos (show s.Uploads job o name from ⟨hrows, hmem, by rw [hexport]; decide⟩)]
      | written => exact absurd ⟨hrows, hmem, hexport⟩ hnot

theorem exportTable_of_exports (hinv : ExportInv s job o done run) (hname : name ∉ done) {c : Catalog}
    (hcreated : o.partitionCreated name = true)
    (hget : run.catalog.getOrCreatePartition (o.newIds name) s.sourceId name job.partitionDate = some c)
    (hexports : s.Exports job o name) {run' : ExportRun Row} :
    exportTable job o s run name = .ok run' ↔
      ∃ c', c.updatePartitionData ((s.todaysPartition job name).getD (o.newIds name)) (s.exportKey job o name).2
          (s.tables.rows name).length (o.sizes name) (some job.jobId) = some c' ∧
        o.recorded name = true ∧ o.tableRecorded name = true ∧
        run' = { catalog := c', objects := run.objects.insert (s.exportKey job o name) (s.tables.rows name)
                 tablesExported := run.tablesExported + 1 } := by
  have hop := opened_of_getOrCreate hinv hname hget
  have hkey :
    (name, job.r2Key s.name name ((s.todaysPartition job name).getD (o.newIds name))) = s.exportKey job o name := rfl
  rw [exportTable, if_pos hcreated, hget]
  dsimp only
  rw [hop.found]
  dsimp only
  rw [if_neg hexports.1, exportTableToS3, hkey, if_neg fun h => hexports.2.1 ((mem_objects_iff hinv hname).mp h),
    hexports.2.2]
  dsimp only
  rw [TieredSource.exportKey]
  dsimp only
  cases hrecorded : o.recorded name with
  | false => simp
  | true =>
    rw [if_pos rfl]
    cases hupdate : c.updatePartitionData ((s.todaysPartition job name).getD (o.newIds name))
        (job.r2Key s.name name ((s.todaysPartition job name).getD (o.newIds name))) (s.tables.rows name).length
          (o.sizes name)
        (some job.jobId) with
    | none => simp
    | some c' =>
      cases htable : o.tableRecorded name with
      | false => simp
      | true =>
        simp only [if_true, Except.ok.injEq, Option.some.injEq, true_and, exists_eq_left']
        exact eq_comm

theorem updatePartitionData_eq {c : Catalog} {id jobId : Uuid} {p : Partition} {path : String}
    {rowCount sizeBytes : Int} (hp : c.partitions.lookup id = some p) {c' : Catalog} :
    c.updatePartitionData id path rowCount sizeBytes (some jobId) = some c' ↔ jobId ∈ c.jobs ∧
      c' = { c with
        partitions := c.partitions.insert id { p with
          parquetPath := some path, rowCount, sizeBytes, jobId := some jobId, syncState := .pending }
        references := fun fid file h => (AList.mem_insert _).mpr (Or.inr (c.references fid file h)) } := by
  have hjob : c.JobExists (some jobId) ↔ jobId ∈ c.jobs :=
    ⟨fun h => h jobId rfl, fun h j hj => Option.some.inj hj ▸ h⟩
  unfold Catalog.updatePartitionData
  rw [hp]
  dsimp only
  by_cases h : c.JobExists (some jobId)
  · rw [if_pos h, Option.some.injEq, and_iff_right (hjob.mp h)]
    exact eq_comm
  · rw [if_neg h]
    exact ⟨fun hn => (by cases hn), fun hn => absurd (hjob.mpr hn.1) h⟩

theorem exportTable_ok_iff (hinv : ExportInv s job o done run) (hname : name ∉ done) :
    (∃ run', exportTable job o s run name = .ok run') ↔ ExportUnhindered s job o done name := by
  by_cases hcreated : o.partitionCreated name = true
  · by_cases hget : ∃ c, run.catalog.getOrCreatePartition (o.newIds name) s.sourceId name job.partitionDate = some c
    · have hfresh := (getOrCreate_iff hinv hname).mp hget
      obtain ⟨c, hget⟩ := hget
      have hop := opened_of_getOrCreate hinv hname hget
      by_cases hexports : s.Exports job o name
      · obtain ⟨p, hp, -, -⟩ := Catalog.findPartition_eq_some hop.found
        have hjobs : c.jobs = s.catalog.jobs := hop.jobs.trans hinv.jobs
        constructor
        · rintro ⟨run', h⟩
          obtain ⟨c', hupdate, hrecorded, htable, -⟩ := (exportTable_of_exports hinv hname hcreated hget hexports).mp h
          exact ⟨hcreated, hfresh, fun _ => ⟨hrecorded, hjobs ▸ ((updatePartitionData_eq hp).mp hupdate).1, htable⟩⟩
        · intro h
          obtain ⟨hrecorded, hjob, htable⟩ := h.recorded hexports
          exact ⟨_, (exportTable_of_exports hinv hname hcreated hget hexports).mpr
            ⟨_, (updatePartitionData_eq hp).mpr ⟨hjobs ▸ hjob, rfl⟩, hrecorded, htable, rfl⟩⟩
      · exact iff_of_true ⟨_, exportTable_of_not_exports hinv hname hcreated hget hexports⟩
          ⟨hcreated, hfresh, fun h => absurd h hexports⟩
    · refine iff_of_false (fun h => ?_) fun h => hget ((getOrCreate_iff hinv hname).mpr h.fresh)
      obtain ⟨run', h⟩ := h
      rw [exportTable, if_pos hcreated, Option.eq_none_iff_forall_ne_some.mpr fun c hc => hget ⟨c, hc⟩] at h
      cases h
  · refine iff_of_false (fun h => ?_) fun h => hcreated h.created
    obtain ⟨run', h⟩ := h
    rw [exportTable, if_neg hcreated] at h
    cases h

theorem ExportInv.ids_opened (hinv : ExportInv s job o done run) {c : Catalog} (hop : Opened s job o name run.catalog c)
    (id : Uuid) : id ∈ c.partitions ↔
      id ∈ s.catalog.partitions ∨ ∃ u ∈ done ++ [name], s.todaysPartition job u = none ∧ id = o.newIds u := by
  rw [hop.ids, hinv.ids]
  constructor
  · rintro ((hold | ⟨u, hu, hnone⟩) | hnew)
    · exact .inl hold
    · exact .inr ⟨u, List.mem_append_left _ hu, hnone⟩
    · exact .inr ⟨name, List.mem_append_right _ (List.mem_singleton_self _), hnew⟩
  · rintro (hold | ⟨u, hu, hnone⟩)
    · exact .inl (.inl hold)
    · rcases List.mem_append.mp hu with hu | hu
      · exact .inl (.inr ⟨u, hu, hnone⟩)
      · exact .inr (List.mem_singleton.mp hu ▸ hnone)

theorem ExportInv.objects_uploaded (hinv : ExportInv s job o done run) (hname : name ∉ done) (key : ObjectKey) :
    (if s.Uploads job o name then run.objects.insert (s.exportKey job o name) (s.tables.rows name)
      else run.objects).lookup key =
    if key.1 ∈ done ++ [name] ∧ key = s.exportKey job o key.1 ∧ s.Uploads job o key.1 then some (s.tables.rows key.1)
    else s.objects.lookup key := by
  have hlookup : (if s.Uploads job o name then run.objects.insert (s.exportKey job o name) (s.tables.rows name)
      else run.objects).lookup key =
      if s.Uploads job o name ∧ key = s.exportKey job o name then some (s.tables.rows name)
      else run.objects.lookup key := by
    by_cases hup : s.Uploads job o name
    · rw [if_pos hup, Dict.lookup_insert']
      simp only [hup, true_and]
    · rw [if_neg hup, if_neg fun h => hup h.1]
  rw [hlookup, hinv.objects]
  by_cases hkey : key.1 = name
  · have hmem : name ∈ done ++ [name] := List.mem_append_right _ (List.mem_singleton_self _)
    rw [if_neg fun h : key.1 ∈ done ∧ _ => hname (hkey ▸ h.1)]
    simp only [hkey]
    exact if_congr ⟨fun h => ⟨hmem, h.2, h.1⟩, fun h => ⟨h.2.2, h.2.1⟩⟩ rfl rfl
  · have hmem : key.1 ∈ done ++ [name] ↔ key.1 ∈ done := by
      rw [List.mem_append, List.mem_singleton, or_iff_left hkey]
    rw [if_neg fun h : s.Uploads job o name ∧ key = s.exportKey job o name => hkey (by rw [h.2]; rfl)]
    simp only [hmem]

theorem shows_insert {c c' : Catalog} {id sourceId jobId : Uuid} {p p' : Partition} {key : ObjectKey}
    (hp : c.partitions.lookup id = some p) (htable : p.tableName ≠ key.1) (htable' : p'.tableName ≠ key.1)
    (hfiles : c'.files = c.files) (hpartitions : c'.partitions = c.partitions.insert id p') :
    c'.Shows sourceId jobId key ↔ c.Shows sourceId jobId key := by
  unfold Catalog.Shows
  rw [hfiles, hpartitions]
  constructor
  · rintro ⟨id', q, hq, hsource, hstate, hqtable, hpath⟩
    rw [Dict.lookup_insert'] at hq
    split at hq
    · cases hq
      exact absurd hqtable htable'
    · exact ⟨id', q, hq, hsource, hstate, hqtable, hpath⟩
  · rintro ⟨id', q, hq, hsource, hstate, hqtable, hpath⟩
    refine ⟨id', q, ?_, hsource, hstate, hqtable, hpath⟩
    rw [Dict.lookup_insert', if_neg, hq]
    rintro rfl
    cases hp.symm.trans hq
    exact htable hqtable

theorem exportTable_not_exports_inv (hinv : ExportInv s job o done run) (hname : name ∉ done) {c : Catalog}
    (hop : Opened s job o name run.catalog c) (hnot : ¬s.Exports job o name) :
    ExportInv s job o (done ++ [name]) { run with
      catalog := c
      objects := if s.Uploads job o name then run.objects.insert (s.exportKey job o name) (s.tables.rows name)
        else run.objects } where
  files := hop.files.trans hinv.files
  jobs := hop.jobs.trans hinv.jobs
  found u hu := by
    rw [List.mem_append, List.mem_singleton, not_or] at hu
    exact (hop.others u hu.2).trans (hinv.found u hu.1)
  ids := hinv.ids_opened hop
  count := by
    rw [hinv.count, List.forall_mem_append, List.forall_mem_singleton, and_iff_left hnot]
  unshown key hkey := by
    rw [hop.shows, hinv.unshown key fun h => hkey (List.mem_append_left _ h)]
  shown u hu hexports := by
    rw [hop.shows]
    rcases List.mem_append.mp hu with hu | hu
    · exact hinv.shown u hu hexports
    · exact absurd (List.mem_singleton.mp hu ▸ hexports) hnot
  objects := hinv.objects_uploaded hname

theorem exportTable_exports_inv (hinv : ExportInv s job o done run) (hname : name ∉ done) {c c' : Catalog}
    (hop : Opened s job o name run.catalog c) (hexports : s.Exports job o name)
    (hupdate : c.updatePartitionData ((s.todaysPartition job name).getD (o.newIds name)) (s.exportKey job o name).2
      (s.tables.rows name).length (o.sizes name) (some job.jobId) = some c') :
    ExportInv s job o (done ++ [name]) { catalog := c'
                                         objects := run.objects.insert (s.exportKey job o name) (s.tables.rows name)
                                         tablesExported := run.tablesExported + 1 } := by
  obtain ⟨p, hp, hsource, htable⟩ := Catalog.findPartition_eq_some hop.found
  obtain ⟨-, hc'⟩ := (updatePartitionData_eq hp).mp hupdate
  obtain ⟨p', hpartitions, hsource', htable', hjob', hpath'⟩ : ∃ p' : Partition,
      c'.partitions = c.partitions.insert ((s.todaysPartition job name).getD (o.newIds name)) p' ∧
        p'.sourceId = s.sourceId ∧ p'.tableName = name ∧ p'.jobId = some job.jobId ∧
        p'.parquetPath = some (s.exportKey job o name).2 :=
          ⟨_, congrArg Catalog.partitions hc', hsource, htable, rfl, rfl⟩
  have hfiles : c'.files = c.files := by rw [hc']
  have hjobs : c'.jobs = c.jobs := by rw [hc']
  have hothers : ∀ key : ObjectKey, name ≠ key.1 →
      (c'.Shows s.sourceId job.jobId key ↔ run.catalog.Shows s.sourceId job.jobId key) := fun key hne =>
    (shows_insert hp (htable ▸ hne) (htable' ▸ hne) hfiles hpartitions).trans (hop.shows key)
  refine ⟨hfiles.trans (hop.files.trans hinv.files), hjobs.trans (hop.jobs.trans hinv.jobs), fun u hu => ?_,
    fun id => ?_, ?_, fun key hkey => ?_, fun u hu hu' => ?_, fun key => ?_⟩
  · rw [List.mem_append, List.mem_singleton, not_or] at hu
    refine Eq.trans ?_ ((hop.others u hu.2).trans (hinv.found u hu.1))
    refine Catalog.findPartition_insert_ne (fun h => hu.2 (h.symm.trans htable')) (fun q hq h => ?_) hpartitions
    cases hp.symm.trans hq
    exact hu.2 (h.symm.trans htable)
  · rw [← hinv.ids_opened hop, hpartitions]
    refine (AList.mem_insert _).trans (or_iff_right_of_imp ?_)
    rintro rfl
    exact Dict.mem_iff_lookup.mpr ⟨p, hp⟩
  · refine iff_of_false (Nat.succ_ne_zero _) fun h => ?_
    exact h name (List.mem_append_right _ (List.mem_singleton_self _)) hexports
  · have hne : name ≠ key.1 := by
      rintro rfl
      exact hkey (List.mem_append_right _ (List.mem_singleton_self _)) hexports
    rw [hothers key hne, hinv.unshown key fun h => hkey (List.mem_append_left _ h)]
  · rcases List.mem_append.mp hu with hu | hu
    · exact (hothers _ fun h => hname (h ▸ hu)).mpr (hinv.shown u hu hu')
    · rw [List.mem_singleton.mp hu]
      exact ⟨_, p', by rw [hpartitions, AList.lookup_insert], hsource', .inr hjob', htable', .inl hpath'⟩
  · have hup := hinv.objects_uploaded hname key
    rwa [if_pos (uploads_of_exports hexports)] at hup

theorem exportTable_inv (hinv : ExportInv s job o done run) (hname : name ∉ done)
    (h : exportTable job o s run name = .ok run') : ExportInv s job o (done ++ [name]) run' := by
  obtain ⟨hcreated, hfresh, -⟩ := (exportTable_ok_iff hinv hname).mp ⟨run', h⟩
  obtain ⟨c, hget⟩ := (getOrCreate_iff hinv hname).mpr hfresh
  have hop := opened_of_getOrCreate hinv hname hget
  by_cases hexports : s.Exports job o name
  · obtain ⟨c', hupdate, -, -, rfl⟩ := (exportTable_of_exports hinv hname hcreated hget hexports).mp h
    exact exportTable_exports_inv hinv hname hop hexports hupdate
  · rw [exportTable_of_not_exports hinv hname hcreated hget hexports] at h
    cases h
    exact exportTable_not_exports_inv hinv hname hop hexports

theorem exportInv_start (s : TieredSource Row) (job : TierJob) (o : DowngradeOutcomes) :
    ExportInv s job o [] { catalog := s.catalog, objects := s.objects, tablesExported := 0 } where
  files := rfl
  jobs := rfl
  found _ _ := rfl
  ids _ := ⟨.inl, fun h => h.resolve_right fun ⟨_, hu, _⟩ => List.not_mem_nil hu⟩
  count := ⟨fun _ _ hname => absurd hname List.not_mem_nil, fun _ => rfl⟩
  unshown _ _ := Iff.rfl
  shown _ hname := absurd hname List.not_mem_nil
  objects _ := (if_neg fun h => List.not_mem_nil h.1).symm

theorem not_mem_done (h : s.tables.byName.keys = done ++ name :: rest) : name ∉ done := by
  have hnd : (done ++ name :: rest).Nodup := h ▸ s.tables.byName.keys_nodup
  exact fun hmem => List.disjoint_of_nodup_append hnd hmem List.mem_cons_self

theorem exportTables_inv (h : s.tables.byName.keys.foldlM (exportTable job o s)
    { catalog := s.catalog, objects := s.objects, tablesExported := 0 } = .ok run) :
    ExportInv s job o s.tables.byName.keys run :=
  foldlM_inv (exportInv_start s job o)
    (fun _ _ _ hl _ _ hinv hstep => exportTable_inv hinv (not_mem_done hl) hstep) h

theorem exportTables_ok_iff : (∃ run, s.tables.byName.keys.foldlM (exportTable job o s)
    { catalog := s.catalog, objects := s.objects, tablesExported := 0 } = .ok run) ↔
    ∀ done name rest, s.tables.byName.keys = done ++ name :: rest → ExportUnhindered s job o done name :=
  foldlM_ok_iff (exportInv_start s job o)
    (fun _ _ _ hl _ _ hinv hstep => exportTable_inv hinv (not_mem_done hl) hstep)
    fun _ _ _ hl _ hinv => exportTable_ok_iff hinv (not_mem_done hl)

end Export

/-! ### Downgrades -/

section Downgrade
variable {s : TieredSource Row} {job : TierJob} {o : DowngradeOutcomes} {name : String}

/-- The downgrade drops the tables without an export, for a backing source that has data. -/
structure DowngradeSkips (s : TieredSource Row) (o : DowngradeOutcomes) : Prop where
  hot : s.tier = .hot
  backed : o.backingChecked = true ∧ s.backing.isSome = true
  tierUpdated : o.tierUpdated = true

/-- The downgrade exports what it can, and no step fails that ends it. -/
structure DowngradeCompletes (s : TieredSource Row) (job : TierJob) (o : DowngradeOutcomes) : Prop where
  hot : s.tier = .hot
  unbacked : ¬(o.backingChecked = true ∧ s.backing.isSome = true)
  listed : o.listed = true
  unhindered : ∀ done name rest, s.tables.byName.keys = done ++ name :: rest → ExportUnhindered s job o done name
  any : ∃ name, s.Exports job o name
  committed : o.committed = true
  tierUpdated : o.tierUpdated = true

namespace TieredSource

/-- No table with rows that another source reads is dropped. -/
def Spares (s : TieredSource Row) (o : DowngradeOutcomes) : Prop :=
  ∀ name, s.ReadElsewhere name → s.tables.rows name = [] ∨ o.dropped name = false

def asWarm (s : TieredSource Row) : TieredSource Row := { s with tier := .warm }

/-- The warm tier that a commit of the job shows, with what ClickHouse stored of one table. -/
def committedWith (s : TieredSource Row) (job : TierJob) (o : DowngradeOutcomes) (name : String) : TieredSource Row :=
  { s with
    tier := .warm
    catalog := s.catalog.commitSync job.jobId s.sourceId
    objects := if s.Uploads job o name then s.objects.insert (s.exportKey job o name) (s.tables.rows name)
      else s.objects }

/-- The source after its tables are exported and committed, and dropped. -/
def exported (s : TieredSource Row) (job : TierJob) (run : ExportRun Row) (dropped : String → Bool) :
    TieredSource Row :=
  { s with
    catalog := run.catalog.commitSync job.jobId s.sourceId
    objects := run.objects
    tier := .warm
    tables := s.tables.dropSourceTables dropped }

end TieredSource

theorem rows_eq_nil_of_not_mem (h : name ∉ s.tables.byName.keys) : s.tables.rows name = [] := by
  rw [ClickHouseTables.rows, AList.lookup_eq_none.mpr fun hmem => h (AList.mem_keys.mp hmem)]
  rfl

theorem sanitize_of_mem (h : name ∈ s.tables.byName.keys) : sanitizeIdentifier name = name :=
  s.tables.sanitized name (AList.mem_keys.mpr h)

theorem exported_of_exports {run : ExportRun Row} {dropped : String → Bool}
    (hinv : ExportInv s job o s.tables.byName.keys run) (h : s.Exports job o name) :
    (s.tables.rows name).Subperm ((s.exported job run dropped).storage name) := by
  have hmem : name ∈ s.tables.byName.keys := by_contra fun hnot => h.1 (rows_eq_nil_of_not_mem hnot)
  have hkey : s.exportKey job o name ∈ (s.exported job run dropped).warmKeys name :=
    (mem_warmKeys_commitSync rfl rfl).mpr ⟨sanitize_of_mem hmem, hinv.shown name hmem h⟩
  have hstored : (s.exported job run dropped).stored (s.exportKey job o name) = s.tables.rows name := by
    rw [TieredSource.stored, TieredSource.exported]
    dsimp only
    rw [hinv.objects, if_pos ⟨hmem, rfl, uploads_of_exports h⟩]
    rfl
  have hwarm := TieredSource.stored_subperm_warmRows hkey
  rw [hstored] at hwarm
  exact hwarm.trans (List.sublist_append_left _ _).subperm

/-- Of a table that is not exported, the warm tier shows what it would without the job's exports. -/
theorem exported_of_not_exports {run : ExportRun Row} {dropped : String → Bool}
    (hinv : ExportInv s job o s.tables.byName.keys run) (hmem : name ∈ s.tables.byName.keys)
    (hnot : ¬s.Exports job o name) :
    ((s.exported job run dropped).storage name).Perm ((s.committedWith job o name).storage name) := by
  have hsame : ∀ key : ObjectKey, sanitizeIdentifier key.1 = name → key.1 ∈ s.tables.byName.keys → key.1 = name :=
    fun key hname hkey => (sanitize_of_mem hkey).symm.trans hname
  have hkeys : ((s.exported job run dropped).warmKeys name).Perm ((s.committedWith job o name).warmKeys name) := by
    refine (List.perm_ext_iff_of_nodup (TieredSource.warmKeys_nodup _ _) (TieredSource.warmKeys_nodup _ _)).mpr
      fun key => ?_
    have hexported : key ∈ (s.exported job run dropped).warmKeys name ↔
        sanitizeIdentifier key.1 = name ∧ run.catalog.Shows s.sourceId job.jobId key := mem_warmKeys_commitSync rfl rfl
    have hcommitted : key ∈ (s.committedWith job o name).warmKeys name ↔
        sanitizeIdentifier key.1 = name ∧ s.catalog.Shows s.sourceId job.jobId key := mem_warmKeys_commitSync rfl rfl
    rw [hexported, hcommitted]
    refine and_congr_right fun hname => hinv.unshown key fun hkey => ?_
    rw [hsame key hname hkey]
    exact hnot
  have hstored : ∀ key ∈ (s.committedWith job o name).warmKeys name,
      (s.exported job run dropped).stored key = (s.committedWith job o name).stored key := by
    intro key hkey
    have hname := (TieredSource.mem_warmKeys.mp hkey).1
    rw [TieredSource.stored, TieredSource.stored, TieredSource.exported, TieredSource.committedWith]
    dsimp only
    rw [hinv.objects]
    by_cases heq : key.1 = name
    · rw [heq]
      by_cases hup : s.Uploads job o name
      · rw [if_pos hup, Dict.lookup_insert']
        exact congrArg (Option.getD · []) (if_congr ⟨fun h => h.2.1, fun h => ⟨hmem, h, hup⟩⟩ rfl rfl)
      · rw [if_neg hup, if_neg fun h => hup h.2.2]
    · rw [if_neg fun h => heq (hsame key hname h.1)]
      split
      · rw [Dict.lookup_insert', if_neg fun h => heq (by rw [h]; rfl)]
      · rfl
  have hrows : ((s.exported job run dropped).warmRows name).Perm ((s.committedWith job o name).warmRows name) := by
    refine (hkeys.flatMap_right _).trans (List.Perm.of_eq ?_)
    exact List.flatMap_congr hstored
  exact hrows.append_right _

theorem kept_of_hot {s' : TieredSource Row} (hs : s.tier = .hot) (hs' : s'.tier = .hot)
    (htables : s'.tables = s.tables) :
    s.Kept s' where
  own name := by rw [TieredSource.queryable, hs, TieredSource.storage, hs', htables]
  others name _ := by rw [htables]

/-- What a downgrade can do: nothing that loses a row, the drop of all tables for a backing source, or their export,
    the commit, and the drop. -/
theorem executeDowngradeToWarm_cases (job : TierJob) (o : DowngradeOutcomes) (s : TieredSource Row) :
    (¬DowngradeSkips s o ∧ ¬DowngradeCompletes s job o ∧ s.Kept (executeDowngradeToWarm job o s)) ∨
      (DowngradeSkips s o ∧ executeDowngradeToWarm job o s =
        { s with tier := .warm, tables := s.tables.dropSourceTables o.dropped }) ∨
      (DowngradeCompletes s job o ∧ ∃ run, ExportInv s job o s.tables.byName.keys run ∧
        executeDowngradeToWarm job o s = s.exported job run o.dropped) := by
  unfold executeDowngradeToWarm
  by_cases hhot : s.tier = .hot
  · rw [if_neg fun h => h hhot]
    by_cases hbacked : o.backingChecked = true ∧ s.backing.isSome = true
    · rw [if_pos hbacked]
      split
      · next htier => exact .inr (.inl ⟨⟨hhot, hbacked, htier⟩, rfl⟩)
      · next htier =>
        exact .inl ⟨fun h => htier h.tierUpdated, fun h => htier h.tierUpdated, kept_of_hot hhot hhot rfl⟩
    · rw [if_neg hbacked]
      have hskips : ¬DowngradeSkips s o := fun h => hbacked h.backed
      split
      · next hlisted =>
        split
        · next hnone =>
          have hrows : ∀ name, s.tables.rows name = [] := fun name =>
            rows_eq_nil_of_not_mem (hnone ▸ List.not_mem_nil)
          refine .inl ⟨hskips, fun h => ?_, fun name => ?_, fun name _ => hrows name ▸ List.nil_subperm⟩
          · obtain ⟨name, hname⟩ := h.any
            exact hname.1 (hrows name)
          · rw [TieredSource.queryable, hhot]
            exact hrows name ▸ List.nil_subperm
        · split
          · next run hrun =>
            refine .inl ⟨hskips, fun h => ?_, kept_of_hot hhot hhot rfl⟩
            obtain ⟨run', hrun'⟩ := exportTables_ok_iff.mpr h.unhindered
            cases hrun'.symm.trans hrun
          · next run hrun =>
            have hinv := exportTables_inv hrun
            have hany : run.tablesExported = 0 ↔ ¬∃ name, s.Exports job o name := by
              rw [hinv.count, not_exists]
              refine ⟨fun h name hname => h name ?_ hname, fun h name _ => h name⟩
              exact by_contra fun hnot => hname.1 (rows_eq_nil_of_not_mem hnot)
            split
            · next hends =>
              refine .inl ⟨hskips, fun h => ?_, kept_of_hot hhot hhot rfl⟩
              rcases hends with hzero | hcommitted
              · exact absurd h.any (hany.mp hzero)
              · exact absurd (h.committed.symm.trans hcommitted) (by decide)
            · next hgoes =>
              rw [not_or] at hgoes
              dsimp only
              split
              · next htier =>
                exact .inr (.inr ⟨⟨hhot, hbacked, hlisted, exportTables_ok_iff.mp ⟨run, hrun⟩,
                  not_not.mp fun h => hgoes.1 (hany.mpr h), eq_true_of_ne_false hgoes.2, htier⟩, run, hinv, rfl⟩)
              · next htier => exact .inl ⟨hskips, fun h => htier h.tierUpdated, kept_of_hot hhot hhot rfl⟩
      · next hlisted => exact .inl ⟨hskips, fun h => hlisted h.listed, kept_of_hot hhot hhot rfl⟩
  · rw [if_pos hhot]
    refine .inl ⟨fun h => hhot h.hot, fun h => hhot h.hot, ⟨fun name => s.queryable_subperm_storage name, ?_⟩⟩
    exact fun name _ => List.Subperm.refl _

theorem exported_keeps_iff {run : ExportRun Row} {dropped : String → Bool} (hhot : s.tier = .hot)
    (hinv : ExportInv s job o s.tables.byName.keys run) (name : String) :
    (s.queryable name).Subperm ((s.exported job run dropped).storage name) ↔
      s.Exports job o name ∨ (s.tables.rows name).Subperm ((s.committedWith job o name).storage name) := by
  rw [TieredSource.queryable, hhot]
  by_cases hmem : name ∈ s.tables.byName.keys
  · by_cases hexports : s.Exports job o name
    · exact iff_of_true (exported_of_exports hinv hexports) (.inl hexports)
    · rw [or_iff_right hexports]
      exact (exported_of_not_exports hinv hmem hexports).subperm_left
  · dsimp only
    rw [rows_eq_nil_of_not_mem hmem]
    exact iff_of_true List.nil_subperm (.inr List.nil_subperm)

/-- A downgrade keeps every row exactly if it ends early, or each table is exported or held by the warm tier
    already, and no table of another source is dropped. -/
theorem downgrade_kept_iff : s.Kept (executeDowngradeToWarm job o s) ↔
    (DowngradeSkips s o → s.Spares o ∧ ∀ name, (s.tables.rows name).Subperm (s.asWarm.storage name)) ∧
      (DowngradeCompletes s job o → s.Spares o ∧ ∀ name, s.Exports job o name ∨
        (s.tables.rows name).Subperm ((s.committedWith job o name).storage name)) := by
  have hspares : (∀ name, s.ReadElsewhere name →
      (s.tables.rows name).Subperm ((s.tables.dropSourceTables o.dropped).rows name)) ↔ s.Spares o :=
    forall₂_congr fun name _ => ClickHouseTables.rows_subperm_dropSourceTables ..
  rcases executeDowngradeToWarm_cases job o s with ⟨hskips, hcompletes, hkept⟩ | ⟨hskips, heq⟩ |
    ⟨hcompletes, run, hinv, heq⟩
  · exact iff_of_true hkept ⟨fun h => absurd h hskips, fun h => absurd h hcompletes⟩
  · rw [heq, forall_prop_of_true hskips, and_iff_left fun h => absurd hskips.backed h.unbacked, ← hspares]
    have hown : ∀ name, s.queryable name = s.tables.rows name := fun name => by
      rw [TieredSource.queryable, hskips.hot]
    exact ⟨fun h => ⟨h.others, fun name => hown name ▸ h.own name⟩,
      fun h => ⟨fun name => (hown name).symm ▸ h.2 name, h.1⟩⟩
  · rw [heq, forall_prop_of_true hcompletes, and_iff_right fun h => absurd h.backed hcompletes.unbacked, ← hspares]
    have hown : ∀ name, (s.queryable name).Subperm ((s.exported job run o.dropped).storage name) ↔
      s.Exports job o name ∨
        (s.tables.rows name).Subperm ((s.committedWith job o name).storage name) :=
      exported_keeps_iff hcompletes.hot hinv
    exact ⟨fun h => ⟨h.others, fun name => (hown name).mp (h.own name)⟩,
      fun h => ⟨fun name => (hown name).mpr (h.2 name), h.1⟩⟩

end Downgrade

/-! ### Moves -/

/-- A table that a downgrade wrote, in one file, and one that a sync wrote, in a file under a prefix. -/
def mixedCatalog : Catalog where
  partitions := Dict.ofPairs [
    (1, { sourceId := 0, tableName := "orders", partitionDate := 0, parquetPath := some "orders/0/1.parquet" }),
    (2, { sourceId := 0, tableName := "items", partitionDate := 0, parquetPath := some "items/0/" })]
  files := AList.singleton 3
    { partitionId := 2, filePath := "items/0/3.parquet", syncVersion := 1, rowCount := 1, sizeBytes := 1, opTypes := "I"
      jobId := none, syncState := .committed }
  jobs := ∅
  references := by
    intro id file h
    have hid : file.partitionId = 2 := by
      by_cases hid : id = 3
      · subst hid
        cases h
        rfl
      · cases (AList.lookup_eq_none.mpr fun hmem => hid ((AList.mem_keys.mp hmem |> List.mem_singleton.mp))).symm.trans
          h
    rw [hid]
    decide

def idField : Field := ⟨"id", .int64, false⟩

def warmSource : TieredSource TypedRow where
  sourceId := 0
  name := "shop"
  tier := .warm
  catalog := mixedCatalog
  objects := Dict.ofPairs [(("orders", "orders/0/1.parquet"), [[(idField, some (.int 1))]]),
    (("items", "items/0/3.parquet"), [[(idField, some (.int 2))]])]
  tables := .empty
  backing := none
  others := []

def upgradeSucceeds : UpgradeOutcomes where
  listed := true
  downloads _ := true
  parses _ := .reads
  creates _ := true
  imports _ := .imported
  tierUpdated := true
  filesListed _ := true
  deletes _ := true
  recordsDeleted _ := true

def hotSource : TieredSource TypedRow where
  sourceId := 0
  name := "shop"
  tier := .hot
  catalog := { Catalog.empty with jobs := AList.singleton 7 { status := .running } }
  objects := ∅
  tables := (ClickHouseTables.empty.insertRows "orders" [[(idField, some (.int 1))]]).insertRows "items"
    [[(idField, some (.int 2))]]
  backing := none
  others := []

def downgradeJob : TierJob where
  jobId := 7
  projectId := "p"
  partitionDate := 0
  formatDate _ := "1970-01-01"

/-- The export of `items` fails. -/
def exportFails : DowngradeOutcomes where
  backingChecked := true
  listed := true
  newIds name := if name = "orders" then 1 else 2
  partitionCreated _ := true
  exports name := if name = "orders" then .written else .failed
  sizes _ := 1
  recorded _ := true
  tableRecorded _ := true
  committed := true
  tierUpdated := true
  dropped _ := true

/-- The table `orders` of the source `shop_eu` carries the prefix of `shop`. -/
def sharedSource : TieredSource TypedRow :=
  { hotSource with
    tables := hotSource.tables.insertRows "eu_orders" [[(idField, some (.int 3))]]
    others := [⟨"shop_eu", ["orders"]⟩] }

def allSucceeds : DowngradeOutcomes :=
  { exportFails with
    newIds := fun name => name.length
    exports := fun _ => .written }

end Reiver.Pond
