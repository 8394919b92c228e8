import Reiver.Pond.Sync.Catalog

/-! # Sync jobs on the partition catalog

Any interleaving of the statements of sync jobs, job status changes and orphan clean-ups. A job that touches a
partition takes it over: the partition becomes pending under the job, with the files it already held. What was
committed stays visible exactly if such a partition is committed before its job stops running
(`alwaysKept_iff`). -/

namespace Reiver.Pond

/-- The catalog, the time, and the files committed so far and not replaced since. -/
structure Warehouse where
  catalog : Catalog
  now : Int
  ledger : List Uuid

inductive SyncAction where
  | insertJob (jobId : Uuid)
  | updateJobStatus (jobId : Uuid) (status : JobStatus)
  | getOrCreatePartition (id sourceId : Uuid) (tableName : String) (partitionDate : NaiveDate)
  | addPartitionFile (id partitionId : Uuid) (filePath : String) (syncVersion rowCount sizeBytes : Int)
      (opTypes : String) (jobId : Option Uuid)
  | swapPartitionFiles (partitionId : Uuid) (oldFileIds : List Uuid) (newFiles : List (Uuid × NewPartitionFile))
      (syncVersion : Int)
  | updatePartitionData (partitionId : Uuid) (parquetPath : String) (rowCount sizeBytes : Int) (jobId : Option Uuid)
  | commitSync (jobId sourceId : Uuid)
  | cleanupOrphans (sourceId : Uuid)
  | tick (seconds : Nat)

/-- The files that a commit of the job commits. -/
def Catalog.pendingFiles (c : Catalog) (jobId : Uuid) : List Uuid :=
  (c.files.pairs.filter fun e => e.2.jobId = some jobId ∧ e.2.syncState = .pending).map Prod.fst

namespace Warehouse

def init : Warehouse := { catalog := .empty, now := 0, ledger := [] }

def withCatalog (w : Warehouse) (catalog : Catalog) : Warehouse := { w with catalog }

def step (w : Warehouse) : SyncAction → Option Warehouse
  | .insertJob jobId => (w.catalog.insertJob jobId).map w.withCatalog
  | .updateJobStatus jobId status => some (w.withCatalog (w.catalog.updateJobStatus w.now jobId status))
  | .getOrCreatePartition id sourceId tableName partitionDate =>
    (w.catalog.getOrCreatePartition id sourceId tableName partitionDate).map w.withCatalog
  | .addPartitionFile id partitionId filePath syncVersion rowCount sizeBytes opTypes jobId =>
    (w.catalog.addPartitionFile id partitionId filePath syncVersion rowCount sizeBytes opTypes jobId).map w.withCatalog
  | .swapPartitionFiles partitionId oldFileIds newFiles syncVersion =>
    (w.catalog.swapPartitionFiles partitionId oldFileIds newFiles syncVersion).map fun catalog =>
      { w with catalog, ledger := (w.ledger ++ newFiles.map Prod.fst).filter (· ∉ oldFileIds) }
  | .updatePartitionData partitionId parquetPath rowCount sizeBytes jobId =>
    (w.catalog.updatePartitionData partitionId parquetPath rowCount sizeBytes jobId).map w.withCatalog
  | .commitSync jobId sourceId =>
    some { w with
      catalog := w.catalog.commitSync jobId sourceId, ledger := w.ledger ++ w.catalog.pendingFiles jobId }
  | .cleanupOrphans sourceId => some (w.withCatalog (w.catalog.cleanupOrphans w.now sourceId))
  | .tick seconds => some { w with now := w.now + seconds }

end Warehouse

/-! ### What must hold of committed files -/

namespace Catalog

def Running (c : Catalog) (jobId : Uuid) : Prop := ∃ job, c.jobs.lookup jobId = some job ∧ job.status = .running

/-- The partition is committed, or part of a job that is still running. -/
def Standing (c : Catalog) (partitionId : Uuid) : Prop :=
  ∃ p, c.partitions.lookup partitionId = some p ∧
    (p.syncState = .committed ∨ ∃ j, p.jobId = some j ∧ c.Running j)

theorem Standing.mono {c c' : Catalog} {partitionId : Uuid} (h : c.Standing partitionId)
    (hp : ∀ p, c.partitions.lookup partitionId = some p → c'.partitions.lookup partitionId = some p)
    (hrun : ∀ j, c.Running j → c'.Running j) : c'.Standing partitionId := by
  obtain ⟨p, hlook, hstate⟩ := h
  exact ⟨p, hp p hlook, hstate.imp_right fun ⟨j, hj, hr⟩ => ⟨j, hj, hrun j hr⟩⟩

/-- The file is registered as committed, in a partition that stands. -/
def KeptFile (c : Catalog) (id : Uuid) : Prop :=
  ∃ file, c.files.lookup id = some file ∧ file.syncState = .committed ∧ c.Standing file.partitionId

theorem KeptFile.mono {c c' : Catalog} {id : Uuid} (h : c.KeptFile id)
    (hfile : ∀ file, c.files.lookup id = some file → c'.files.lookup id = some file)
    (hstand : ∀ partitionId, c.Standing partitionId → c'.Standing partitionId) : c'.KeptFile id := by
  obtain ⟨file, hlook, hstate, hp⟩ := h
  exact ⟨file, hfile file hlook, hstate, hstand _ hp⟩

end Catalog

namespace Warehouse

def Kept (w : Warehouse) : Prop := ∀ id ∈ w.ledger, w.catalog.KeptFile id

/-- The partition holds a file that was committed and not replaced since. -/
def HoldsCommitted (w : Warehouse) (partitionId : Uuid) : Prop :=
  ∃ id ∈ w.ledger, ∃ file, w.catalog.files.lookup id = some file ∧ file.partitionId = partitionId

/-- A job stops running, a partition is taken over or files are committed only where no committed file is left
    in a pending partition without a running job. -/
def Safe (w : Warehouse) : SyncAction → Prop
  | .updateJobStatus jobId status =>
    status = .running ∨ ∀ id p, w.catalog.partitions.lookup id = some p → p.syncState = .pending →
      p.jobId = some jobId → ¬w.HoldsCommitted id
  | .swapPartitionFiles partitionId _ newFiles _ => newFiles = [] ∨ w.catalog.Standing partitionId
  | .updatePartitionData partitionId _ _ _ jobId =>
    (∀ j ∈ jobId, w.catalog.Running j) ∨ ¬w.HoldsCommitted partitionId
  | .commitSync jobId _ =>
    ∀ id file, w.catalog.files.lookup id = some file → file.jobId = some jobId → file.syncState = .pending →
      w.catalog.Standing file.partitionId ∨
        ∃ p, w.catalog.partitions.lookup file.partitionId = some p ∧ p.jobId = some jobId
  | _ => True

section Steps
variable {w w' : Warehouse} {c c' : Catalog} {id : Uuid}

theorem kept_insertJob {jobId : Uuid} (h : Kept w) (hstep : w.catalog.insertJob jobId = some c') :
    Kept (w.withCatalog c') := by
  unfold Catalog.insertJob at hstep
  split at hstep
  · cases hstep
  · next hfresh =>
    cases hstep
    refine fun fid hfid => (h fid hfid).mono (fun _ hfile => hfile) fun pid hp => hp.mono (fun _ hp => hp) ?_
    rintro j ⟨job, hjob, hrun⟩
    have hne : j ≠ jobId := fun heq => hfresh (Dict.mem_iff_lookup.mpr ⟨job, heq ▸ hjob⟩)
    exact ⟨job, (AList.lookup_insert_ne hne).trans hjob, hrun⟩

theorem kept_getOrCreatePartition {sourceId : Uuid} {tableName : String} {date : NaiveDate} (h : Kept w)
    (hstep : w.catalog.getOrCreatePartition id sourceId tableName date = some c') : Kept (w.withCatalog c') := by
  unfold Catalog.getOrCreatePartition at hstep
  split at hstep
  · cases hstep
    exact h
  · split at hstep
    · cases hstep
    · next hfresh =>
      cases hstep
      refine fun fid hfid => (h fid hfid).mono (fun _ hfile => hfile) fun pid hp =>
        hp.mono (fun p hp => ?_) fun _ hj => hj
      have hne : pid ≠ id := fun heq => hfresh (Dict.mem_iff_lookup.mpr ⟨p, heq ▸ hp⟩)
      exact (AList.lookup_insert_ne hne).trans hp

theorem kept_addPartitionFile {partitionId : Uuid} {filePath opTypes : String} {syncVersion rowCount sizeBytes : Int}
    {jobId : Option Uuid} (h : Kept w)
    (hstep : w.catalog.addPartitionFile id partitionId filePath syncVersion rowCount sizeBytes opTypes jobId =
      some c') :
    Kept (w.withCatalog c') := by
  unfold Catalog.addPartitionFile at hstep
  split at hstep
  · next hguard =>
    cases hstep
    refine fun fid hfid => (h fid hfid).mono (fun file hfile => ?_) fun _ hp => hp
    have hne : fid ≠ id := fun heq => hguard.1 (Dict.mem_iff_lookup.mpr ⟨file, heq ▸ hfile⟩)
    exact (AList.lookup_insert_ne hne).trans hfile
  · cases hstep

theorem kept_cleanupOrphans {sourceId : Uuid} (h : Kept w) :
    Kept (w.withCatalog (w.catalog.cleanupOrphans w.now sourceId)) := by
  have hkeep : ∀ p : Partition, (p.syncState = .committed ∨ ∃ j, p.jobId = some j ∧ w.catalog.Running j) →
      w.catalog.isOrphan w.now sourceId p = false := by
    rintro p (hp | ⟨j, hj, job, hjob, hrun⟩)
    · simp [Catalog.isOrphan, hp]
    · simp [Catalog.isOrphan, hj, hjob, hrun]
  have hpart : ∀ pid p, w.catalog.partitions.lookup pid = some p →
      (p.syncState = .committed ∨ ∃ j, p.jobId = some j ∧ w.catalog.Running j) →
      (w.catalog.cleanupOrphans w.now sourceId).partitions.lookup pid = some p := by
    intro pid p hp hstate
    refine (Dict.lookup_filter _ _ _).trans ?_
    rw [hp, Option.filter_some, hkeep p hstate, Bool.not_false, if_pos rfl]
  intro fid hfid
  obtain ⟨file, hfile, hstate, p, hp, hpstate⟩ := h fid hfid
  refine ⟨file, ?_, hstate, p, hpart _ p hp hpstate, hpstate⟩
  refine (Dict.lookup_filter _ _ _).trans ?_
  rw [hfile, Option.filter_some, if_pos]
  exact decide_eq_true (Dict.mem_iff_lookup.mpr ⟨p, hpart _ p hp hpstate⟩)

theorem kept_updateJobStatus_iff {jobId : Uuid} {status : JobStatus} (h : Kept w) :
    Kept (w.withCatalog (w.catalog.updateJobStatus w.now jobId status)) ↔ w.Safe (.updateJobStatus jobId status) := by
  unfold Catalog.updateJobStatus
  cases hjob : w.catalog.jobs.lookup jobId with
  | none =>
    refine iff_of_true h (Or.inr ?_)
    rintro pid p hp hpending hj ⟨fid, hfid, file, hfile, rfl⟩
    obtain ⟨file', hfile', -, p', hp', hstate⟩ := h fid hfid
    cases hfile.symm.trans hfile'
    cases hp.symm.trans hp'
    rcases hstate with hc | ⟨j, hj', job, hrun, -⟩
    · rw [hpending] at hc
      cases hc
    · cases hj.symm.trans hj'
      rw [hjob] at hrun
      cases hrun
  | some job =>
    constructor
    · intro hkept
      refine or_iff_not_imp_left.mpr fun hstatus => ?_
      rintro pid p hp hpending hj ⟨fid, hfid, file, hfile, rfl⟩
      obtain ⟨file', hfile', -, p', hp', hstate⟩ := hkept fid hfid
      cases hfile.symm.trans hfile'
      cases hp.symm.trans hp'
      rcases hstate with hc | ⟨j, hj', job', hjob', hrun⟩
      · rw [hpending] at hc
        cases hc
      · cases hj.symm.trans hj'
        rw [show (w.withCatalog _).catalog.jobs.lookup jobId = some _ from AList.lookup_insert _] at hjob'
        cases hjob'
        exact hstatus hrun
    · rintro hsafe fid hfid
      obtain ⟨file, hfile, hfstate, p, hp, hstate⟩ := h fid hfid
      refine ⟨file, hfile, hfstate, p, hp, ?_⟩
      cases hps : p.syncState with
      | committed => exact Or.inl rfl
      | pending =>
        obtain ⟨j, hj, job', hjob', hrun⟩ := hstate.resolve_left (by rw [hps]; exact fun h => (nomatch h))
        refine Or.inr ⟨j, hj, ?_⟩
        by_cases hne : j = jobId
        · subst hne
          rcases hsafe with rfl | hsafe
          · exact ⟨_, AList.lookup_insert _, rfl⟩
          · exact absurd ⟨fid, hfid, file, hfile, rfl⟩ (hsafe _ p hp hps hj)
        · exact ⟨job', (AList.lookup_insert_ne hne).trans hjob', hrun⟩

theorem kept_swapPartitionFiles_iff {partitionId : Uuid} {oldFileIds : List Uuid}
    {newFiles : List (Uuid × NewPartitionFile)} {syncVersion : Int} (h : Kept w)
    (hstep : w.catalog.swapPartitionFiles partitionId oldFileIds newFiles syncVersion = some c') :
    Kept { w with catalog := c', ledger := (w.ledger ++ newFiles.map Prod.fst).filter (· ∉ oldFileIds) } ↔
      w.Safe (.swapPartitionFiles partitionId oldFileIds newFiles syncVersion) := by
  unfold Catalog.swapPartitionFiles at hstep
  split at hstep
  · next hguard =>
    cases hstep
    have hlook :
      ∀ fid, fid ∉ oldFileIds → ((Catalog.insertSwapped partitionId syncVersion w.catalog.files newFiles).filter
        fun id _ => id ∉ oldFileIds).lookup fid =
          (Catalog.insertSwapped partitionId syncVersion w.catalog.files newFiles).lookup fid := by
      intro fid hfid
      rw [Dict.lookup_filter]
      cases (Catalog.insertSwapped partitionId syncVersion w.catalog.files newFiles).lookup fid with
      | none => rfl
      | some file => rw [Option.filter_some, if_pos (decide_eq_true hfid)]
    constructor
    · intro hkept
      refine or_iff_not_imp_left.mpr fun hne => ?_
      obtain ⟨nf, rest, rfl⟩ := List.exists_cons_of_ne_nil hne
      have hold := (hguard.2.1 nf List.mem_cons_self).2
      have hmem : nf.1 ∈ (nf :: rest).map Prod.fst := List.mem_map_of_mem List.mem_cons_self
      obtain ⟨file, hfile, -, hstand⟩ :=
        hkept nf.1 (List.mem_filter.mpr ⟨List.mem_append_right _ hmem, decide_eq_true hold⟩)
      replace hfile := (hlook nf.1 hold).symm.trans hfile
      rcases @Catalog.lookup_insertSwapped partitionId syncVersion w.catalog.files (nf :: rest) nf.1 with
        ⟨hno, -⟩ | ⟨-, file', hfile', hpid, -⟩
      · exact absurd hmem hno
      · cases hfile.symm.trans hfile'
        exact hpid ▸ hstand
    · intro hsafe fid hfid
      obtain ⟨hfid, hold⟩ := List.mem_filter.mp hfid
      replace hold := of_decide_eq_true hold
      rcases @Catalog.lookup_insertSwapped partitionId syncVersion w.catalog.files newFiles fid with
        ⟨hno, hsame⟩ | ⟨hmem, file, hfile, hpid, hstate⟩
      · obtain ⟨file, hfile, hrest⟩ := h fid ((List.mem_append.mp hfid).resolve_right hno)
        exact ⟨file, (hlook fid hold).trans (hsame.trans hfile), hrest⟩
      · refine ⟨file, (hlook fid hold).trans hfile, hstate, ?_⟩
        rw [hpid]
        exact hsafe.resolve_left fun hnil => by
          rw [hnil] at hmem
          cases hmem
  · cases hstep

theorem kept_updatePartitionData_iff {partitionId : Uuid} {parquetPath : String} {rowCount sizeBytes : Int}
    {jobId : Option Uuid} (h : Kept w)
    (hstep : w.catalog.updatePartitionData partitionId parquetPath rowCount sizeBytes jobId = some c') :
    Kept (w.withCatalog c') ↔ w.Safe (.updatePartitionData partitionId parquetPath rowCount sizeBytes jobId) := by
  unfold Catalog.updatePartitionData at hstep
  cases hp : w.catalog.partitions.lookup partitionId with
  | none =>
    rw [hp] at hstep
    cases hstep
    refine iff_of_true h (Or.inr ?_)
    rintro ⟨fid, hfid, file, hfile, rfl⟩
    obtain ⟨file', hfile', -, p, hp', -⟩ := h fid hfid
    cases hfile.symm.trans hfile'
    cases hp.symm.trans hp'
  | some p =>
    rw [hp] at hstep
    dsimp only at hstep
    split at hstep
    · cases hstep
      constructor
      · intro hkept
        refine or_iff_not_imp_right.mpr fun hholds j hj => ?_
        obtain ⟨fid, hfid, file, hfile, rfl⟩ := not_not.mp hholds
        obtain ⟨file', hfile', -, p', hp', hstate⟩ := hkept fid hfid
        cases hfile.symm.trans hfile'
        cases (AList.lookup_insert _).symm.trans hp'
        rcases hstate with hc | ⟨j', hj', hrun⟩
        · rw [Option.mem_def] at hj
          subst hj
          cases hc
        · cases hj.symm.trans hj'
          exact hrun
      · intro hsafe fid hfid
        obtain ⟨file, hfile, hfstate, p', hp', hstate⟩ := h fid hfid
        by_cases hpid : file.partitionId = partitionId
        · have hrun := hsafe.resolve_right fun hno => hno ⟨fid, hfid, file, hfile, hpid⟩
          subst hpid
          refine ⟨file, hfile, hfstate, _, AList.lookup_insert _, ?_⟩
          cases jobId with
          | none => exact Or.inl rfl
          | some j => exact Or.inr ⟨j, rfl, hrun j rfl⟩
        · exact ⟨file, hfile, hfstate, p', (AList.lookup_insert_ne hpid).trans hp', hstate⟩
    · cases hstep

theorem commitPartition_jobId (jobId : Uuid) (p : Partition) : (Catalog.commitPartition jobId p).jobId = p.jobId := by
  unfold Catalog.commitPartition
  split <;> rfl

theorem aggregate_eq (files : Dict Uuid PartitionFile) (sourceId id : Uuid) (p : Partition) :
    (Catalog.aggregate files sourceId id p).syncState = p.syncState ∧
      (Catalog.aggregate files sourceId id p).jobId = p.jobId := by
  unfold Catalog.aggregate
  dsimp only
  split <;> exact ⟨rfl, rfl⟩

/-- A commit makes the partitions of the job stand. -/
theorem standing_commitSync {jobId sourceId partitionId : Uuid} :
    (c.commitSync jobId sourceId).Standing partitionId ↔
      c.Standing partitionId ∨ ∃ p, c.partitions.lookup partitionId = some p ∧ p.jobId = some jobId := by
  have hlook : (c.commitSync jobId sourceId).partitions.lookup partitionId =
      (c.partitions.lookup partitionId).map fun p =>
        Catalog.aggregate (c.commitSync jobId sourceId).files sourceId partitionId
          (Catalog.commitPartition jobId p) := by
    refine (Dict.lookup_mapValues _ _ _).trans ?_
    rw [Dict.lookup_mapValues, Option.map_map]
    rfl
  have hstate : ∀ p : Partition, (Catalog.commitPartition jobId p).syncState = .committed ↔
      p.syncState = .committed ∨ p.jobId = some jobId := by
    intro p
    unfold Catalog.commitPartition
    split
    · next h => exact iff_of_true rfl (Or.inr h.1)
    · next h =>
      refine ⟨Or.inl, fun hor => hor.elim (fun hc => hc) fun hj => ?_⟩
      cases hps : p.syncState with
      | committed => rfl
      | pending => exact absurd ⟨hj, hps⟩ h
  constructor
  · rintro ⟨p', hp', hp'state⟩
    rw [hlook] at hp'
    obtain ⟨p, hp, rfl⟩ := Option.map_eq_some_iff.mp hp'
    rw [(aggregate_eq ..).1, (aggregate_eq ..).2, commitPartition_jobId, hstate] at hp'state
    rcases hp'state with (hc | hj) | hrun
    · exact Or.inl ⟨p, hp, Or.inl hc⟩
    · exact Or.inr ⟨p, hp, hj⟩
    · exact Or.inl ⟨p, hp, Or.inr hrun⟩
  · intro h
    have hp : ∃ p, c.partitions.lookup partitionId = some p ∧
        ((p.syncState = .committed ∨ p.jobId = some jobId) ∨ ∃ j, p.jobId = some j ∧ c.Running j) := by
      rcases h with ⟨p, hp, hc | hrun⟩ | ⟨p, hp, hj⟩
      · exact ⟨p, hp, Or.inl (Or.inl hc)⟩
      · exact ⟨p, hp, Or.inr hrun⟩
      · exact ⟨p, hp, Or.inl (Or.inr hj)⟩
    obtain ⟨p, hp, hpstate⟩ := hp
    refine ⟨_, hlook.trans (congrArg _ hp), ?_⟩
    rw [(aggregate_eq ..).1, (aggregate_eq ..).2, commitPartition_jobId, hstate]
    exact hpstate

theorem mem_pendingFiles {jobId : Uuid} : id ∈ c.pendingFiles jobId ↔
    ∃ file, c.files.lookup id = some file ∧ file.jobId = some jobId ∧ file.syncState = .pending := by
  simp only [Catalog.pendingFiles, List.mem_map, List.mem_filter, Prod.exists, Dict.mem_pairs, decide_eq_true_eq]
  constructor
  · rintro ⟨_, file, ⟨hfile, hj, hp⟩, rfl⟩
    exact ⟨file, hfile, hj, hp⟩
  · rintro ⟨file, hfile, hj, hp⟩
    exact ⟨id, file, ⟨hfile, hj, hp⟩, rfl⟩

theorem kept_commitSync_iff {jobId sourceId : Uuid} (h : Kept w) :
    Kept { w with
      catalog := w.catalog.commitSync jobId sourceId, ledger := w.ledger ++ w.catalog.pendingFiles jobId } ↔
      w.Safe (.commitSync jobId sourceId) := by
  have hlook : ∀ fid, (w.catalog.commitSync jobId sourceId).files.lookup fid =
      (w.catalog.files.lookup fid).map (Catalog.commitFile jobId) := fun fid => Dict.lookup_mapValues _ _ _
  constructor
  · intro hkept fid file hfile hj hpending
    obtain ⟨file', hfile', -, hstand⟩ :=
      hkept fid (List.mem_append_right _ (mem_pendingFiles.mpr ⟨file, hfile, hj, hpending⟩))
    rw [hlook, hfile] at hfile'
    cases hfile'
    rw [Catalog.commitFile_partitionId] at hstand
    exact standing_commitSync.mp hstand
  · intro hsafe fid hfid
    rcases List.mem_append.mp hfid with hfid | hfid
    · obtain ⟨file, hfile, hstate, hstand⟩ := h fid hfid
      refine ⟨file, ?_, hstate, standing_commitSync.mpr (Or.inl hstand)⟩
      rw [hlook, hfile, Option.map_some, Catalog.commitFile, if_neg]
      rw [hstate]
      exact fun hp => (nomatch hp.2)
    · obtain ⟨file, hfile, hj, hpending⟩ := mem_pendingFiles.mp hfid
      refine ⟨_, (hlook fid).trans (congrArg _ hfile), ?_, ?_⟩
      · rw [Catalog.commitFile, if_pos ⟨hj, hpending⟩]
      · rw [Catalog.commitFile_partitionId]
        exact standing_commitSync.mpr (hsafe fid file hfile hj hpending)

theorem kept_step_iff {a : SyncAction} (h : Kept w) (hstep : w.step a = some w') : Kept w' ↔ w.Safe a := by
  cases a with
  | insertJob jobId =>
    obtain ⟨c', hc', rfl⟩ := Option.map_eq_some_iff.mp hstep
    exact iff_of_true (kept_insertJob h hc') trivial
  | updateJobStatus jobId status =>
    cases hstep
    exact kept_updateJobStatus_iff h
  | getOrCreatePartition id sourceId tableName partitionDate =>
    obtain ⟨c', hc', rfl⟩ := Option.map_eq_some_iff.mp hstep
    exact iff_of_true (kept_getOrCreatePartition h hc') trivial
  | addPartitionFile id partitionId filePath syncVersion rowCount sizeBytes opTypes jobId =>
    obtain ⟨c', hc', rfl⟩ := Option.map_eq_some_iff.mp hstep
    exact iff_of_true (kept_addPartitionFile h hc') trivial
  | swapPartitionFiles partitionId oldFileIds newFiles syncVersion =>
    obtain ⟨c', hc', rfl⟩ := Option.map_eq_some_iff.mp hstep
    exact kept_swapPartitionFiles_iff h hc'
  | updatePartitionData partitionId parquetPath rowCount sizeBytes jobId =>
    obtain ⟨c', hc', rfl⟩ := Option.map_eq_some_iff.mp hstep
    exact kept_updatePartitionData_iff h hc'
  | commitSync jobId sourceId =>
    cases hstep
    exact kept_commitSync_iff h
  | cleanupOrphans sourceId =>
    cases hstep
    exact iff_of_true (kept_cleanupOrphans h) trivial
  | tick seconds =>
    cases hstep
    exact iff_of_true h trivial

end Steps

/-- Over any run, what was committed is kept throughout if and only if every step is safe. -/
theorem alwaysKept_iff (run : List SyncAction) : Always step Kept init run ↔ Meets step Safe init run :=
  always_iff_meets (fun _ _ _ => kept_step_iff) fun _ h => (nomatch h)

/-! ### A failed job on a partition that holds committed files -/

/-- Job 1 commits file 11 in partition 10; job 2 adds a file to the partition and fails; the next sync cleans up. -/
def failedTakeover : List SyncAction := [
  .insertJob 1, .updateJobStatus 1 .running, .getOrCreatePartition 10 0 "events" 19000,
  .addPartitionFile 11 10 "a.parquet" 1 5 100 "I" (some 1), .updatePartitionData 10 "a.parquet" 5 100 (some 1),
  .commitSync 1 0, .updateJobStatus 1 .completed,
  .insertJob 2, .updateJobStatus 2 .running, .getOrCreatePartition 12 0 "events" 19000,
  .addPartitionFile 13 10 "b.parquet" 2 1 20 "I" (some 2), .updatePartitionData 10 "b.parquet" 1 20 (some 2),
  .updateJobStatus 2 .failed, .cleanupOrphans 0]

theorem failedTakeover_loses_file : (∃ w, exec step init failedTakeover = some w ∧ 11 ∈ w.ledger ∧
    w.catalog.files.lookup 11 = none) ∧ ¬Always step Kept init failedTakeover := by
  have hexec : ∃ w, exec step init failedTakeover = some w ∧ 11 ∈ w.ledger ∧ w.catalog.files.lookup 11 = none :=
    ⟨_, rfl, by decide, by decide⟩
  refine ⟨hexec, fun h => ?_⟩
  obtain ⟨w, hw, hmem, hnone⟩ := hexec
  obtain ⟨file, hfile, -⟩ := h.of_exec hw 11 hmem
  rw [hnone] at hfile
  cases hfile

end Warehouse

end Reiver.Pond
