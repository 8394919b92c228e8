import Reiver.Pond.Sync.Pipeline

/-! # The checkpoint stays behind the committed rows

The invariant of disciplined runs. Committed rows are read off the ledger of the catalog and the production
tables; a run in progress backs its copy of the checkpoint by committed rows, by the staging tables it has not
committed yet, or it is known to have appended. -/

namespace Reiver.Pond.Pipeline

variable {Row K P : Type} {spec : SourceSpec Row K P} {w w' : Pipeline Row K} {run run' : SyncRun Row K}
  {c : CurrentTable Row} {t : String} {row : Row}

/-! ### The invariant -/

/-- The row is in a file of the ledger or in a production table. -/
def Covered (w : Pipeline Row K) (t : String) (row : Row) : Prop :=
  (∃ id ∈ w.warehouse.ledger, (t, row) ∈ w.contents id) ∨ row ∈ rowsIn w.hot.production t

theorem Covered.committed (h : w.Covered t row) (hkept : w.warehouse.Kept) : w.Committed t row := by
  rcases h with ⟨id, hid, hrow⟩ | hrow
  · obtain ⟨file, hfile, hstate, -⟩ := hkept id hid
    exact Or.inl ⟨id, file, hfile, hstate, hrow⟩
  · exact Or.inr hrow

/-- The row waits in a staging table that the run is going to commit. -/
def Staged (w : Pipeline Row K) (run : SyncRun Row K) (t : String) (row : Row) : Prop :=
  t ∈ run.staged ∧ row ∈ rowsIn w.hot.staging t

theorem kept_subset (c : CurrentTable Row) (hrow : row ∈ c.kept) : row ∈ c.fetched := by
  unfold CurrentTable.kept at hrow
  split at hrow
  · exact hrow
  · exact (List.mem_filter.mp hrow).1

theorem mem_kept (h : ¬c.kept.length < c.fetched.length) (hrow : row ∈ c.fetched) : row ∈ c.kept := by
  unfold CurrentTable.kept at h ⊢
  split at h
  · exact hrow
  · next p _ =>
    have hall : (c.fetched.filter p) = c.fetched :=
      List.filter_sublist.eq_of_length_le (Nat.le_of_not_lt h)
    rw [hall]
    exact hrow

/-- The pipeline once a merge has swapped the files of its bucket. -/
def swapped (w : Pipeline Row K) (warehouse : Warehouse)
    (newFiles : List (Uuid × NewPartitionFile × List (String × Row))) : Pipeline Row K :=
  { w with
    warehouse, contents := fun id => ((newFiles.find? (·.1 == id)).map (·.2.2)).getD (w.contents id) }

/-- A swap covers the rows of the new files, and uncovers at most those of the files it replaces. -/
theorem swapped_covered {newFiles : List (Uuid × NewPartitionFile × List (String × Row))} {partitionId : Uuid}
    {syncVersion : Int} {warehouse : Warehouse} (hkept : w.warehouse.Kept)
    (hw : w.warehouse.step (.swapPartitionFiles partitionId (w.warehouse.catalog.listPartitionFiles partitionId)
      (newFiles.map fun f => (f.1, f.2.1)) syncVersion) = some warehouse) :
    (∀ t row, (t, row) ∈ newFiles.flatMap (·.2.2) → (w.swapped warehouse newFiles).Covered t row) ∧
      ∀ t row, w.Covered t row → (w.swapped warehouse newFiles).Covered t row ∨
        (t, row) ∈ (w.warehouse.catalog.listPartitionFiles partitionId).flatMap w.contents := by
  obtain ⟨c', hc', rfl⟩ := Option.map_eq_some_iff.mp hw
  have hguard : (∀ f ∈ newFiles, f.1 ∉ w.warehouse.catalog.files ∧
      f.1 ∉ w.warehouse.catalog.listPartitionFiles partitionId) ∧ (newFiles.map (·.1)).Nodup := by
    unfold Catalog.swapPartitionFiles at hc'
    split at hc'
    · next hguard =>
      refine ⟨fun f hf => hguard.2.1 _ (List.mem_map_of_mem hf), ?_⟩
      have hnd := hguard.2.2
      rw [List.map_map] at hnd
      exact hnd
    · cases hc'
  obtain ⟨hfresh, hnd⟩ := hguard
  constructor
  · intro t row hmem
    obtain ⟨f, hf, hrow⟩ := List.mem_flatMap.mp hmem
    refine Or.inl ⟨f.1, List.mem_filter.mpr ⟨List.mem_append_right _ ?_, decide_eq_true (hfresh f hf).2⟩, ?_⟩
    · rw [List.map_map]
      exact List.mem_map_of_mem hf
    · show (t, row) ∈ ((newFiles.find? (·.1 == f.1)).map (·.2.2)).getD (w.contents f.1)
      rw [find?_of_nodup hnd hf]
      exact hrow
  · rintro t row (⟨id, hid, hrow⟩ | hrow)
    · by_cases hold : id ∈ w.warehouse.catalog.listPartitionFiles partitionId
      · exact Or.inr (List.mem_flatMap.mpr ⟨id, hold, hrow⟩)
      · have hnone : newFiles.find? (·.1 == id) = none := by
          refine List.find?_eq_none.mpr fun f hf heq => ?_
          obtain ⟨file, hfile, -⟩ := hkept id hid
          exact (hfresh f hf).1 (Dict.mem_iff_lookup.mpr ⟨file, beq_iff_eq.mp heq ▸ hfile⟩)
        refine Or.inl (Or.inl ⟨id, List.mem_filter.mpr ⟨List.mem_append_left _ hid, decide_eq_true hold⟩, ?_⟩)
        show (t, row) ∈ ((newFiles.find? (·.1 == id)).map (·.2.2)).getD (w.contents id)
        rw [hnone]
        exact hrow
    · exact Or.inl (Or.inr hrow)

theorem commit_production {hot : HotDb Row} {fault : CommitFault}
    (hcond : ∀ row ∈ rowsIn hot.production t, row ∈ w.source t → row ∈ rowsIn hot.staging t) (t' : String) :
    ∀ row ∈ w.source t', row ∈ rowsIn hot.production t' →
      row ∈ rowsIn (hot.commitStagingTable fault t).1.production t' := by
  intro row hsource hrow
  by_cases hfailed : (hot.commitStagingTable fault t).2 = .failed
  · rwa [commitStagingTable_failed hfailed]
  · obtain ⟨rows, hrows, hprod⟩ := commitStagingTable_swapped hfailed
    rw [hprod, rowsIn_insert]
    split
    · next heq =>
      subst heq
      have hstaged := hcond row hrow hsource
      rw [rowsIn, hrows] at hstaged
      exact hstaged
    · exact hrow

variable [LinearOrder K]

structure CurrentSound (spec : SourceSpec Row K P) (w : Pipeline Row K) (run : SyncRun Row K)
    (c : CurrentTable Row) : Prop where
  distinct : DistinctKeys spec c.table c.snapshot
  fetched : ∀ row ∈ c.fetched, row ∈ c.snapshot
  after : ∀ row ∈ c.snapshot, AfterLast spec c.table (run.checkpoint.lookup c.table) row → row ∈ c.fetched
  fresh : ∀ row ∈ w.source c.table, row ∉ c.snapshot →
    (∀ v ∈ w.stored.lookup c.table, ¬AtMost spec c.table v row) ∧
      (∀ v ∈ run.checkpoint.lookup c.table, ¬AtMost spec c.table v row) ∧
      ∀ v ∈ spec.lastValue c.table c.kept, ¬AtMost spec c.table v row
  written : ∀ row ∈ c.written, row ∈ c.snapshot ∧
    (appends spec run c = true ∨ w.Covered c.table row ∨ w.Staged run c.table row)

structure RunSound (spec : SourceSpec Row K P) (w : Pipeline Row K) (run : SyncRun Row K) : Prop where
  backed : run.phase ≠ .partlyCommitted → ∀ t v, run.checkpoint.lookup t = some v → t ∈ run.appended ∨
    ∀ row ∈ w.source t, AtMost spec t v row → w.Covered t row ∨ w.Staged run t row
  committed : ∀ t ∈ run.committed, ∀ v, run.checkpoint.lookup t = some v → t ∈ run.appended ∨
    ∀ row ∈ w.source t, AtMost spec t v row → w.Covered t row
  uncommitted : run.phase = .tables → run.committed = []
  current : ∀ c ∈ run.current, run.phase = .tables ∧ CurrentSound spec w run c
  unstaged : (∃ ok, run.phase = .saving ok) ∨ run.phase = .saved → run.staged = []
  warm : run.tier = .warm → run.staged = []

structure Sound (spec : SourceSpec Row K P) (w : Pipeline Row K) : Prop where
  kept : w.warehouse.Kept
  covered : ∀ t v, w.stored.lookup t = some v → ∀ row ∈ w.source t, AtMost spec t v row → w.Covered t row
  reached : w.NoRegress
  distinct : ∀ t, DistinctKeys spec t (w.source t)
  run : ∀ run ∈ w.run, RunSound spec w run

theorem init_sound (spec : SourceSpec Row K P) : Sound spec init where
  kept _ h := (nomatch h)
  covered _ _ h := (nomatch h)
  reached _ _ h := (nomatch h)
  distinct _ _ _ h := (nomatch h)
  run _ h := (nomatch h)

theorem Sound.neverAhead (h : Sound spec w) : NeverAhead spec w := fun t v hv row hrow hk =>
  (h.covered t v hv row hrow hk).committed h.kept

/-! ### What later steps may rely on -/

theorem CurrentSound.mem_snapshot (h : CurrentSound spec w run c) (hrow : row ∈ w.source c.table) {v : K}
    (hv : v ∈ w.stored.lookup c.table ∨ v ∈ run.checkpoint.lookup c.table ∨ v ∈ spec.lastValue c.table c.kept)
    (hk : AtMost spec c.table v row) : row ∈ c.snapshot := by
  by_contra hno
  obtain ⟨hstored, hcheckpoint, hlast⟩ := h.fresh row hrow hno
  rcases hv with hv | hv | hv
  · exact hstored v hv hk
  · exact hcheckpoint v hv hk
  · exact hlast v hv hk

/-- A step that keeps the covered rows of the tables at rest, and those the run has seen of its own, keeps the
    invariant. -/
theorem Sound.mono (h : Sound spec w) (hkept : w'.warehouse.Kept) (hsource : w'.source = w.source)
    (hstored : w'.stored = w.stored) (hreached : w'.reached = w.reached) (hrun : w'.run = w.run)
    (hcov : ∀ t row, (∀ run ∈ w.run, ∀ c ∈ run.current, c.table = t → row ∈ c.snapshot) → w.Covered t row →
      w'.Covered t row)
    (hstaging : ∀ t row, row ∈ rowsIn w.hot.staging t → row ∈ rowsIn w'.hot.staging t) : Sound spec w' where
  kept := hkept
  covered t v hv row hrow hk := by
    rw [hstored] at hv
    rw [hsource] at hrow
    refine hcov t row (fun run hr c hc heq => ?_) (h.covered t v hv row hrow hk)
    subst heq
    exact ((h.run run hr).current c hc).2.mem_snapshot hrow (Or.inl hv) hk
  reached t v := by
    rw [hreached, hstored]
    exact h.reached t v
  distinct t := hsource ▸ h.distinct t
  run run hr := by
    rw [hrun] at hr
    have hrs := h.run run hr
    have hseen : ∀ t v, run.checkpoint.lookup t = some v → ∀ row ∈ w.source t, AtMost spec t v row →
        ∀ run ∈ w.run, ∀ c ∈ run.current, c.table = t → row ∈ c.snapshot := by
      rintro t v hv row hrow hk run' hr' c hc rfl
      cases hr.symm.trans hr'
      exact (hrs.current c hc).2.mem_snapshot hrow (Or.inr (Or.inl hv)) hk
    refine ⟨fun hp t v hv => ?_, fun t ht v hv => ?_, hrs.uncommitted, fun c hc => ⟨(hrs.current c hc).1, ?_⟩,
      hrs.unstaged, hrs.warm⟩
    · refine (hrs.backed hp t v hv).imp_right fun hb row hrow hk => ?_
      rw [hsource] at hrow
      exact (hb row hrow hk).imp (hcov t row (hseen t v hv row hrow hk)) fun hs => ⟨hs.1, hstaging _ _ hs.2⟩
    · refine (hrs.committed t ht v hv).imp_right fun hb row hrow hk => ?_
      rw [hsource] at hrow
      exact hcov t row (hseen t v hv row hrow hk) (hb row hrow hk)
    · have hcs := (hrs.current c hc).2
      refine ⟨hcs.distinct, hcs.fetched, hcs.after, ?_, fun row hrow => ?_⟩
      · rw [hsource, hstored]
        exact hcs.fresh
      · obtain ⟨hsnap, hw⟩ := hcs.written row hrow
        refine ⟨hsnap, hw.imp_right (Or.imp (hcov c.table row ?_) fun hs => ⟨hs.1, hstaging _ _ hs.2⟩)⟩
        rintro run' hr' c' hc' -
        cases hr.symm.trans hr'
        cases hc.symm.trans hc'
        exact hsnap

theorem RunSound.setRun (h : RunSound spec w run) (r : Option (SyncRun Row K)) :
    RunSound spec { w with run := r } run where
  backed := h.backed
  committed := h.committed
  uncommitted := h.uncommitted
  current c hc :=
    have hcs := (h.current c hc).2
    ⟨(h.current c hc).1, hcs.distinct, hcs.fetched, hcs.after, hcs.fresh, hcs.written⟩
  unstaged := h.unstaged
  warm := h.warm

theorem Sound.withRun (h : Sound spec w) (hrun : RunSound spec w run) : Sound spec (w.withRun run) where
  kept := h.kept
  covered := h.covered
  reached := h.reached
  distinct := h.distinct
  run r hr := by
    cases hr
    exact hrun.setRun _

theorem Sound.endRun (h : Sound spec w) : Sound spec w.endRun where
  kept := h.kept
  covered := h.covered
  reached := h.reached
  distinct := h.distinct
  run _ hr := (nomatch hr)

theorem Sound.setHot (h : Sound spec w) {hot : HotDb Row}
    (hprod : ∀ t, ∀ row ∈ w.source t, row ∈ rowsIn w.hot.production t → row ∈ rowsIn hot.production t) :
    Sound spec { w.endRun with hot } where
  kept := h.kept
  covered t v hv row hrow hk := (h.covered t v hv row hrow hk).imp_right (hprod t row hrow)
  reached := h.reached
  distinct := h.distinct
  run _ hr := (nomatch hr)

/-! ### Changes of the source, statements on the catalog -/

theorem changeSource_sound (h : Sound spec w) {rows : List Row}
    (hcond : Disciplined spec w (.changeSource t rows)) :
    Sound spec { w with source := Function.update w.source t rows } := by
  obtain ⟨hbeyond, hdistinct⟩ := hcond
  have hsource : ∀ t' row, row ∈ Function.update w.source t rows t' → row ∈ w.source t' ∨ w.Beyond spec t' row := by
    intro t' row hrow
    by_cases ht : t' = t
    · subst ht
      rw [Function.update_self] at hrow
      exact or_iff_not_imp_left.mpr (hbeyond row hrow)
    · rw [Function.update_of_ne ht] at hrow
      exact Or.inl hrow
  refine ⟨h.kept, fun t' v hv row hrow hk => ?_, h.reached, fun t' => ?_, fun run hr => ?_⟩
  · rcases hsource t' row hrow with hold | hnew
    · exact h.covered t' v hv row hold hk
    · exact absurd hk (hnew.1 v hv)
  · by_cases ht : t' = t
    · subst ht
      show DistinctKeys spec t' (Function.update w.source t' rows t')
      rwa [Function.update_self]
    · show DistinctKeys spec t' (Function.update w.source t rows t')
      rw [Function.update_of_ne ht]
      exact h.distinct t'
  · have hrs := h.run run hr
    refine ⟨fun hp t' v hv => ?_, fun t' ht' v hv => ?_, hrs.uncommitted, fun c hc => ⟨(hrs.current c hc).1, ?_⟩,
      hrs.unstaged, hrs.warm⟩
    · refine (hrs.backed hp t' v hv).imp_right fun hb row hrow hk => ?_
      rcases hsource t' row hrow with hold | hnew
      · exact hb row hold hk
      · exact absurd hk ((hnew.2 run hr).1 v hv)
    · refine (hrs.committed t' ht' v hv).imp_right fun hb row hrow hk => ?_
      rcases hsource t' row hrow with hold | hnew
      · exact hb row hold hk
      · exact absurd hk ((hnew.2 run hr).1 v hv)
    · have hcs := (hrs.current c hc).2
      refine ⟨hcs.distinct, hcs.fetched, hcs.after, fun row hrow hno => ?_, hcs.written⟩
      rcases hsource c.table row hrow with hold | hnew
      · exact hcs.fresh row hold hno
      · exact ⟨hnew.1, (hnew.2 run hr).1, (hnew.2 run hr).2 c hc rfl⟩

theorem ledger_of_isPlain {h h' : Warehouse} {a : SyncAction} (ha : isPlain a = true) (hstep : h.step a = some h') :
    h'.ledger = h.ledger := by
  cases a with
  | addPartitionFile | swapPartitionFiles | commitSync => cases ha
  | insertJob | getOrCreatePartition | updatePartitionData =>
    obtain ⟨c', -, rfl⟩ := Option.map_eq_some_iff.mp hstep
    rfl
  | updateJobStatus | cleanupOrphans | tick =>
    cases hstep
    rfl

theorem statement_sound (h : Sound spec w) {a : SyncAction} (hsafe : w.warehouse.Safe a) (ha : isPlain a = true)
    {warehouse : Warehouse} (hstep : w.warehouse.step a = some warehouse) : Sound spec { w with warehouse } := by
  have hkept := (Warehouse.kept_step_iff h.kept hstep).mpr hsafe
  have hledger := ledger_of_isPlain ha hstep
  refine h.mono hkept rfl rfl rfl rfl (fun t row _ hcov => ?_) fun _ _ hrow => hrow
  rcases hcov with ⟨id, hid, hrow⟩ | hrow
  · exact Or.inl ⟨id, hledger.symm ▸ hid, hrow⟩
  · exact Or.inr hrow

/-! ### The steps of a run at the tables -/

theorem RunSound.setCurrent (h : RunSound spec w run) (hphase : run.phase = .tables)
    (hc : CurrentSound spec w run c) : RunSound spec w { run with current := some c } where
  backed := h.backed
  committed := h.committed
  uncommitted := h.uncommitted
  current c' hc' := by
    cases hc'
    exact ⟨hphase, hc.distinct, hc.fetched, hc.after, hc.fresh, hc.written⟩
  unstaged := h.unstaged
  warm := h.warm

section Tables
variable [DecidableEq Row] [DecidableEq P]

theorem fetch_sound (h : Sound spec w) (hrun : w.run = some run) (hphase : run.phase = .tables) {rows : List Row}
    {scope : Option (Row → Bool)} {date : Row → NaiveDate} (hanswers : Answers spec w t (run.checkpoint.lookup t) rows)
    (hstep : tableStep spec w run (.fetch t rows scope date) = some w') : Sound spec w' := by
  have hrs := h.run run hrun
  obtain ⟨hall, honly⟩ := hanswers
  simp only [tableStep] at hstep
  split at hstep
  · split at hstep
    · cases hstep
      exact h
    · cases hstep
      refine h.withRun (hrs.setCurrent hphase ⟨h.distinct t, honly, hall, fun row hrow hno => absurd hrow hno, ?_⟩)
      exact fun row hrow => absurd hrow List.not_mem_nil
  · cases hstep

theorem appendFile_sound (h : Sound spec w) (hrun : w.run = some run) {id partitionId : Uuid} {filePath : String}
    {syncVersion sizeBytes : Int} {rows : List Row}
    (hstep : tableStep spec w run (.appendFile id partitionId filePath syncVersion sizeBytes rows) = some w') :
    Sound spec w' := by
  have hrs := h.run run hrun
  simp only [tableStep] at hstep
  obtain ⟨c, hc, hstep⟩ := Option.bind_eq_some_iff.mp hstep
  obtain ⟨hphase, hcs⟩ := hrs.current c hc
  split at hstep
  · next hguard =>
    obtain ⟨happends, hrows⟩ := hguard
    obtain ⟨warehouse, hw, rfl⟩ := Option.map_eq_some_iff.mp hstep
    have hkept := (Warehouse.kept_step_iff h.kept hw).mpr trivial
    have hledger : warehouse.ledger = w.warehouse.ledger := by
      obtain ⟨c', -, rfl⟩ := Option.map_eq_some_iff.mp hw
      rfl
    have hfresh : ∀ fid ∈ w.warehouse.ledger, fid ≠ id := by
      rintro fid hfid rfl
      obtain ⟨c', hc', -⟩ := Option.map_eq_some_iff.mp hw
      obtain ⟨file, hfile, -⟩ := h.kept fid hfid
      unfold Catalog.addPartitionFile at hc'
      split at hc'
      · next hno => exact hno.1 (Dict.mem_iff_lookup.mpr ⟨file, hfile⟩)
      · cases hc'
    have hsound : Sound spec { w with
        warehouse, contents := Function.update w.contents id (rows.map fun row => (c.table, row)) } := by
      refine h.mono hkept rfl rfl rfl rfl (fun t row _ hcov => ?_) fun _ _ hrow => hrow
      rcases hcov with ⟨fid, hfid, hrow⟩ | hrow
      · refine Or.inl ⟨fid, hledger.symm ▸ hfid, ?_⟩
        show (t, row) ∈ Function.update w.contents id (rows.map fun row => (c.table, row)) fid
        rwa [Function.update_of_ne (hfresh fid hfid)]
      · exact Or.inr hrow
    have hrs' := hsound.run run hrun
    have hcs' := (hrs'.current c hc).2
    refine hsound.withRun (hrs'.setCurrent hphase ⟨hcs'.distinct, hcs'.fetched, hcs'.after, hcs'.fresh, ?_⟩)
    intro row hrow
    rcases List.mem_append.mp hrow with hrow | hrow
    · exact hcs'.written row hrow
    · exact ⟨hcs.fetched row (kept_subset c (hrows row hrow)), Or.inl happends⟩
  · cases hstep

theorem createStaging_sound (h : Sound spec w) (hrun : w.run = some run)
    (hstep : tableStep spec w run .createStaging = some w') : Sound spec w' := by
  have hrs := h.run run hrun
  simp only [tableStep] at hstep
  obtain ⟨c, hc, hstep⟩ := Option.bind_eq_some_iff.mp hstep
  obtain ⟨hphase, hcs⟩ := hrs.current c hc
  split at hstep
  · next hhot =>
    cases hstep
    have hsound : Sound spec { w with hot := w.hot.createStagingTable c.table } := by
      refine h.mono h.kept rfl rfl rfl rfl (fun _ _ _ hcov => hcov) fun t row hrow => ?_
      rwa [createStagingTable_rows]
    have hrs' := hsound.run run hrun
    refine hsound.withRun ⟨fun hp t v hv => ?_, hrs'.committed, hrs'.uncommitted, fun c' hc' => ⟨hphase, ?_⟩,
      fun hor => ?_, fun hwarm => ?_⟩
    · refine (hrs'.backed hp t v hv).imp_right fun hb row hrow hk => ?_
      exact (hb row hrow hk).imp_right fun hs => ⟨List.mem_append_left _ hs.1, hs.2⟩
    · cases hc.symm.trans hc'
      have hcs' := (hrs'.current c hc).2
      refine ⟨hcs'.distinct, hcs'.fetched, hcs'.after, hcs'.fresh, fun row hrow => ?_⟩
      obtain ⟨hsnap, hw⟩ := hcs'.written row hrow
      exact ⟨hsnap, hw.imp_right (Or.imp_right fun hs => ⟨List.mem_append_left _ hs.1, hs.2⟩)⟩
    · rcases hor with ⟨ok, hsave⟩ | hsave <;> rw [hphase] at hsave <;> cases hsave
    · rw [hhot] at hwarm
      cases hwarm
  · cases hstep

theorem insertBatch_sound (h : Sound spec w) (hrun : w.run = some run) {rows : List Row}
    (hwritten : ∀ c ∈ run.current, ∀ row ∈ rows, spec.written c.table row = row)
    (hstep : tableStep spec w run (.insertBatch rows) = some w') : Sound spec w' := by
  have hrs := h.run run hrun
  simp only [tableStep] at hstep
  obtain ⟨c, hc, hstep⟩ := Option.bind_eq_some_iff.mp hstep
  obtain ⟨hphase, hcs⟩ := hrs.current c hc
  split at hstep
  · next hguard =>
    obtain ⟨-, hstaged, hprefix⟩ := hguard
    cases hstep
    have hsound : Sound spec { w with hot := w.hot.insertStagingBatch spec.written c.table rows } := by
      refine h.mono h.kept rfl rfl rfl rfl (fun t row _ hcov => ?_) fun t row hrow => ?_
      · refine hcov.imp_right fun hrow => ?_
        rwa [insertStagingBatch_production]
      · rw [insertStagingBatch_staging]
        exact List.mem_append_left _ hrow
    have hrs' := hsound.run run hrun
    have hcs' := (hrs'.current c hc).2
    refine hsound.withRun (hrs'.setCurrent hphase ⟨hcs'.distinct, hcs'.fetched, hcs'.after, hcs'.fresh, ?_⟩)
    intro row hrow
    rcases List.mem_append.mp hrow with hrow | hrow
    · exact hcs'.written row hrow
    · have hkept : row ∈ c.kept := (List.isPrefixOf_iff_prefix.mp hprefix).subset (List.mem_append_right _ hrow)
      refine ⟨hcs.fetched row (kept_subset c hkept), Or.inr (Or.inr ⟨hstaged, ?_⟩)⟩
      show row ∈ rowsIn (w.hot.insertStagingBatch spec.written c.table rows).staging c.table
      rw [insertStagingBatch_staging, if_pos rfl]
      exact List.mem_append_right _ (List.mem_map.mpr ⟨row, hrow, hwritten c hc row hrow⟩)
  · cases hstep

/-- A merge keeps the covered rows, and covers the rows of its bucket. -/
theorem mergeBucket_sound (h : Sound spec w) (hrun : w.run = some run) {partitionId : Uuid}
    {newFiles : List (Uuid × NewPartitionFile × List (String × Row))} {syncVersion : Int}
    (hstanding : w.warehouse.catalog.Standing partitionId)
    (hstep : tableStep spec w run (.mergeBucket partitionId newFiles syncVersion) = some w') : Sound spec w' := by
  have hrs := h.run run hrun
  simp only [tableStep] at hstep
  obtain ⟨c, hc, hstep⟩ := Option.bind_eq_some_iff.mp hstep
  obtain ⟨p, -, hstep⟩ := Option.bind_eq_some_iff.mp hstep
  obtain ⟨hphase, hcs⟩ := hrs.current c hc
  split at hstep
  · next hguard =>
    obtain ⟨hmerges, -, -, hrows⟩ := hguard
    obtain ⟨warehouse, hw, rfl⟩ := Option.map_eq_some_iff.mp hstep
    obtain ⟨hnew, hold⟩ := swapped_covered h.kept hw
    -- a row of the bucket with the key of a row of the snapshot is that row
    have huniq : ∀ row ∈ c.snapshot,
        ∀ b ∈ (c.kept.filter (c.date · = p.partitionDate)).map fun row => (c.table, row),
        (b.1, spec.pk b.1 b.2) = (c.table, spec.pk c.table row) → b = (c.table, row) := by
      intro row hrow b hb heq
      obtain ⟨row', hrow', rfl⟩ := List.mem_map.mp hb
      have hpk : spec.hasPk c.table = true := by
        simp only [merges, Bool.and_eq_true] at hmerges
        exact hmerges.2
      have hsnap := hcs.fetched row' (kept_subset c (List.mem_filter.mp hrow').1)
      rw [hcs.distinct hpk row' hsnap row hrow (Prod.mk.inj heq).2]
    have hsound : Sound spec (w.swapped warehouse newFiles) := by
      have hkept := (Warehouse.kept_step_iff h.kept hw).mpr (Or.inr hstanding)
      refine h.mono hkept rfl rfl rfl rfl (fun t row hseen hcov => ?_) fun _ _ hrow => hrow
      rcases hold t row hcov with hcov | hrow
      · exact hcov
      · refine hnew t row (hrows ▸ mem_upsert (Or.inl hrow) fun b hb heq => ?_)
        obtain ⟨row', -, hb'⟩ := List.mem_map.mp hb
        have ht : c.table = t := by
          rw [← hb'] at heq
          exact (Prod.mk.inj heq).1
        subst ht
        exact huniq row (hseen run hrun c hc rfl) b hb heq
    have hrs' := hsound.run run hrun
    have hcs' := (hrs'.current c hc).2
    refine hsound.withRun (hrs'.setCurrent hphase ⟨hcs'.distinct, hcs'.fetched, hcs'.after, hcs'.fresh, ?_⟩)
    intro row hrow
    rcases List.mem_append.mp hrow with hrow | hrow
    · exact hcs'.written row hrow
    · have hsnap := hcs.fetched row (kept_subset c (List.mem_filter.mp hrow).1)
      refine ⟨hsnap, Or.inr (Or.inl (hnew c.table row (hrows ▸ mem_upsert (Or.inr ?_) (huniq row hsnap))))⟩
      exact List.mem_map_of_mem hrow
  · cases hstep

/-- A table that is finished is backed up to the value its checkpoint advances to. -/
theorem finishTable_sound (h : Sound spec w) (hrun : w.run = some run)
    (hstep : tableStep spec w run .finishTable = some w') : Sound spec w' := by
  have hrs := h.run run hrun
  simp only [tableStep] at hstep
  obtain ⟨c, hc, hstep⟩ := Option.bind_eq_some_iff.mp hstep
  obtain ⟨hphase, hcs⟩ := hrs.current c hc
  have hcommitted := hrs.uncommitted hphase
  have hbacked := hrs.backed (hphase ▸ nofun)
  split at hstep
  · next hwritten =>
    cases hstep
    refine h.withRun ?_
    unfold finished
    cases hadv : advance spec c with
    | none =>
      exact ⟨hrs.backed, hrs.committed, hrs.uncommitted, fun _ hnone => (nomatch hnone), hrs.unstaged, hrs.warm⟩
    | some v =>
      have hlast : ¬c.kept.length < c.fetched.length ∧ v ∈ spec.lastValue c.table c.kept := by
        unfold advance at hadv
        split at hadv
        · cases hadv
        · next hlen => exact ⟨hlen, hadv⟩
      have hsub : ∀ t ∈ run.appended, t ∈ if appends spec run c then c.table :: run.appended else run.appended := by
        intro t ht
        split
        · exact List.mem_cons_of_mem _ ht
        · exact ht
      refine ⟨fun _ t v' hv' => ?_, fun t ht => ?_, hrs.uncommitted, fun _ hnone => (nomatch hnone), hrs.unstaged,
        hrs.warm⟩
      · dsimp only at hv'
        rw [Dict.lookup_insert'] at hv'
        split at hv'
        · next heq =>
          subst heq
          cases hv'
          cases happends : appends spec run c with
          | true => exact Or.inl List.mem_cons_self
          | false =>
            refine or_iff_not_imp_left.mpr fun hnot row hrow hk => ?_
            have hsnap := hcs.mem_snapshot hrow (Or.inr (Or.inr hlast.2)) hk
            by_cases hafter : AfterLast spec c.table (run.checkpoint.lookup c.table) row
            · -- fetched by this run, so written
              have hmem := hwritten row (mem_kept hlast.1 (hcs.after row hsnap hafter))
              rcases (hcs.written row hmem).2 with habs | hback
              · rw [happends] at habs
                cases habs
              · exact hback
            · -- at most the value the checkpoint had before
              obtain ⟨old, hold, hle⟩ : ∃ old, run.checkpoint.lookup c.table = some old ∧
                  AtMost spec c.table old row := by
                simp only [AfterLast, not_forall] at hafter
                obtain ⟨old, hold, hle⟩ := hafter
                obtain ⟨k, hkey, -⟩ := hk
                exact ⟨old, hold, k, hkey, le_of_not_gt fun hlt => hle ⟨k, hkey, hlt⟩⟩
              rcases hbacked c.table old hold with happ | hback
              · exact absurd happ hnot
              · exact hback row hrow hle
        · exact (hbacked t v' hv').imp_left (hsub t)
      · rw [hcommitted] at ht
        cases ht
  · cases hstep

theorem endTables_sound (h : Sound spec w) (hrun : w.run = some run) (hphase : run.phase = .tables) {ok : Bool}
    {dropped : String → Bool} (hstep : tableStep spec w run (.endTables ok dropped) = some w') : Sound spec w' := by
  have hrs := h.run run hrun
  have hbacked := hrs.backed (hphase ▸ nofun)
  simp only [tableStep] at hstep
  split at hstep
  · cases hstep
  · next hcurrent =>
    split at hstep
    · split at hstep
      · next hok =>
        cases hstep
        refine h.withRun ⟨fun _ => hbacked, hrs.committed, fun hp => (nomatch hp), fun c hc => ?_, fun hor => ?_,
          hrs.warm⟩
        · exact absurd ⟨hok, Option.isSome_of_mem hc⟩ hcurrent
        · rcases hor with ⟨_, hsave⟩ | hsave <;> cases hsave
      · cases hstep
        refine h.setHot fun t row _ hrow => ?_
        rwa [rollbackStagingTables_production]
    · next hstaged =>
      cases hstep
      have hnil : run.staged = [] := by
        cases htier : run.tier with
        | warm => exact hrs.warm htier
        | hot => exact not_not.mp fun hne => hstaged ⟨htier, hne⟩
      exact h.withRun ⟨fun _ => hbacked, hrs.committed, fun hp => (nomatch hp), fun _ hnone => (nomatch hnone),
        fun _ => hnil, fun _ => hnil⟩

theorem tableStep_sound (h : Sound spec w) (hrun : w.run = some run) (hphase : run.phase = .tables)
    {a : PipelineAction Row} (hcond : Disciplined spec w a) (hstep : tableStep spec w run a = some w') :
    Sound spec w' := by
  cases a with
  | fetch t rows scope date => exact fetch_sound h hrun hphase (hcond run hrun) hstep
  | appendFile => exact appendFile_sound h hrun hstep
  | mergeBucket => exact mergeBucket_sound h hrun hcond hstep
  | createStaging => exact createStaging_sound h hrun hstep
  | insertBatch rows => exact insertBatch_sound h hrun (hcond run hrun) hstep
  | finishTable => exact finishTable_sound h hrun hstep
  | endTables ok dropped => exact endTables_sound h hrun hphase hstep
  | _ => cases hstep

end Tables

/-! ### The commit and the checkpoint -/

theorem commitStep_sound (h : Sound spec w) (hrun : w.run = some run) (hphase : run.phase = .committing)
    {fault : CommitFault} {dropped : String → Bool}
    (hcond : ∀ t ∈ run.staged.head?, ∀ row ∈ rowsIn w.hot.production t, row ∈ w.source t →
      row ∈ rowsIn w.hot.staging t)
    (hstep : commitStep w run fault dropped = some w') : Sound spec w' := by
  have hrs := h.run run hrun
  have hbacked := hrs.backed (hphase ▸ nofun)
  have hidle : ∀ c ∈ run.current, False := fun c hc => by
    have htables := (hrs.current c hc).1
    rw [hphase] at htables
    cases htables
  unfold commitStep at hstep
  cases hst : run.staged with
  | nil =>
    rw [hst] at hstep
    cases hstep
  | cons t rest =>
    rw [hst] at hstep hcond
    have hprod := @commit_production _ _ w t w.hot fault (hcond t rfl)
    have hswapped := @commitStagingTable_swapped _ w.hot fault t
    have hstaging := @commitStagingTable_staging _ w.hot fault t
    dsimp only at hstep
    revert hstep hprod hswapped hstaging
    rcases w.hot.commitStagingTable fault t with ⟨hot, result⟩
    intro hstep hprod hswapped hstaging
    have hcov : ∀ t', ∀ row ∈ w.source t', w.Covered t' row → Covered { w.endRun with hot } t' row :=
      fun t' row hrow hc => hc.imp_right (hprod t' row hrow)
    have hrolled : ∀ (staged : List String) t', ∀ row ∈ w.source t', row ∈ rowsIn w.hot.production t' →
        row ∈ rowsIn (hot.rollbackStagingTables dropped staged).production t' := by
      intro staged t' row hsource hrow
      rw [rollbackStagingTables_production]
      exact hprod t' row hsource hrow
    have hpartly : RunSound spec { w.endRun with hot := hot.rollbackStagingTables dropped (t :: rest) }
        { run with phase := .partlyCommitted } := by
      refine ⟨fun hp => absurd rfl hp, fun t' ht' v hv => ?_, fun hp => (nomatch hp),
        fun c hc => (hidle c hc).elim, fun hor => ?_, hrs.warm⟩
      · refine (hrs.committed t' ht' v hv).imp_right fun hb row hrow hk => ?_
        exact (hb row hrow hk).imp_right (hrolled _ t' row hrow)
      · rcases hor with ⟨_, hsave⟩ | hsave <;> cases hsave
    cases result with
    | failed | swapped =>
      cases hstep
      exact (h.setHot (hrolled _)).withRun (hst ▸ hpartly)
    | committed =>
      cases hstep
      obtain ⟨rows, hrows, hnew⟩ := hswapped nofun
      replace hstaging := hstaging rfl
      have hrow_t : ∀ row ∈ rowsIn w.hot.staging t, row ∈ rowsIn hot.production t := by
        intro row hrow
        rw [rowsIn, hrows] at hrow
        rw [hnew, rowsIn_insert, if_pos rfl]
        exact hrow
      refine (h.setHot hprod).withRun ⟨fun _ t' v hv => ?_, fun t' ht' v hv => ?_, fun hp => ?_,
        fun c hc => (hidle c hc).elim, fun hor => ?_, fun hwarm => ?_⟩
      · refine (hbacked t' v hv).imp_right fun hb row hrow hk => ?_
        rcases hb row hrow hk with hc | ⟨hmem, hs⟩
        · exact Or.inl (hcov t' row hrow hc)
        · by_cases heq : t' = t
          · subst heq
            exact Or.inl (Or.inr (hrow_t row hs))
          · rw [hst] at hmem
            refine Or.inr ⟨(List.mem_cons.mp hmem).resolve_left heq, ?_⟩
            rw [rowsIn, hstaging, if_neg heq]
            exact hs
      · rcases List.mem_cons.mp ht' with rfl | ht'
        · refine (hbacked t' v hv).imp_right fun hb row hrow hk => ?_
          rcases hb row hrow hk with hc | ⟨-, hs⟩
          · exact hcov t' row hrow hc
          · exact Or.inr (hrow_t row hs)
        · refine (hrs.committed t' ht' v hv).imp_right fun hb row hrow hk => ?_
          exact hcov t' row hrow (hb row hrow hk)
      · dsimp only at hp
        split at hp <;> cases hp
      · by_contra hne
        dsimp only at hor hne
        rw [if_neg hne] at hor
        rcases hor with ⟨_, hsave⟩ | hsave <;> cases hsave
      · have hnil := hrs.warm hwarm
        rw [hst] at hnil
        cases hnil

theorem savePartial_sound (h : Sound spec w) (hrun : w.run = some run) (happended : run.appended = [])
    (hstored : ∀ t ∈ w.stored.keys, t ∈ run.committed) :
    Sound spec { w.endRun with
      stored := run.checkpoint.filter fun t _ => t ∈ run.committed
      reached := fun t => if t ∈ run.committed then run.checkpoint.lookup t else w.reached t } where
  kept := h.kept
  covered t v hv row hrow hk := by
    dsimp only at hv
    rw [Dict.lookup_filter, Option.filter_eq_some_iff] at hv
    rcases (h.run run hrun).committed t (of_decide_eq_true hv.2) v hv.1 with happ | hb
    · rw [happended] at happ
      cases happ
    · exact hb row hrow hk
  reached t v hv := by
    dsimp only at hv ⊢
    rw [Dict.lookup_filter, Option.filter_eq_some_iff, decide_eq_true_iff]
    split at hv
    · next ht => exact ⟨hv, ht⟩
    · next ht => exact absurd (hstored t (Dict.mem_iff_lookup.mpr ⟨v, h.reached t v hv⟩)) ht
  distinct := h.distinct
  run _ hr := (nomatch hr)

theorem save_sound (h : Sound spec w) (hrun : w.run = some run) {ok : Bool} (hphase : run.phase = .saving ok)
    (happended : run.appended = []) :
    Sound spec { w with
      stored := run.checkpoint
      reached := run.checkpoint.lookup
      run := if ok then some { run with phase := .saved } else none } := by
  have hrs := h.run run hrun
  have hnil := hrs.unstaged (Or.inl ⟨ok, hphase⟩)
  have hcov : ∀ t v, run.checkpoint.lookup t = some v → ∀ row ∈ w.source t, AtMost spec t v row → w.Covered t row := by
    intro t v hv row hrow hk
    rcases hrs.backed (hphase ▸ nofun) t v hv with happ | hb
    · rw [happended] at happ
      cases happ
    · refine (hb row hrow hk).resolve_right fun hs => ?_
      rw [Staged, hnil] at hs
      cases hs.1
  have hsaved : Sound spec { w.endRun with stored := run.checkpoint, reached := run.checkpoint.lookup } :=
    ⟨h.kept, hcov, fun _ _ hv => hv, h.distinct, fun _ hr => (nomatch hr)⟩
  cases ok with
  | false => exact hsaved
  | true =>
    refine hsaved.withRun ⟨fun _ t v hv => Or.inr fun row hrow hk => Or.inl (hcov t v hv row hrow hk),
      fun t _ v hv => Or.inr (hcov t v hv), fun hp => (nomatch hp), fun c hc => ?_, fun _ => hnil, fun _ => hnil⟩
    have htables := (hrs.current c hc).1
    rw [hphase] at htables
    cases htables

theorem commitSync_sound (h : Sound spec w) {jobId sourceId : Uuid} {warehouse : Warehouse}
    (hsafe : w.warehouse.Safe (.commitSync jobId sourceId))
    (hw : w.warehouse.step (.commitSync jobId sourceId) = some warehouse) :
    Sound spec { w.endRun with warehouse } := by
  have hkept := (Warehouse.kept_step_iff h.kept hw).mpr hsafe
  cases hw
  refine h.endRun.mono hkept rfl rfl rfl rfl (fun t row _ hcov => ?_) fun _ _ hrow => hrow
  refine hcov.imp_left ?_
  rintro ⟨id, hid, hrow⟩
  exact ⟨id, List.mem_append_left _ hid, hrow⟩

theorem startRun_sound (h : Sound spec w) (jobId : Uuid) (tier : StorageTier) :
    Sound spec (w.withRun { jobId, tier, checkpoint := w.stored }) :=
  h.withRun {
    backed := fun _ t v hv => Or.inr fun row hrow hk => Or.inl (h.covered t v hv row hrow hk)
    committed := fun _ ht => (nomatch ht)
    uncommitted := fun _ => rfl
    current := fun _ hc => (nomatch hc)
    unstaged := fun _ => rfl
    warm := fun _ => rfl }

theorem step_sound [DecidableEq Row] [DecidableEq P] {a : PipelineAction Row} (h : Sound spec w)
    (hcond : Disciplined spec w a) (hstep : step spec w a = some w') : Sound spec w' := by
  unfold step at hstep
  split at hstep
  · cases hstep
    exact changeSource_sound h hcond
  · split at hstep
    · next hplain =>
      obtain ⟨warehouse, hw, rfl⟩ := Option.map_eq_some_iff.mp hstep
      exact statement_sound h hcond hplain hw
    · cases hstep
  · cases hstep
    exact startRun_sound h _ _
  · cases hstep
    exact h.endRun
  · next run _ _ _ hrun =>
    split at hstep
    · exact tableStep_sound h hrun ‹run.phase = .tables› hcond hstep
    · exact commitStep_sound h hrun ‹run.phase = .committing› (hcond run hrun) hstep
    · split at hstep
      · cases hstep
      · cases hstep
        obtain ⟨happended, hstored⟩ := hcond run hrun
        exact savePartial_sound h hrun happended hstored
    · cases hstep
      exact save_sound h hrun ‹run.phase = _› (hcond run hrun)
    · split at hstep
      · obtain ⟨warehouse, hw, rfl⟩ := Option.map_eq_some_iff.mp hstep
        exact commitSync_sound h (hcond run hrun) hw
      · cases hstep
    · cases hstep
  · cases hstep

theorem always_of_sound [DecidableEq Row] [DecidableEq P] {actions : List (PipelineAction Row)} (h : Sound spec w)
    (hmeets : Meets (step spec) (Disciplined spec) w actions) :
    Always (step spec) (fun w => NeverAhead spec w ∧ NoRegress w) w actions := by
  induction actions generalizing w with
  | nil => exact ⟨h.neverAhead, h.reached⟩
  | cons a actions ih =>
    refine ⟨⟨h.neverAhead, h.reached⟩, fun w' hw' => ?_⟩
    obtain ⟨hcond, hrest⟩ := hmeets w' hw'
    exact ih (step_sound h hcond hw') hrest

/-- Tables with an integer key that is also the incremental key. -/
def countedSpec : SourceSpec TypedRow Int (Option Int) where
  key _ := userKey
  pk _ := userKey
  hasPk _ := true
  lastValue _ rows := (rows.filterMap userKey).max?
  written := ClickHouse.plain.written

/-- The first sync of one table to the hot tier. -/
def hotFirstSync : List (PipelineAction TypedRow) := [
  .changeSource "users" [userRow 1 "ada"], .startRun 1 .hot, .fetch "users" [userRow 1 "ada"] none fun _ => 19000,
  .createStaging, .insertBatch [userRow 1 "ada"], .finishTable, .endTables true fun _ => true,
  .commitStaging .none fun _ => true, .save]

/-- The first sync of one table to the warm tier, up to the save of the checkpoint. -/
def warmFirstSync : List (PipelineAction TypedRow) := [
  .changeSource "users" [userRow 1 "ada"], .statement (.insertJob 1), .statement (.updateJobStatus 1 .running),
  .startRun 1 .warm, .fetch "users" [userRow 1 "ada"] none fun _ => 19000,
  .statement (.getOrCreatePartition 10 0 "users" 19000), .appendFile 11 10 "a.parquet" 1 100 [userRow 1 "ada"],
  .statement (.updatePartitionData 10 "a.parquet" 1 100 (some 1)), .finishTable, .endTables true fun _ => true, .save]

end Reiver.Pond.Pipeline
