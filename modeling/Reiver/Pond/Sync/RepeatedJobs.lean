import Reiver.Pond.Sync.WarmJobs

/-! # Repeated jobs over an unchanged source

A table gets a checkpoint only from a job that kept everything it fetched, and until it has one each job fetches
all rows again and appends them. The committed rows stay the rows in scope, each exactly once, as long as no job
appends to a table that holds rows (`exactlyOnce_of_fresh`). -/

namespace Reiver.Pond

/-- What the connector returns without a last value. -/
def WarmSource.fullFetch (src : WarmSource) (info : TableInfo) : Fetched :=
  src.fetchTable info.name info.incrementalKey none

def Fetched.rows (f : Fetched) : List BatchRow := f.batches.flatMap (·.rows)

/-- All rows of a source table, which are the rows of a full fetch: what a connector holds back or gives twice is not
    seen. -/
def WarmSource.allRows (src : WarmSource) (info : TableInfo) : List RowView :=
  (views (src.fullFetch info).batches).map eraseMeta

def WarmSource.inScope (src : WarmSource) (info : TableInfo) (now : Int) : Option (List RowView) :=
  (scopedBatches src.syncScope now (src.fullFetch info).batches).map fun batches => (views batches).map eraseMeta

def TableState.rows (ts : TableState) : List RowView := ts.table.allRows.map (eraseMeta ·.row)

/-- The committed rows of each table are the source rows that were in scope at the last job, each exactly once. -/
def ExactlyOnce (src : WarmSource) (s : WarmState) : Prop :=
  ∀ info ∈ src.tables, ∀ now ∈ (s info.name).handled, ∀ rows ∈ src.inScope info now, (s info.name).rows.Perm rows

/-! ### The scope -/

def scopeFilter (scope : SyncScope) (now : Int) (schema : Schema) : Option (BatchRow → Bool) :=
  match scope with
  | .full => some fun _ => true
  | .timeBased olderThanDays => (cutoff now olderThanDays).map fun cutoff row =>
    match timestampColumn schema with
    | none => true
    | some idx => (schema[idx]?).all fun field => olderThan cutoff field.dataType idx row

/-- A row in scope at `now` is in scope at `later`. -/
def Widens (scope : SyncScope) (schema : Schema) (now later : Int) : Prop :=
  ∀ p ∈ scopeFilter scope now schema, ∃ q ∈ scopeFilter scope later schema, ∀ row, p row = true → q row = true

section Scope
variable {scope : SyncScope} {now later : Int} {src : WarmSource} {info : TableInfo}

theorem views_uniform {schema : Schema} {batches : List RecordBatch} (h : Uniform schema batches) :
    views batches = (batches.flatMap (·.rows)).map (rowView schema) := by
  rw [views, List.map_flatMap]
  exact List.flatMap_congr fun b hb => by rw [h b hb]

theorem rowCount_eq (batches : List RecordBatch) : TableState.rowCount batches = (views batches).length := by
  rw [TableState.rowCount, views, List.length_flatMap]
  exact congrArg _ (List.map_congr_left fun b _ => List.length_map _ |>.symm)

theorem scopedBatches_eq (f : Fetched) (hne : f.batches ≠ []) :
    (scopeFilter scope now f.schema = none ∧ scopedBatches scope now f.batches = none) ∨
      ∃ p kept, scopeFilter scope now f.schema = some p ∧ scopedBatches scope now f.batches = some kept ∧
        Uniform f.schema kept ∧ views kept = (f.rows.filter p).map (rowView f.schema) := by
  have hall : views f.batches = (f.rows.filter fun _ => true).map (rowView f.schema) := by
    rw [List.filter_true, views_uniform f.uniform]
    rfl
  cases scope with
  | full => exact Or.inr ⟨_, _, rfl, rfl, f.uniform, hall⟩
  | timeBased days =>
    obtain ⟨schema, batches, huni⟩ := f
    cases batches with
    | nil => exact absurd rfl hne
    | cons first rest =>
      have hfirst := huni first List.mem_cons_self
      simp only [scopeFilter, scopedBatches, filterBatchesByAge, hfirst]
      cases cutoff now days with
      | none => exact Or.inl ⟨rfl, rfl⟩
      | some cutoff =>
        right
        cases hidx : timestampColumn schema with
        | none => exact ⟨_, _, rfl, rfl, huni, hall⟩
        | some idx =>
          obtain ⟨hlt, -, -⟩ := List.findIdx?_eq_some_iff_getElem.mp hidx
          have htypes : ∀ b ∈ first :: rest, (b.schema[idx]?).map (·.dataType) = some schema[idx].dataType := by
            intro b hb
            rw [huni b hb, List.getElem?_eq_getElem hlt]
            rfl
          simp only [List.getElem?_eq_getElem hlt, Option.bind_some, Option.map_some, Option.all_some, if_pos htypes]
          refine ⟨_, _, rfl, rfl, fun b hb => ?_, ?_⟩
          · obtain ⟨b', hb', rfl⟩ := List.mem_map.mp (List.mem_filter.mp hb).1
            exact huni b' hb'
          · rw [views_filter_rows, Fetched.rows, List.filter_flatMap, List.map_flatMap, views, List.flatMap_map]
            refine List.flatMap_congr fun b hb => ?_
            rw [RecordBatch.filterRecordBatch_map]
            exact congrArg (fun schema => List.map (rowView schema) _) (huni b hb)

theorem scopedBatches_empty (scope : SyncScope) (now : Int) : scopedBatches scope now [] = some [] := by
  cases scope <;> rfl

theorem views_of_rowCount {f : Fetched} {kept : List RecordBatch} (h : scopedBatches scope now f.batches = some kept)
    (hcount : ¬TableState.rowCount kept < TableState.rowCount f.batches) : views kept = views f.batches := by
  by_cases hne : f.batches = []
  · rw [hne, scopedBatches_empty, Option.some_inj] at h
    rw [← h, hne]
  · rcases scopedBatches_eq f hne with ⟨-, hnone⟩ | ⟨p, kept', -, hkept, -, hviews⟩
    · rw [hnone] at h
      cases h
    · cases hkept.symm.trans h
      rw [rowCount_eq, rowCount_eq, hviews, views_uniform f.uniform, List.length_map, List.length_map] at hcount
      have hfilter : f.rows.filter p = f.rows := List.filter_sublist.eq_of_length_le (Nat.le_of_not_lt hcount)
      rw [hviews, hfilter, views_uniform f.uniform]
      rfl

theorem inScope_widens (hw : Widens src.syncScope (src.fullFetch info).schema now later) {rows : List RowView}
    (h : src.inScope info now = some rows) : ∃ rows', src.inScope info later = some rows' ∧
      (rows' = [] → rows = []) ∧ (rows = src.allRows info → rows' = src.allRows info) := by
  obtain ⟨kept, hkept, rfl⟩ := Option.map_eq_some_iff.mp h
  unfold WarmSource.inScope WarmSource.allRows
  generalize src.fullFetch info = f at hw hkept ⊢
  by_cases hne : f.batches = []
  · rw [hne, scopedBatches_empty, Option.some_inj] at hkept
    rw [hne, scopedBatches_empty, ← hkept]
    exact ⟨_, rfl, id, id⟩
  · rcases scopedBatches_eq f hne with ⟨-, hnone⟩ | ⟨p, kept', hp, hkept', -, hviews⟩
    · rw [hnone] at hkept
      cases hkept
    · cases hkept'.symm.trans hkept
      obtain ⟨q, hq, hpq⟩ := hw p hp
      rcases scopedBatches_eq f hne with ⟨hnone, -⟩ | ⟨q', kept', hq', hlater, -, hviews'⟩
      · rw [hnone] at hq
        cases hq
      · cases hq'.symm.trans hq
        refine ⟨_, congrArg (Option.map _) hlater, fun hnil => ?_, fun hall => ?_⟩ <;> dsimp only at *
        · rw [hviews', List.map_eq_nil_iff, List.map_eq_nil_iff, List.filter_eq_nil_iff] at hnil
          rw [hviews, List.map_eq_nil_iff, List.map_eq_nil_iff, List.filter_eq_nil_iff]
          exact fun row hrow hp => hnil row hrow (hpq row hp)
        · have hlen := congrArg List.length hall
          rw [hviews, views_uniform f.uniform] at hlen
          simp only [List.length_map] at hlen
          have hfilter : f.rows.filter p = f.rows :=
            List.filter_sublist.eq_of_length_le (Nat.le_of_eq hlen.symm)
          have hq_all : f.rows.filter q = f.rows :=
            List.filter_eq_self.mpr fun row hrow => hpq row (List.filter_eq_self.mp hfilter row hrow)
          rw [hviews', hq_all, views_uniform f.uniform]
          rfl

end Scope

/-! ### What a job may do to a table -/

/-- Each row is in the partition of its date already, alone with its key. -/
def Restores (env : ArrowEnv) (pkColumns : List String) (t : WarmTable) (rows : List DatedRow) : Prop :=
  ∀ r ∈ rows, ((t.rows r.date).map (ident env pkColumns)).filter (·.1 = (ident env pkColumns r.row).1) =
    [ident env pkColumns r.row]

/-- The scope has not narrowed since the last job, and the job keeps no row of the table, or fills a table that has
    neither a checkpoint nor rows, or merges rows that are there. -/
structure TableState.Fresh (env : SyncEnv) (src : WarmSource) (info : TableInfo) (clock : Clock) (ts : TableState) :
    Prop where
  widens : ∀ now ∈ ts.handled, Widens src.syncScope (src.fullFetch info).schema now clock.now
  kept : ∀ kept ∈ scopedBatches src.syncScope clock.now (ts.fetched src info).batches,
    views kept = [] ∨ (ts.checkpoint = none ∧ ts.rows = []) ∨
      (ts.merges info = true ∧
        Restores env.toArrowEnv info.primaryKeyColumns ts.table (datedRows clock.today kept))

def WarmJob.Fresh (env : SyncEnv) (src : WarmSource) (s : WarmState) (job : WarmJob) : Prop :=
  ∀ info ∈ src.tables, (s info.name).Fresh env src info (job.clock info.name)

/-- A table with a checkpoint had all its rows in scope. -/
structure TableState.Sound (src : WarmSource) (info : TableInfo) (ts : TableState) : Prop where
  unhandled : ts.handled = none → ts.checkpoint = none ∧ ts.rows = []
  stored : ∀ now ∈ ts.handled, ∃ rows, src.inScope info now = some rows ∧ ts.rows.Perm rows ∧
    (ts.checkpoint ≠ none → rows = src.allRows info)
  schema : ts.checkpoint = none → ∀ date, Uniform (src.fullFetch info).schema (ts.table.files date).flatten
  oneSchema : info.primaryKeyColumns ≠ [] → OneSchema ts.table

namespace TableState
variable {env : SyncEnv} {src : WarmSource} {info : TableInfo} {ts ts' : TableState} {job : WarmJob}

theorem fetched_of_none (h : ts.checkpoint = none) : ts.fetched src info = src.fullFetch info := by
  rw [fetched, incrementalKey, lastValue, h]
  rfl

theorem datedRows_rows (today : NaiveDate) (batches : List RecordBatch) :
    (datedRows today batches).map (·.row) = views batches := by
  unfold datedRows
  split
  · rfl
  · split
    · rw [List.map_flatMap, views]
      exact List.flatMap_congr fun b _ => List.map_map
    · rw [List.map_map]
      exact List.map_id _

theorem append_rows (today : NaiveDate) (kept : List RecordBatch) :
    ((writeWarmIncremental env.toArrowEnv ts.table today kept).allRows.map (eraseMeta ·.row)).Perm
      (ts.rows ++ (views kept).map eraseMeta) := by
  have hperm := (writeWarmIncremental_allRows env.toArrowEnv ts.table today kept).map (eraseMeta ·.row)
  rw [List.map_append] at hperm
  rw [← datedRows_rows today kept, List.map_map]
  exact hperm

theorem merge_rows {today : NaiveDate} {schema : Schema} {kept : List RecordBatch} {table : WarmTable}
    (hpk : info.primaryKeyColumns ≠ []) (huni : Uniform schema kept) (hone : OneSchema ts.table)
    (hrestores : Restores env.toArrowEnv info.primaryKeyColumns ts.table (datedRows today kept))
    (h : mergeWarmIncremental env.toArrowEnv info.primaryKeyColumns ts.table today kept = .ok table) :
    OneSchema table ∧ (table.allRows.map (eraseMeta ·.row)).Perm ts.rows := by
  obtain ⟨hone', hrows⟩ := mergeWarmIncremental_ok hpk (huni.aligned _) hone h
  refine ⟨hone', map_perm_of_rowsOn eraseMeta fun date => ?_⟩
  rw [rowsOn_allRows, rowsOn_allRows]
  have hperm : ((table.rows date).map (ident env.toArrowEnv info.primaryKeyColumns)).Perm
      ((ts.table.rows date).map (ident env.toArrowEnv info.primaryKeyColumns)) := by
    rw [hrows]
    refine upsert_perm fun b hb => ?_
    obtain ⟨row, hrow, rfl⟩ := List.mem_map.mp hb
    obtain ⟨r, hr, rfl⟩ := List.mem_map.mp hrow
    obtain ⟨hr, hdate⟩ := List.mem_filter.mp hr
    rw [← of_decide_eq_true hdate]
    exact hrestores r hr
  have hsnd := hperm.map Prod.snd
  rw [List.map_map, List.map_map] at hsnd
  exact hsnd

theorem advance_ne_none {syncVersion : Int} {fetched kept : List RecordBatch} (h : ts.checkpoint ≠ none) :
    ts.advance env info syncVersion fetched kept ≠ none := by
  unfold advance
  split
  · exact h
  · split
    · exact h
    · split
      · exact h
      · exact Option.some_ne_none _

theorem rowCount_of_advance {syncVersion : Int} {fetched kept : List RecordBatch} (h : ts.checkpoint = none)
    (hadvance : ts.advance env info syncVersion fetched kept ≠ none) : ¬rowCount kept < rowCount fetched := by
  unfold advance at hadvance
  split at hadvance
  · exact absurd h hadvance
  · split at hadvance
    · exact absurd h hadvance
    · next hcount => exact hcount

theorem kept_uniform {f : Fetched} {scope : SyncScope} {now : Int} {kept : List RecordBatch} (hne : f.batches ≠ [])
    (h : scopedBatches scope now f.batches = some kept) : Uniform f.schema kept := by
  rcases scopedBatches_eq f hne with ⟨-, hnone⟩ | ⟨p, kept', -, hkept, huni, -⟩
  · rw [hnone] at h
    cases h
  · cases hkept.symm.trans h
    exact huni

theorem sync_cases (hsync : ts.sync env src job info = some ts') :
    (scopedBatches src.syncScope (job.clock info.name).now (ts.fetched src info).batches = some [] ∧
      ts' = { ts with handled := some (job.clock info.name).now }) ∨
    ∃ kept table, (ts.fetched src info).batches ≠ [] ∧
      scopedBatches src.syncScope (job.clock info.name).now (ts.fetched src info).batches = some kept ∧
      ts.writeWarm env info (job.clock info.name).today kept = some table ∧
      ts' = { table, checkpoint := ts.advance env info job.syncVersion (ts.fetched src info).batches kept,
              handled := some (job.clock info.name).now } := by
  unfold sync at hsync
  dsimp only at hsync
  split at hsync
  · next hnil =>
    cases hsync
    refine Or.inl ⟨?_, rfl⟩
    rw [hnil]
    exact scopedBatches_empty ..
  · next hne =>
    obtain ⟨kept, hkept, hsync⟩ := Option.bind_eq_some_iff.mp hsync
    split at hsync
    · next hnil =>
      cases hsync
      exact Or.inl ⟨hnil ▸ hkept, rfl⟩
    · obtain ⟨table, htable, rfl⟩ := Option.map_eq_some_iff.mp hsync
      exact Or.inr ⟨kept, table, hne, hkept, htable, rfl⟩

/-- Without a checkpoint the table is empty, or has the rows in scope and gets no more. -/
theorem sync_first (h : ts.Sound src info) (hfresh : ts.Fresh env src info (job.clock info.name))
    (hcp : ts.checkpoint = none) (hsync : ts.sync env src job info = some ts') : ts'.Sound src info := by
  have hempty : src.inScope info (job.clock info.name).now = some [] → ts.rows = [] := by
    intro hnil
    cases hhandled : ts.handled with
    | none => exact (h.unhandled hhandled).2
    | some now =>
      obtain ⟨rows, hrows, hperm, -⟩ := h.stored now hhandled
      obtain ⟨rows', hrows', hno, -⟩ := inScope_widens (hfresh.widens now hhandled) hrows
      rw [hno (Option.some_inj.mp (hrows'.symm.trans hnil))] at hperm
      exact List.perm_nil.mp hperm
  have hkept' := hfresh.kept
  rcases sync_cases hsync with ⟨hkept, rfl⟩ | ⟨kept, table, hne, hkept, htable, rfl⟩
  · rw [fetched_of_none hcp] at hkept
    have hin : src.inScope info (job.clock info.name).now = some [] := congrArg (Option.map _) hkept
    refine ⟨fun hno => (nomatch hno), fun now hnow => ?_, h.schema, h.oneSchema⟩
    cases hnow
    exact ⟨[], hin, List.perm_nil.mpr (hempty hin), fun hne => absurd hcp hne⟩
  · rw [fetched_of_none hcp] at hne hkept hkept' ⊢
    have hin : src.inScope info (job.clock info.name).now = some ((views kept).map eraseMeta) :=
      congrArg (Option.map _) hkept
    have hmerges : ts.merges info = false := by
      rw [merges, lastValue, hcp]
      rfl
    rw [writeWarm, hmerges, if_neg Bool.false_ne_true] at htable
    cases htable
    have hnil : ts.rows = [] := by
      rcases hkept' kept hkept with hnil | ⟨-, hnil⟩ | ⟨hm, -⟩
      · exact hempty (hin.trans (by rw [hnil]; rfl))
      · exact hnil
      · rw [hmerges] at hm
        cases hm
    have hschema : ∀ date, Uniform (src.fullFetch info).schema
        ((writeWarmIncremental env.toArrowEnv ts.table (job.clock info.name).today kept).files date).flatten :=
      writeWarmIncremental_uniform (kept_uniform hne hkept) (h.schema hcp)
    refine ⟨fun hno => (nomatch hno), fun now hnow => ?_, fun _ => hschema, fun _ date => ⟨_, hschema date⟩⟩
    cases hnow
    refine ⟨_, hin, ?_, fun hadvance => ?_⟩
    · have hperm := @append_rows env ts (job.clock info.name).today kept
      rw [hnil, List.nil_append] at hperm
      exact hperm
    · rw [views_of_rowCount hkept (rowCount_of_advance hcp hadvance)]
      rfl

/-- With a checkpoint the table has all rows, and keeps them. -/
theorem sync_again (h : ts.Sound src info) (hfresh : ts.Fresh env src info (job.clock info.name))
    (hcp : ts.checkpoint ≠ none) (hsync : ts.sync env src job info = some ts') : ts'.Sound src info := by
  obtain ⟨now, hnow⟩ : ∃ now, ts.handled = some now :=
    Option.ne_none_iff_exists'.mp fun hno => hcp (h.unhandled hno).1
  obtain ⟨rows, hrows, hperm, hall⟩ := h.stored now hnow
  obtain ⟨rows', hrows', -, hall'⟩ := inScope_widens (hfresh.widens now hnow) hrows
  rw [hall hcp] at hperm
  rw [hall' (hall hcp)] at hrows'
  have hkeep : ∀ ts' : TableState, ts'.handled = some (job.clock info.name).now → ts'.checkpoint ≠ none →
      ts'.rows.Perm ts.rows → (info.primaryKeyColumns ≠ [] → OneSchema ts'.table) → ts'.Sound src info := by
    refine fun ts' hhandled hcp' hsame hone => ⟨fun hno => ?_, fun now' hnow' => ?_, fun hno => absurd hno hcp', hone⟩
    · rw [hhandled] at hno
      cases hno
    · cases hhandled.symm.trans hnow'
      exact ⟨_, hrows', hsame.trans hperm, fun _ => rfl⟩
  rcases sync_cases hsync with ⟨-, rfl⟩ | ⟨kept, table, hne, hkept, htable, rfl⟩
  · exact hkeep _ rfl hcp (List.Perm.refl _) h.oneSchema
  · have hfresh := hfresh.kept kept hkept
    have hlast : ts.lastValue.isSome = true := by
      rw [lastValue, Option.isSome_map, Option.isSome_iff_ne_none]
      exact hcp
    by_cases hpk : info.primaryKeyColumns = []
    · have hmerges : ts.merges info = false := by
        rw [merges, hlast, hpk]
        rfl
      rw [writeWarm, hmerges, if_neg Bool.false_ne_true] at htable
      cases htable
      have hnil : views kept = [] := by
        rcases hfresh with hnil | ⟨hno, -⟩ | ⟨hm, -⟩
        · exact hnil
        · exact absurd hno hcp
        · rw [hmerges] at hm
          cases hm
      refine hkeep _ rfl (advance_ne_none hcp) ?_ fun hne => absurd hpk hne
      have hperm := @append_rows env ts (job.clock info.name).today kept
      rw [hnil, List.map_nil, List.append_nil] at hperm
      exact hperm
    · have hmerges : ts.merges info = true := by
        rw [merges, hlast, decide_eq_true hpk]
        rfl
      rw [writeWarm, if_pos hmerges] at htable
      have hrestores : Restores env.toArrowEnv info.primaryKeyColumns ts.table
          (datedRows (job.clock info.name).today kept) := by
        rcases hfresh with hnil | ⟨hno, -⟩ | ⟨-, hr⟩
        · intro r hr
          have hmem := List.mem_map_of_mem (f := DatedRow.row) hr
          rw [datedRows_rows, hnil] at hmem
          cases hmem
        · exact absurd hno hcp
        · exact hr
      obtain ⟨hone, hrows⟩ := merge_rows hpk (kept_uniform hne hkept) (h.oneSchema hpk) hrestores
        (ok_of_toOption htable)
      exact hkeep _ rfl (advance_ne_none hcp) hrows fun _ => hone

theorem sync_sound (h : ts.Sound src info) (hfresh : ts.Fresh env src info (job.clock info.name))
    (hsync : ts.sync env src job info = some ts') : ts'.Sound src info := by
  by_cases hcp : ts.checkpoint = none
  · exact sync_first h hfresh hcp hsync
  · exact sync_again h hfresh hcp hsync

end TableState

section Jobs
variable {env : SyncEnv} {src : WarmSource} {s s' : WarmState} {job : WarmJob}

theorem syncTables_sound (h : ∀ info ∈ src.tables, (s info.name).Sound src info) (hfresh : job.Fresh env src s)
    (hsync : syncTables env src s job = some s') : ∀ info ∈ src.tables, (s' info.name).Sound src info := by
  intro info hinfo
  have hstep := (foldlM_update src.nodup hsync).1 info hinfo
  exact TableState.sync_sound (h info hinfo) (hfresh info hinfo) hstep

theorem exactlyOnce_of_sound (h : ∀ info ∈ src.tables, (s info.name).Sound src info) : ExactlyOnce src s := by
  intro info hinfo now hnow rows hrows
  obtain ⟨rows', hrows', hperm, -⟩ := (h info hinfo).stored now hnow
  cases hrows'.symm.trans hrows
  exact hperm

theorem always_exactlyOnce (h : ∀ info ∈ src.tables, (s info.name).Sound src info) {jobs : List WarmJob}
    (hfresh : Meets (syncTables env src) (WarmJob.Fresh env src) s jobs) :
    Always (syncTables env src) (ExactlyOnce src) s jobs := by
  induction jobs generalizing s with
  | nil => exact exactlyOnce_of_sound h
  | cons job jobs ih =>
    refine ⟨exactlyOnce_of_sound h, fun s' hs' => ?_⟩
    obtain ⟨hjob, hrest⟩ := hfresh s' hs'
    exact ih (syncTables_sound h hjob hs') hrest

end Jobs

/-- In every history of fresh jobs on a source without committed files, each row in scope is committed exactly once
    after every job. -/
theorem exactlyOnce_of_fresh (env : SyncEnv) (src : WarmSource) (jobs : List WarmJob)
    (hfresh : Meets (syncTables env src) (fun s job => job.Fresh env src s) (fun _ => {}) jobs) :
    Always (syncTables env src) (ExactlyOnce src) (fun _ => {}) jobs := by
  refine always_exactlyOnce (fun info _ => ?_) hfresh
  exact {
    unhandled := fun _ => ⟨rfl, rfl⟩
    stored := fun now hnow => absurd hnow (Option.not_mem_none now)
    schema := fun _ _ _ hb => absurd hb List.not_mem_nil
    oneSchema := fun _ _ => ⟨[], fun _ hb => absurd hb List.not_mem_nil⟩ }

/-! ### A table with and without an incremental key -/

/-- One table of two rows, and a connector that returns nothing after a last value. -/
def usersSource (incrementalKey : Option String) : WarmSource where
  tables := [{ name := "users", incrementalKey, primaryKeyColumns := ["id"] }]
  nodup := List.nodup_singleton _
  syncScope := .full
  fetchTable _ _ lastValue := {
    schema := eventsSchema
    batches := if lastValue.isSome then [] else (eventsDelivery 0 [(1, 19000), (2, 19001)]).batches
    uniform := by
      cases lastValue with
      | none => exact eventsDelivery_uniform 0 [(1, 19000), (2, 19001)]
      | some v => exact fun b hb => (nomatch hb) }

def plainSyncEnv : SyncEnv where
  toArrowEnv := plainEnv
  formatMicros _ := none
  maxFinite _ := none

def jobAt (day : NaiveDate) : WarmJob where
  clock _ := { now := day * (secondsPerDay * nanosPerSecond), today := day }
  syncVersion := day

theorem keyedTable_exactlyOnce : Always (syncTables plainSyncEnv (usersSource (some "id")))
    (ExactlyOnce (usersSource (some "id"))) (fun _ => {}) [jobAt 20000, jobAt 20001] := by
  refine exactlyOnce_of_fresh plainSyncEnv (usersSource (some "id")) _ (.cons rfl ?_ (.cons rfl ?_ trivial))
  · intro info _
    exact ⟨fun _ hnow => (nomatch hnow), fun _ _ => Or.inr (Or.inl ⟨rfl, rfl⟩)⟩
  · intro info hinfo
    cases List.mem_singleton.mp hinfo
    refine ⟨fun _ _ p hp => ⟨p, hp, fun _ h => h⟩, fun kept hkept => Or.inl ?_⟩
    cases hkept
    rfl

/-- Without an incremental key there is never a checkpoint, and the second job appends all rows again. -/
theorem keylessTable_duplicated : ¬Always (syncTables plainSyncEnv (usersSource none))
    (ExactlyOnce (usersSource none)) (fun _ => {}) [jobAt 20000, jobAt 20001] := by
  intro h
  obtain ⟨s, hs, hhandled, hrows⟩ : ∃ s, exec (syncTables plainSyncEnv (usersSource none)) (fun _ => {})
      [jobAt 20000, jobAt 20001] = some s ∧ (s "users").handled.isSome = true ∧ (s "users").rows.length = 4 :=
    ⟨_, rfl, by decide, by decide⟩
  obtain ⟨now, hnow⟩ := Option.isSome_iff_exists.mp hhandled
  have hperm := (h.of_exec hs) _ List.mem_cons_self now hnow _ rfl
  have hlen := hperm.length_eq
  rw [hrows] at hlen
  exact absurd hlen (by decide)

end Reiver.Pond
