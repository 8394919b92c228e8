import Reiver.Lib.Run
import Reiver.Pond.Sync.JsonRows

/-! # The hot tier

The model of `write_hot`, the staging tables of `storage/clickhouse.rs` and their handling in `sync_source`. A
table goes by the name `source_table_name` gives it; its staging table has the prefix `_staging_`, so the two
never clash. The steps that fail are part of the input of a run; a crash leaves what a failed step with failed
drops leaves.

The commit exchanges whole tables, and the staging table received only what this run fetched, as it was written:
a run keeps the rows of a table only if it fetched them again and their cells come through
(`hotRuns_keep_iff`). -/

namespace Reiver.Pond

structure HotDb (Row : Type) where
  production : Dict String (List Row)
  staging : Dict String (List Row)

/-- The queries of `commit_staging_table` that may fail. -/
inductive CommitFault where
  | none
  | existsQuery
  | swapQuery
  | dropQuery
deriving DecidableEq

inductive CommitResult where
  | failed
  | swapped
  | committed
deriving DecidableEq

/-- What a run gets for one table: the batches the connector returns (`none` for an error), the rows in the sync
    scope, and how far the writes succeed. -/
structure HotFetch (Row : Type) where
  table : String
  fetched : Option (List (List Row))
  scope : Option (Row → Bool)
  created : Bool
  inserted : Nat

structure HotRun (Row : Type) where
  tables : List (HotFetch Row)
  fault : String → CommitFault
  dropped : String → Bool

inductive HotOutcome where
  | nothingStaged
  | failed
  | partlyCommitted
  | committed
deriving DecidableEq

/-! ### The staging tables

`write` is what a table has of a row that is inserted into it. -/

namespace HotDb
variable {Row : Type}

def init : HotDb Row := { production := ∅, staging := ∅ }

/-- `CREATE TABLE IF NOT EXISTS`. -/
def createStagingTable (db : HotDb Row) (t : String) : HotDb Row :=
  { db with staging := db.staging.insert t ((db.staging.lookup t).getD []) }

def insertStagingBatch (write : String → Row → Row) (db : HotDb Row) (t : String) (batch : List Row) : HotDb Row :=
  if batch = [] then db
  else { db with staging := db.staging.insert t ((db.staging.lookup t).getD [] ++ batch.map (write t)) }

def dropStagingTable (db : HotDb Row) (t : String) : HotDb Row := { db with staging := db.staging.erase t }

/-- Exchanges the staging table with the production table and drops it, or renames it. -/
def commitStagingTable (fault : CommitFault) (db : HotDb Row) (t : String) : HotDb Row × CommitResult :=
  if fault = .existsQuery then (db, .failed)
  else
    match db.staging.lookup t with
    | none => (db, .failed)
    | some rows =>
      if fault = .swapQuery then (db, .failed)
      else
        match db.production.lookup t with
        | some old =>
          let db := { production := db.production.insert t rows, staging := db.staging.insert t old }
          if fault = .dropQuery then (db, .swapped) else (db.dropStagingTable t, .committed)
        | none => ({ production := db.production.insert t rows, staging := db.staging.erase t }, .committed)

/-- Commits table by table up to the first failure: the tables committed, whether a table was swapped at all, and
    whether all were committed. -/
def commitStagingTables (fault : String → CommitFault) (db : HotDb Row) :
    List String → HotDb Row × List String × Bool × Bool
  | [] => (db, [], false, true)
  | t :: staged =>
    match commitStagingTable (fault t) db t with
    | (db, .failed) => (db, [], false, false)
    | (db, .swapped) => (db, [], true, false)
    | (db, .committed) =>
      let (db, committed, _, ok) := commitStagingTables fault db staged
      (db, t :: committed, true, ok)

def rollbackStagingTables (dropped : String → Bool) (db : HotDb Row) (staged : List String) : HotDb Row :=
  staged.foldl (fun db t => if dropped t then db.dropStagingTable t else db) db

/-- The time filter drops the batches it leaves empty. -/
def scopedBatches (scope : Option (Row → Bool)) (batches : List (List Row)) : List (List Row) :=
  match scope with
  | none => batches
  | some p => (batches.map (·.filter p)).filter (· ≠ [])

/-- Inserts the batches up to the first failure. -/
def writeHot (write : String → Row → Row) (db : HotDb Row) (f : HotFetch Row) (batches : List (List Row)) :
    HotDb Row × Bool :=
  if f.created then
    ((batches.take f.inserted).foldl (insertStagingBatch write · f.table) (db.createStagingTable f.table),
      decide (batches.length ≤ f.inserted))
  else (db, false)

/-- Stages table by table up to the first failure: the tables staged, and whether all went well. -/
def syncTables (write : String → Row → Row) (db : HotDb Row) : List (HotFetch Row) → HotDb Row × List String × Bool
  | [] => (db, [], true)
  | f :: tables =>
    match f.fetched with
    | none => (db, [], false)
    | some batches =>
      let kept := scopedBatches f.scope batches
      if batches = [] ∨ kept = [] then syncTables write db tables
      else
        let (db, written) := writeHot write db f kept
        if written then
          let (db, staged, ok) := syncTables write db tables
          (db, f.table :: staged, ok)
        else (db, [f.table], false)

/-- Stages all tables, then commits or rolls back. -/
def syncSource (write : String → Row → Row) (db : HotDb Row) (run : HotRun Row) : HotDb Row × HotOutcome :=
  let (db, staged, ok) := syncTables write db run.tables
  if staged = [] then (db, if ok then .nothingStaged else .failed)
  else if ok then
    let (db, committed, swapped, allCommitted) := commitStagingTables run.fault db staged
    if allCommitted then (db, .committed)
    else
      (rollbackStagingTables run.dropped db (staged.filter (· ∉ committed)),
        if swapped then .partlyCommitted else .failed)
  else (rollbackStagingTables run.dropped db staged, .failed)

end HotDb

/-! ### What a run should keep -/

section Keep
variable {Row Key : Type} (write : String → Row → Row)

def rowsIn (d : Dict String (List Row)) (t : String) : List Row := (d.lookup t).getD []

/-- The batches that are staged for a table, and those fetched for it. -/
def HotFetch.staged (f : HotFetch Row) : List (List Row) := HotDb.scopedBatches f.scope (f.fetched.getD [])

def HotRun.fetchedRows (run : HotRun Row) (t : String) : List Row :=
  (run.tables.filter (·.table = t)).flatMap fun f => (f.fetched.getD []).flatten

/-- What is staged for a table, as it is written. -/
def HotRun.stagedRows (run : HotRun Row) (t : String) : List Row :=
  (run.tables.filter (·.table = t)).flatMap fun f => f.staged.flatten.map (write t)

def HotRun.Stages (run : HotRun Row) (t : String) : Prop := ∃ f ∈ run.tables, f.table = t ∧ f.staged ≠ []

/-- The run fetched a row with the same primary key. -/
def HotRun.Supersedes (pk : String → Row → Option Key) (run : HotRun Row) (t : String) (row : Row) : Prop :=
  ∃ new ∈ run.fetchedRows t, ∃ k, pk t row = some k ∧ pk t new = some k

/-- A committed run keeps the rows that are not superseded and adds the rows it fetched; a run that failed before
    any commit changes nothing. -/
def HotRun.Keeps (pk : String → Row → Option Key) (db : HotDb Row) (run : HotRun Row) : Prop :=
  match (db.syncSource write run).2 with
  | .committed => ∀ t,
    (∀ row ∈ rowsIn db.production t,
      row ∈ rowsIn (db.syncSource write run).1.production t ∨ run.Supersedes pk t row) ∧
    ∀ row ∈ run.fetchedRows t, row ∈ rowsIn (db.syncSource write run).1.production t
  | .failed => (db.syncSource write run).1.production = db.production
  | _ => True

/-- The tables the run stages get every row that must stay: it is left over in the staging table, superseded, or
    what a row fetched in scope is written as; a fetched row that is dropped by the time filter, or is written as
    another, is there already. -/
def HotRun.Refetches (pk : String → Row → Option Key) (db : HotDb Row) (run : HotRun Row) : Prop := ∀ t,
  (run.Stages t → ∀ row ∈ rowsIn db.production t,
    row ∈ rowsIn db.staging t ∨ row ∈ run.stagedRows write t ∨ run.Supersedes pk t row) ∧
  ∀ row ∈ run.fetchedRows t,
    (run.Stages t ∧ (row ∈ rowsIn db.staging t ∨ row ∈ run.stagedRows write t)) ∨
      (¬run.Stages t ∧ row ∈ rowsIn db.production t)

end Keep

section Lemmas
variable {Row Key : Type} {write : String → Row → Row} {db db' : HotDb Row}

theorem rowsIn_insert (d : Dict String (List Row)) (t t' : String) (rows : List Row) :
    rowsIn (d.insert t' rows) t = if t = t' then rows else rowsIn d t := by
  rw [rowsIn, Dict.lookup_insert']
  split <;> rfl

theorem insertStagingBatch_production (db : HotDb Row) (t : String) (batch : List Row) :
    (db.insertStagingBatch write t batch).production = db.production := by
  unfold HotDb.insertStagingBatch
  split <;> rfl

theorem insertStagingBatch_staging (db : HotDb Row) (t t' : String) (batch : List Row) :
    rowsIn (db.insertStagingBatch write t' batch).staging t =
      rowsIn db.staging t ++ if t = t' then batch.map (write t) else [] := by
  unfold HotDb.insertStagingBatch
  split
  · next h => simp [h]
  · rw [rowsIn_insert]
    split
    · next h => rw [h]; rfl
    · rw [List.append_nil]

theorem insertBatches_production (db : HotDb Row) (t : String) (batches : List (List Row)) :
    (batches.foldl (HotDb.insertStagingBatch write · t) db).production = db.production := by
  induction batches generalizing db with
  | nil => rfl
  | cons batch rest ih => rw [List.foldl_cons, ih, insertStagingBatch_production]

theorem insertBatches_staging (db : HotDb Row) (t t' : String) (batches : List (List Row)) :
    rowsIn (batches.foldl (HotDb.insertStagingBatch write · t') db).staging t =
      rowsIn db.staging t ++ if t = t' then batches.flatten.map (write t) else [] := by
  induction batches generalizing db with
  | nil => simp
  | cons batch rest ih =>
    rw [List.foldl_cons, ih, insertStagingBatch_staging, List.flatten_cons, List.map_append, List.append_assoc]
    split <;> simp

theorem writeHot_production (db : HotDb Row) (f : HotFetch Row) (batches : List (List Row)) :
    (db.writeHot write f batches).1.production = db.production := by
  unfold HotDb.writeHot
  split
  · exact insertBatches_production ..
  · rfl

theorem syncTables_production (db : HotDb Row) (tables : List (HotFetch Row)) :
    (db.syncTables write tables).1.production = db.production := by
  induction tables generalizing db with
  | nil => rfl
  | cons f tables ih =>
    unfold HotDb.syncTables
    cases f.fetched with
    | none => rfl
    | some batches =>
      dsimp only
      split
      · exact ih db
      · split
        · exact (ih _).trans (writeHot_production db f _)
        · exact writeHot_production db f _

theorem rollbackStagingTables_production (dropped : String → Bool) (db : HotDb Row) (staged : List String) :
    (db.rollbackStagingTables dropped staged).production = db.production := by
  induction staged generalizing db with
  | nil => rfl
  | cons t staged ih =>
    rw [HotDb.rollbackStagingTables, List.foldl_cons]
    refine (ih _).trans ?_
    split <;> rfl

theorem createStagingTable_rows (db : HotDb Row) (t t' : String) :
    rowsIn (db.createStagingTable t').staging t = rowsIn db.staging t := by
  rw [HotDb.createStagingTable, rowsIn_insert]
  split
  · next h => rw [h]; rfl
  · rfl

theorem writeHot_staging {f : HotFetch Row} {batches : List (List Row)} (h : (db.writeHot write f batches).2 = true)
    (t : String) : rowsIn (db.writeHot write f batches).1.staging t =
      rowsIn db.staging t ++ if t = f.table then batches.flatten.map (write t) else [] := by
  unfold HotDb.writeHot at h ⊢
  split at h
  · next hcreated =>
    rw [if_pos hcreated, List.take_of_length_le (of_decide_eq_true h), insertBatches_staging, createStagingTable_rows]
  · cases h

theorem scopedBatches_nil (scope : Option (Row → Bool)) : HotDb.scopedBatches scope ([] : List (List Row)) = [] := by
  cases scope <;> rfl

/-- When all tables are staged, a staging table has what was left over in it and what was fetched in scope. -/
theorem syncTables_ok {tables : List (HotFetch Row)} (h : (db.syncTables write tables).2.2 = true) :
    (∀ t, rowsIn (db.syncTables write tables).1.staging t =
      rowsIn db.staging t ++ (tables.filter (·.table = t)).flatMap fun f => f.staged.flatten.map (write t)) ∧
    ∀ t, t ∈ (db.syncTables write tables).2.1 ↔ ∃ f ∈ tables, f.table = t ∧ f.staged ≠ [] := by
  induction tables generalizing db with
  | nil => exact ⟨fun t => by simp [HotDb.syncTables], fun t => by simp [HotDb.syncTables]⟩
  | cons f tables ih =>
    have hcons : ∀ t, ((f :: tables).filter (·.table = t)).flatMap (fun f => f.staged.flatten.map (write t)) =
        (if t = f.table then f.staged.flatten.map (write t) else []) ++
          (tables.filter (·.table = t)).flatMap fun f => f.staged.flatten.map (write t) := by
      intro t
      by_cases ht : f.table = t
      · rw [List.filter_cons_of_pos (by simpa using ht), List.flatMap_cons, if_pos ht.symm]
      · rw [List.filter_cons_of_neg (by simpa using ht), if_neg fun h => ht h.symm, List.nil_append]
    rw [HotDb.syncTables] at h ⊢
    cases hf : f.fetched with
    | none =>
      rw [hf] at h
      cases h
    | some batches =>
      have hstaged : f.staged = HotDb.scopedBatches f.scope batches := by rw [HotFetch.staged, hf, Option.getD_some]
      simp only [hf] at h ⊢
      rw [← hstaged] at h ⊢
      have hskip : batches = [] ∨ f.staged = [] ↔ f.staged = [] :=
        or_iff_right_of_imp fun hb => by rw [hstaged, hb, scopedBatches_nil]
      simp only [hskip] at h ⊢
      by_cases hnil : f.staged = []
      · simp only [if_pos hnil] at h ⊢
        obtain ⟨hrows, hmem⟩ := ih h
        refine ⟨fun t => ?_, fun t => ?_⟩
        · rw [hrows, hcons, hnil]
          simp
        · rw [hmem]
          simp [hnil]
      · simp only [if_neg hnil] at h ⊢
        by_cases hw : (db.writeHot write f f.staged).2 = true
        · simp only [hw, if_true] at h ⊢
          obtain ⟨hrows, hmem⟩ := ih h
          refine ⟨fun t => ?_, fun t => ?_⟩
          · rw [hrows, writeHot_staging hw, hcons, List.append_assoc]
          · rw [List.mem_cons, hmem]
            simp only [List.mem_cons, exists_eq_or_imp, ne_eq, hnil, not_false_eq_true, and_true]
            exact or_congr_left eq_comm
        · simp only [hw] at h
          cases h

theorem commitStagingTable_swapped {fault : CommitFault} {t : String}
    (h : (db.commitStagingTable fault t).2 ≠ .failed) : ∃ rows, db.staging.lookup t = some rows ∧
      (db.commitStagingTable fault t).1.production = db.production.insert t rows := by
  unfold HotDb.commitStagingTable at h ⊢
  split at h
  · exact absurd rfl h
  · next hexists =>
    rw [if_neg hexists]
    cases hrows : db.staging.lookup t with
    | none =>
      rw [hrows] at h
      exact absurd rfl h
    | some rows =>
      simp only [hrows] at h ⊢
      split at h
      · exact absurd rfl h
      · next hswap =>
        rw [if_neg hswap]
        refine ⟨rows, rfl, ?_⟩
        cases db.production.lookup t with
        | none => rfl
        | some old =>
          dsimp only
          split <;> rfl

theorem commitStagingTable_staging {fault : CommitFault} {t : String}
    (h : (db.commitStagingTable fault t).2 = .committed) (t' : String) :
    (db.commitStagingTable fault t).1.staging.lookup t' = if t' = t then none else db.staging.lookup t' := by
  unfold HotDb.commitStagingTable at h ⊢
  split at h
  · cases h
  · next hexists =>
    rw [if_neg hexists]
    cases hrows : db.staging.lookup t with
    | none =>
      rw [hrows] at h
      cases h
    | some rows =>
      simp only [hrows] at h ⊢
      split at h
      · cases h
      · next hswap =>
        rw [if_neg hswap]
        cases hold : db.production.lookup t with
        | none => exact Dict.lookup_erase' _ _ _
        | some old =>
          simp only [hold] at h ⊢
          split at h
          · cases h
          · next hdrop =>
            rw [if_neg hdrop]
            refine (Dict.lookup_erase' _ _ _).trans ?_
            split
            · rfl
            · next hne => exact AList.lookup_insert_ne hne

theorem commitStagingTable_failed {fault : CommitFault} {t : String}
    (h : (db.commitStagingTable fault t).2 = .failed) : (db.commitStagingTable fault t).1 = db := by
  unfold HotDb.commitStagingTable at h ⊢
  split at h
  · next hexists => rw [if_pos hexists]
  · next hexists =>
    rw [if_neg hexists]
    cases hrows : db.staging.lookup t with
    | none => rfl
    | some rows =>
      simp only [hrows] at h ⊢
      split at h
      · next hswap => rw [if_pos hswap]
      · cases hold : db.production.lookup t with
        | none =>
          rw [hold] at h
          cases h
        | some old =>
          simp only [hold] at h
          split at h <;> cases h

theorem commitStagingTables_unswapped {fault : String → CommitFault} {staged : List String}
    (h : (db.commitStagingTables fault staged).2.2.1 = false) :
    (db.commitStagingTables fault staged).1.production = db.production := by
  cases staged with
  | nil => rfl
  | cons t staged =>
    rw [HotDb.commitStagingTables] at h ⊢
    have hfailed := @commitStagingTable_failed _ db (fault t) t
    revert h hfailed
    rcases db.commitStagingTable (fault t) t with ⟨db', result⟩
    cases result with
    | failed =>
      intro _ hfailed
      rw [hfailed rfl]
    | swapped => exact fun h => (nomatch h)
    | committed => exact fun h => (nomatch h)

theorem commitStagingTables_ok {fault : String → CommitFault} {staged : List String}
    (h : (db.commitStagingTables fault staged).2.2.2 = true) :
    (∀ t ∈ staged, (db.staging.lookup t).isSome = true) ∧ ∀ t,
      rowsIn (db.commitStagingTables fault staged).1.production t =
        if t ∈ staged then rowsIn db.staging t else rowsIn db.production t := by
  induction staged generalizing db with
  | nil => exact ⟨fun _ ht => (nomatch ht), fun t => by simp [HotDb.commitStagingTables]⟩
  | cons t staged ih =>
    have hswapped := @commitStagingTable_swapped _ db (fault t) t
    have hstaging := @commitStagingTable_staging _ db (fault t) t
    rw [HotDb.commitStagingTables] at h ⊢
    revert h hswapped hstaging
    rcases db.commitStagingTable (fault t) t with ⟨db', result⟩
    cases result with
    | failed => exact fun h => (nomatch h)
    | swapped => exact fun h => (nomatch h)
    | committed =>
      intro h hswapped hstaging
      obtain ⟨rows, hrows, hprod⟩ := hswapped fun hf => (nomatch hf)
      replace hstaging := hstaging rfl
      obtain ⟨hexists, hcontent⟩ := ih h
      have hnot : t ∉ staged := fun hmem => by
        have hsome := hexists t hmem
        rw [hstaging, if_pos rfl] at hsome
        cases hsome
      refine ⟨fun t' ht' => ?_, fun t' => ?_⟩
      · rcases List.mem_cons.mp ht' with rfl | ht'
        · rw [hrows]
          rfl
        · have hsome := hexists t' ht'
          rwa [hstaging, if_neg (ne_of_mem_of_not_mem ht' hnot)] at hsome
      · refine (hcontent t').trans ?_
        by_cases heq : t' = t
        · subst heq
          rw [if_neg hnot, if_pos List.mem_cons_self, hprod, rowsIn_insert, if_pos rfl, rowsIn, hrows]
          rfl
        · simp only [List.mem_cons, heq, false_or]
          split
          · rw [rowsIn, hstaging, if_neg heq]
            rfl
          · rw [hprod, rowsIn_insert, if_neg heq]

theorem syncSource_committed {run : HotRun Row} (h : (db.syncSource write run).2 = .committed) (t : String) :
    (run.Stages t →
      rowsIn (db.syncSource write run).1.production t = rowsIn db.staging t ++ run.stagedRows write t) ∧
    (¬run.Stages t → rowsIn (db.syncSource write run).1.production t = rowsIn db.production t) := by
  have hprod := @syncTables_production _ write db run.tables
  have hok := @syncTables_ok _ write db run.tables
  rw [HotDb.syncSource] at h ⊢
  revert h hprod hok
  rcases db.syncTables write run.tables with ⟨db₁, staged, ok⟩
  intro h hprod hok
  dsimp only at h hprod hok ⊢
  split at h
  · split at h <;> cases h
  · next hne =>
    split at h
    · next hokTrue =>
      obtain ⟨hrows, hmem⟩ := hok hokTrue
      have hcommit := @commitStagingTables_ok _ db₁ run.fault staged
      rw [if_neg hne, if_pos hokTrue]
      revert h hcommit
      rcases db₁.commitStagingTables run.fault staged with ⟨db₂, committed, swapped, all⟩
      intro h hcommit
      dsimp only at h hcommit ⊢
      split at h
      · next hall =>
        rw [if_pos hall]
        refine ⟨fun hs => ?_, fun hs => ?_⟩
        · rw [(hcommit hall).2, if_pos ((hmem t).mpr hs), hrows]
          rfl
        · rw [(hcommit hall).2, if_neg fun hin => hs ((hmem t).mp hin), hprod]
      · dsimp only at h
        split at h <;> cases h
    · cases h

theorem syncSource_failed {run : HotRun Row} (h : (db.syncSource write run).2 = .failed) :
    (db.syncSource write run).1.production = db.production := by
  have hprod := @syncTables_production _ write db run.tables
  rw [HotDb.syncSource] at h ⊢
  revert h hprod
  rcases db.syncTables write run.tables with ⟨db₁, staged, ok⟩
  intro h hprod
  dsimp only at h hprod ⊢
  split at h
  · next hnil =>
    rw [if_pos hnil]
    exact hprod
  · next hne =>
    rw [if_neg hne]
    split at h
    · next hok =>
      have hcommit := @commitStagingTables_unswapped _ db₁ run.fault staged
      rw [if_pos hok]
      revert h hcommit
      rcases db₁.commitStagingTables run.fault staged with ⟨db₂, committed, swapped, all⟩
      intro h hcommit
      dsimp only at h hcommit ⊢
      split at h
      · cases h
      · next hall =>
        rw [if_neg hall]
        dsimp only at h ⊢
        split at h
        · cases h
        · next hswap => rw [rollbackStagingTables_production, hcommit (by simpa using hswap), hprod]
    · next hok =>
      rw [if_neg hok]
      exact (rollbackStagingTables_production ..).trans hprod

end Lemmas

theorem keeps_iff {Row Key : Type} (write : String → Row → Row) (pk : String → Row → Option Key) (db : HotDb Row)
    (run : HotRun Row) :
    run.Keeps write pk db ↔ ((db.syncSource write run).2 = .committed → run.Refetches write pk db) := by
  unfold HotRun.Keeps
  split
  · next hc =>
    rw [hc, forall_prop_of_true rfl]
    refine forall_congr' fun t => ?_
    obtain ⟨hstaged, hother⟩ := syncSource_committed hc t
    by_cases hs : run.Stages t
    · simp only [hstaged hs, List.mem_append, hs, true_and, not_true_eq_false, false_and, or_false, forall_true_left,
        or_assoc]
    · simp only [hother hs, hs, false_and, false_or, not_false_eq_true, true_and, IsEmpty.forall_iff]
      exact and_iff_right_of_imp fun _ row hrow => Or.inl hrow
  · next hf => exact iff_of_true (syncSource_failed hf) fun hc => by rw [hf] at hc; cases hc
  · next hnc _ => exact iff_of_true trivial fun hc => absurd hc hnc

def HotDb.step {Row : Type} (write : String → Row → Row) (db : HotDb Row) (run : HotRun Row) : Option (HotDb Row) :=
  some (db.syncSource write run).1

/-- In a history of runs over record batches, every run keeps what was there if and only if every run that commits
    fetched again what must stay, and it is written as it was. -/
theorem hotRuns_keep_iff {Key : Type} (ch : ClickHouse) (pk : String → TypedRow → Option Key) (db : HotDb TypedRow)
    (runs : List (HotRun TypedRow)) :
    Meets (HotDb.step ch.written) (fun db run => run.Keeps ch.written pk db) db runs ↔
      Meets (HotDb.step ch.written)
        (fun db run => (db.syncSource ch.written run).2 = .committed → run.Refetches ch.written pk db) db runs :=
  meets_congr fun db run => keeps_iff ch.written pk db run

/-! ### An incremental second run -/

def userRow (id : Int) (name : String) : TypedRow :=
  [(⟨"id", .int64, false⟩, some (.int id)), (⟨"name", .utf8, true⟩, some (.text name))]

def userKey (row : TypedRow) : Option Int :=
  match row with
  | (_, some (.int id)) :: _ => some id
  | _ => none

/-- A run that fetches rows of one table in full scope, without failures. -/
def plainRun (table : String) (rows : List TypedRow) : HotRun TypedRow where
  tables := [{ table, fetched := some [rows], scope := none, created := true, inserted := 1 }]
  fault := fun _ => .none
  dropped := fun _ => true

/-- The second run fetches only the row that is new since the checkpoint, and the first row is gone. -/
theorem incrementalRun_loses_rows :
    ¬Meets (HotDb.step ClickHouse.plain.written)
      (fun db run => run.Keeps ClickHouse.plain.written (fun _ => userKey) db) .init
      [plainRun "users" [userRow 1 "ada"], plainRun "users" [userRow 2 "bob"]] := by
  intro h
  obtain ⟨-, h⟩ := h _ rfl
  obtain ⟨hkeeps, -⟩ := h _ rfl
  obtain ⟨hrows, -⟩ := hkeeps "users"
  rcases hrows (userRow 1 "ada") (by decide) with hmem | ⟨new, hnew, k, hk, hk'⟩
  · exact absurd hmem (by decide)
  · cases List.mem_singleton.mp hnew
    cases hk
    cases hk'

end Reiver.Pond
