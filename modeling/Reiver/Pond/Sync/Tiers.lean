import Mathlib.Data.List.DropRight
import Mathlib.Data.List.Flatten
import Reiver.Pond.Sync.Catalog
import Reiver.Pond.Sync.JsonRows

/-! # Storage tiers

Where the rows of a source lie: in ClickHouse tables when it is hot, in the files of its committed partitions when
it is warm. -/

namespace Reiver.Pond

/-- The column `tier` of `warehouse_sources`. -/
inductive SourceTier where
  | cold
  | warm
  | hot
deriving DecidableEq

/-! ### Names of ClickHouse tables -/

@[grind =]
def collapseUnderscores : Bool → List Char → List Char
  | _, [] => []
  | prevUnderscore, c :: cs =>
    if c = '_' then
      if prevUnderscore then collapseUnderscores true cs else c :: collapseUnderscores true cs
    else c :: collapseUnderscores false cs

def sanitizeIdentifier (name : String) : String :=
  let result := name.toList.map fun c => if c.isAlphanum || c = '_' then c else '_'
  let result := collapseUnderscores false result
  let result :=
    match result with
    | first :: rest => if first.isDigit then '_' :: first :: rest else first :: rest
    | [] => []
  let trimmed := result.rdropWhile (· = '_')
  if trimmed = [] then "_empty" else String.ofList trimmed

theorem collapseUnderscores_collapse (prev : Bool) (cs : List Char) :
    collapseUnderscores prev (collapseUnderscores prev cs) = collapseUnderscores prev cs := by
  induction cs generalizing prev with
  | nil => rfl
  | cons c cs ih =>
    by_cases hc : c = '_'
    · cases prev <;> simp [collapseUnderscores, hc, ih]
    · simp [collapseUnderscores, hc, ih]

theorem length_collapseUnderscores (prev : Bool) (cs : List Char) :
    (collapseUnderscores prev cs).length ≤ cs.length := by
  induction cs generalizing prev with
  | nil => exact Nat.le_refl _
  | cons c cs ih =>
    rw [collapseUnderscores]
    split
    · split
      · exact (ih true).trans (Nat.le_succ _)
      · exact Nat.succ_le_succ (ih true)
    · exact Nat.succ_le_succ (ih false)

theorem mem_collapseUnderscores {prev : Bool} {cs : List Char} {c : Char} (h : c ∈ collapseUnderscores prev cs) :
    c ∈ cs := by
  induction cs generalizing prev with
  | nil => exact h
  | cons d cs ih =>
    rw [collapseUnderscores] at h
    split at h
    · split at h
      · exact List.mem_cons_of_mem _ (ih h)
      · exact List.mem_cons.mpr ((List.mem_cons.mp h).imp_right ih)
    · exact List.mem_cons.mpr ((List.mem_cons.mp h).imp_right ih)

theorem collapseUnderscores_of_append {prev : Bool} {cs tail : List Char}
    (h : collapseUnderscores prev (cs ++ tail) = cs ++ tail) : collapseUnderscores prev cs = cs := by
  induction cs generalizing prev with
  | nil => rfl
  | cons c cs ih =>
    rw [List.cons_append, collapseUnderscores] at h
    rw [collapseUnderscores]
    split at h
    · split at h
      · have hlen := length_collapseUnderscores true (cs ++ tail)
        rw [h, List.length_cons] at hlen
        exact absurd hlen (Nat.not_succ_le_self _)
      · next hc hprev =>
        rw [if_pos hc, if_neg hprev, ih (List.cons.inj h).2]
    · next hc => rw [if_neg hc, ih (List.cons.inj h).2]

/-- The characters of a name that is its own ClickHouse name. -/
structure Sanitized (cs : List Char) : Prop where
  alphanumeric : ∀ c ∈ cs, (c.isAlphanum || c = '_') = true
  collapsed : collapseUnderscores false cs = cs
  notDigit : ∀ c ∈ cs.head?, c.isDigit = false
  trimmed : cs.rdropWhile (· = '_') = cs
  nonempty : cs ≠ []

theorem Sanitized.sanitizeIdentifier_eq {cs : List Char} (h : Sanitized cs) :
    sanitizeIdentifier (String.ofList cs) = String.ofList cs := by
  have hmap : cs.map (fun c => if c.isAlphanum || c = '_' then c else '_') = cs :=
    (List.map_congr_left fun c hc => if_pos (h.alphanumeric c hc)).trans (List.map_id _)
  rw [sanitizeIdentifier, String.toList_ofList, hmap, h.collapsed]
  cases cs with
  | nil => exact absurd rfl h.nonempty
  | cons c cs =>
    simp only [h.notDigit c rfl, Bool.false_eq_true, if_false]
    rw [h.trimmed, if_neg h.nonempty]

theorem sanitized_prefix {cs : List Char} (halpha : ∀ c ∈ cs, (c.isAlphanum || c = '_') = true)
    (hcollapsed : collapseUnderscores false cs = cs) (hdigit : ∀ c ∈ cs.head?, c.isDigit = false)
    (hne : cs.rdropWhile (· = '_') ≠ []) : Sanitized (cs.rdropWhile (· = '_')) := by
  obtain ⟨tail, htail⟩ := List.rdropWhile_prefix (· = '_') cs
  have hsplit : collapseUnderscores false (cs.rdropWhile (· = '_') ++ tail) = cs.rdropWhile (· = '_') ++ tail := by
    rw [htail, hcollapsed]
  refine ⟨fun c hc => halpha c (htail ▸ List.mem_append_left _ hc), collapseUnderscores_of_append hsplit,
    fun c hc => hdigit c ?_, List.rdropWhile_idempotent _ _, hne⟩
  · obtain ⟨d, rest, heq⟩ := List.exists_cons_of_ne_nil hne
    rw [heq] at hc
    rw [← htail, heq]
    exact hc

theorem sanitized_sanitizeIdentifier (name : String) :
    ∃ cs, Sanitized cs ∧ sanitizeIdentifier name = String.ofList cs := by
  rw [sanitizeIdentifier]
  generalize hmapped : name.toList.map (fun c => if c.isAlphanum || c = '_' then c else '_') = mapped
  have hmappedAlpha : ∀ c ∈ mapped, (c.isAlphanum || c = '_') = true := by
    intro c hc
    rw [← hmapped] at hc
    obtain ⟨d, -, rfl⟩ := List.mem_map.mp hc
    split
    · assumption
    · rfl
  have halpha : ∀ c ∈ collapseUnderscores false mapped, (c.isAlphanum || c = '_') = true :=
    fun c hc => hmappedAlpha c (mem_collapseUnderscores hc)
  have hcollapsed := collapseUnderscores_collapse false mapped
  generalize collapseUnderscores false mapped = result at halpha hcollapsed
  have hletters : "_empty".toList.all (fun c => c.isAlphanum || c = '_') = true := by decide
  have hempty : Sanitized "_empty".toList :=
    ⟨List.all_eq_true.mp hletters, by decide, fun c hc => Option.some.inj hc ▸ rfl, by decide, by decide⟩
  cases result with
  | nil => exact ⟨_, hempty, rfl⟩
  | cons first rest =>
    by_cases hfirst : first.isDigit
    · have hnot : first ≠ '_' := fun h => by rw [h] at hfirst; exact absurd hfirst (by decide)
      simp only [if_pos hfirst]
      split
      · exact ⟨_, hempty, rfl⟩
      · next hne =>
        refine ⟨_, sanitized_prefix (fun c hc => ?_) ?_ (fun c hc => ?_) hne, rfl⟩
        · rcases List.mem_cons.mp hc with rfl | hc
          · rfl
          · exact halpha c hc
        · simp only [collapseUnderscores, if_neg hnot] at hcollapsed
          simp [collapseUnderscores, hnot, (List.cons.inj hcollapsed).2]
        · cases Option.mem_some.mp hc
          rfl
    · simp only [if_neg hfirst]
      split
      · exact ⟨_, hempty, rfl⟩
      · next hne =>
        refine ⟨_, sanitized_prefix halpha hcollapsed (fun c hc => ?_) hne, rfl⟩
        cases Option.mem_some.mp hc
        exact eq_false_of_ne_true hfirst

theorem sanitizeIdentifier_sanitizeIdentifier (name : String) :
    sanitizeIdentifier (sanitizeIdentifier name) = sanitizeIdentifier name := by
  obtain ⟨cs, hcs, heq⟩ := sanitized_sanitizeIdentifier name
  rw [heq, hcs.sanitizeIdentifier_eq]

/-- The name of a table in ClickHouse, after the prefix of its project. -/
def sourceTableName (sourceName tableName : String) : String :=
  sanitizeIdentifier sourceName ++ "_" ++ sanitizeIdentifier tableName

/-! ### Tables and stored files -/

/-- The ClickHouse tables that carry the prefix of a source, by the name that follows it. -/
structure ClickHouseTables (Row : Type) where
  byName : Dict String (List Row)
  sanitized : ∀ name ∈ byName, sanitizeIdentifier name = name

namespace ClickHouseTables
variable {Row : Type}

def empty : ClickHouseTables Row where
  byName := ∅
  sanitized name h := absurd h (AList.notMem_empty name)

def rows (c : ClickHouseTables Row) (name : String) : List Row := (c.byName.lookup name).getD []

def insertRows (c : ClickHouseTables Row) (tableName : String) (rows : List Row) : ClickHouseTables Row where
  byName := c.byName.insert (sanitizeIdentifier tableName) (c.rows (sanitizeIdentifier tableName) ++ rows)
  sanitized name h := by
    rcases (AList.mem_insert _).mp h with rfl | h
    · exact sanitizeIdentifier_sanitizeIdentifier tableName
    · exact c.sanitized name h

/-- `CREATE TABLE IF NOT EXISTS`. -/
def createSourceTable (c : ClickHouseTables Row) (tableName : String) : ClickHouseTables Row :=
  c.insertRows tableName []

/-- `DROP TABLE` of the tables with the prefix, as far as it succeeds. -/
def dropSourceTables (c : ClickHouseTables Row) (dropped : String → Bool) : ClickHouseTables Row where
  byName := c.byName.filter fun name _ => !dropped name
  sanitized name h := by
    refine c.sanitized name (Dict.mem_iff_lookup.mpr ?_)
    obtain ⟨rows, hrows⟩ := Dict.mem_iff_lookup.mp h
    rw [Dict.lookup_filter, Option.filter_eq_some_iff] at hrows
    exact ⟨rows, hrows.1⟩

theorem rows_insertRows (c : ClickHouseTables Row) (tableName name : String) (rows : List Row) :
    (c.insertRows tableName rows).rows name =
      c.rows name ++ if sanitizeIdentifier tableName = name then rows else [] := by
  rw [ClickHouseTables.rows, insertRows, Dict.lookup_insert']
  by_cases h : sanitizeIdentifier tableName = name
  · rw [if_pos h.symm, if_pos h, Option.getD_some, h]
  · rw [if_neg (Ne.symm h), if_neg h, List.append_nil]
    rfl

theorem rows_prefix_insertRows (c : ClickHouseTables Row) (tableName name : String) (rows : List Row) :
    c.rows name <+: (c.insertRows tableName rows).rows name := by
  rw [rows_insertRows]
  exact List.prefix_append _ _

theorem rows_subperm_dropSourceTables (c : ClickHouseTables Row) (dropped : String → Bool) (name : String) :
    (c.rows name).Subperm ((c.dropSourceTables dropped).rows name) ↔ c.rows name = [] ∨ dropped name = false := by
  have hrows : (c.dropSourceTables dropped).rows name = if dropped name = true then [] else c.rows name := by
    rw [ClickHouseTables.rows, dropSourceTables, Dict.lookup_filter, ClickHouseTables.rows]
    cases dropped name <;> cases c.byName.lookup name <;> rfl
  rw [hrows]
  cases dropped name with
  | false => exact iff_of_true (List.Subperm.refl _) (.inr rfl)
  | true =>
    rw [if_pos rfl, or_iff_left (by decide)]
    exact List.subperm_nil

@[simp] theorem rows_createSourceTable (c : ClickHouseTables Row) (tableName name : String) :
    (c.createSourceTable tableName).rows name = c.rows name := by
  rw [createSourceTable, rows_insertRows, ite_self, List.append_nil]

end ClickHouseTables

/-- A stored Parquet file: the table whose directory holds it, and its key. -/
abbrev ObjectKey := String × String

namespace Catalog

def listCommittedPartitions (c : Catalog) (sourceId : Uuid) : List (Uuid × Partition) :=
  c.partitions.pairs.filter fun e => e.2.sourceId = sourceId ∧ e.2.syncState = .committed

def getPartitionFilePaths (c : Catalog) (partitionId : Uuid) : List String :=
  (c.files.values.filter fun f => f.partitionId = partitionId ∧ f.syncState = .committed).map (·.filePath)

/-- `DELETE FROM warehouse_partitions WHERE id = ANY($1)`; the files go with them. -/
def deletePartitions (c : Catalog) (ids : List Uuid) : Catalog :=
  let partitions := c.partitions.filter fun id _ => id ∉ ids
  { c with
    partitions
    files := c.files.filter fun _ f => f.partitionId ∈ partitions
    references := fun fid file h => by
      rw [Dict.lookup_filter, Option.filter_eq_some_iff] at h
      exact of_decide_eq_true h.2 }

end Catalog

/-- Another hot source of the project, with the tables it has in ClickHouse. -/
structure OtherSource where
  name : String
  tables : List String

structure TieredSource (Row : Type) where
  sourceId : Uuid
  name : String
  tier : SourceTier
  catalog : Catalog
  objects : Dict ObjectKey (List Row)
  tables : ClickHouseTables Row
  /-- The tables of a warm source that backs this one, by their ClickHouse names. -/
  backing : Option (String → List Row)
  others : List OtherSource

namespace TieredSource
variable {Row : Type}

def partitions (s : TieredSource Row) : List (Uuid × Partition) := s.catalog.listCommittedPartitions s.sourceId

/-- The files of a committed partition, and the one under its own path. -/
def warmPaths (s : TieredSource Row) (e : Uuid × Partition) : List String :=
  s.catalog.getPartitionFilePaths e.1 ++ e.2.parquetPath.toList

/-- The files that hold a table, named as ClickHouse would name it. -/
def warmKeys (s : TieredSource Row) (name : String) : List ObjectKey :=
  ((s.partitions.filter fun e => sanitizeIdentifier e.2.tableName = name).flatMap fun e =>
    (s.warmPaths e).map fun path => (e.2.tableName, path)).dedup

theorem warmKeys_nodup (s : TieredSource Row) (name : String) : (s.warmKeys name).Nodup := List.nodup_dedup _

def stored (s : TieredSource Row) (key : ObjectKey) : List Row := (s.objects.lookup key).getD []

def warmRows (s : TieredSource Row) (name : String) : List Row := (s.warmKeys name).flatMap s.stored

def queryable (s : TieredSource Row) (name : String) : List Row :=
  match s.tier with
  | .cold => []
  | .warm => s.warmRows name
  | .hot => s.tables.rows name

/-- The storage that belongs to the tier of the source. A backing source belongs to the warm tier. -/
def storage (s : TieredSource Row) (name : String) : List Row :=
  match s.tier with
  | .cold => []
  | .warm => s.warmRows name ++ (s.backing.map (· name)).getD []
  | .hot => s.tables.rows name

/-- A table with the prefix of the source is a table of another source, whose name begins with the same prefix. -/
def ReadElsewhere (s : TieredSource Row) (name : String) : Prop :=
  ∃ other ∈ s.others, ∃ table ∈ other.tables, sourceTableName other.name table = sourceTableName s.name name

/-- Every row that was queryable is in storage that belongs to the resulting tier, as often as before; the rows that
    another source reads stay in ClickHouse. -/
structure Kept (s s' : TieredSource Row) : Prop where
  own : ∀ name, (s.queryable name).Subperm (s'.storage name)
  others : ∀ name, s.ReadElsewhere name → (s.tables.rows name).Subperm (s'.tables.rows name)

theorem queryable_subperm_storage (s : TieredSource Row) (name : String) :
    (s.queryable name).Subperm (s.storage name) := by
  unfold queryable storage
  cases s.tier with
  | cold => exact List.Subperm.refl _
  | warm => exact (List.sublist_append_left _ _).subperm
  | hot => exact List.Subperm.refl _

theorem mem_warmKeys {s : TieredSource Row} {name : String} {key : ObjectKey} : key ∈ s.warmKeys name ↔
    sanitizeIdentifier key.1 = name ∧ ∃ e ∈ s.partitions, e.2.tableName = key.1 ∧ key.2 ∈ s.warmPaths e := by
  rw [warmKeys, List.mem_dedup, List.mem_flatMap]
  constructor
  · rintro ⟨e, he, hkey⟩
    obtain ⟨he, hname⟩ := List.mem_filter.mp he
    obtain ⟨path, hpath, rfl⟩ := List.mem_map.mp hkey
    exact ⟨of_decide_eq_true hname, e, he, rfl, hpath⟩
  · rintro ⟨hname, e, he, htable, hpath⟩
    refine ⟨e, List.mem_filter.mpr ⟨he, decide_eq_true (htable ▸ hname)⟩, List.mem_map.mpr ⟨key.2, hpath, ?_⟩⟩
    rw [htable]

theorem stored_subperm_warmRows {s : TieredSource Row} {name : String} {key : ObjectKey} (h : key ∈ s.warmKeys name) :
    (s.stored key).Subperm (s.warmRows name) := by
  have hsub := (List.singleton_sublist.mpr h).flatMap s.stored
  rw [List.flatMap_singleton] at hsub
  exact hsub.subperm

end TieredSource

end Reiver.Pond

/-! # Moves between the warm and the hot tier

`upgrade_warm_to_hot` and `execute_downgrade_to_warm` of `sync_job_consumer.rs`, with everything that may fail on
the way. A failure of one file or table is skipped; the clean-up afterwards is for the whole source. -/

namespace Reiver.Pond

variable {Row : Type}

/-! ### Warm to hot

`write` is what a table has of a row that is inserted into it. -/

inductive ParseOutcome where
  | reads
  | noReader
  | unreadable
deriving DecidableEq

inductive ImportOutcome where
  | imported
  | failedAfter (rows : Nat)
deriving DecidableEq

structure UpgradeOutcomes where
  listed : Bool
  downloads : ObjectKey → Bool
  parses : ObjectKey → ParseOutcome
  creates : String → Bool
  imports : ObjectKey → ImportOutcome
  tierUpdated : Bool
  filesListed : Uuid → Bool
  deletes : ObjectKey → Bool
  recordsDeleted : Uuid → Bool

structure UpgradeRun (Row : Type) where
  tables : ClickHouseTables Row
  downloadedData : Dict ObjectKey (List Row)
  createdTables : List String
  r2KeysToDelete : List ObjectKey

/-- The key under the own path of a partition. -/
def Partition.key (p : Partition) : Option ObjectKey := p.parquetPath.map (p.tableName, ·)

/-- Imports the file of one partition. The job fails where this does, with what was done so far. -/
def importPartition (write : String → Row → Row) (o : UpgradeOutcomes) (run : UpgradeRun Row) (p : Partition) :
    Except (UpgradeRun Row) (UpgradeRun Row) :=
  match p.key with
  | none => .ok run
  | some key =>
    match run.downloadedData.lookup key with
    | none => .ok run
    | some rows =>
      let run := { run with downloadedData := run.downloadedData.erase key }
      match o.parses key with
      | .noReader => .ok run
      | .unreadable => .error run
      | .reads =>
        if rows = [] then .ok run
        else if p.tableName ∉ run.createdTables ∧ o.creates p.tableName = false then .error run
        else
          let createdTables := if p.tableName ∈ run.createdTables then run.createdTables
            else run.createdTables ++ [p.tableName]
          let tables := run.tables.createSourceTable p.tableName
          let rows := rows.map (write (sanitizeIdentifier p.tableName))
          match o.imports key with
          | .failedAfter n => .error { run with createdTables, tables := tables.insertRows p.tableName (rows.take n) }
          | .imported =>
            .ok { run with
              createdTables
              tables := tables.insertRows p.tableName rows
              r2KeysToDelete := run.r2KeysToDelete ++ [key] }

def download (o : UpgradeOutcomes) (objects data : Dict ObjectKey (List Row)) (key : ObjectKey) :
    Dict ObjectKey (List Row) :=
  match objects.lookup key with
  | none => data
  | some rows => if o.downloads key then data.insert key rows else data

def downloaded (o : UpgradeOutcomes) (objects : Dict ObjectKey (List Row)) (partitions : List Partition) :
    Dict ObjectKey (List Row) :=
  (partitions.filterMap Partition.key).foldl (download o objects) ∅

/-- The keys that are deleted at the end: what was imported, and every file of the partitions. -/
def TieredSource.keysToDelete (s : TieredSource Row) (o : UpgradeOutcomes) (imported : List ObjectKey) :
    List ObjectKey :=
  imported ++ s.partitions.flatMap fun e =>
    if o.filesListed e.1 then (s.catalog.getPartitionFilePaths e.1).map (e.2.tableName, ·) else []

def upgradeWarmToHot (write : String → Row → Row) (o : UpgradeOutcomes) (s : TieredSource Row) : TieredSource Row :=
  if o.listed then
    let partitions := s.partitions.map Prod.snd
    let start : UpgradeRun Row :=
      { tables := s.tables, downloadedData := downloaded o s.objects partitions, createdTables := [],
        r2KeysToDelete := [] }
    match partitions.foldlM (importPartition write o) start with
    | .error run => { s with tables := run.tables }
    | .ok run =>
      if run.createdTables = [] ∧ partitions ≠ [] then { s with tables := run.tables }
      else if o.tierUpdated then
        { s with
          tables := run.tables
          tier := .hot
          objects :=
            s.objects.filter fun key _ => !(decide (key ∈ s.keysToDelete o run.r2KeysToDelete) && o.deletes key)
          catalog := s.catalog.deletePartitions ((s.partitions.map Prod.fst).filter o.recordsDeleted) }
      else { s with tables := run.tables }
  else s

/-! ### Hot to warm -/

inductive ExportOutcome where
  | written
  | failed
  /-- ClickHouse stored the file, and its answer was lost. -/
  | unanswered
deriving DecidableEq

structure TierJob where
  jobId : Uuid
  projectId : String
  partitionDate : NaiveDate
  formatDate : NaiveDate → String

/-- What succeeds in a downgrade, and what new rows and files are given. -/
structure DowngradeOutcomes where
  backingChecked : Bool
  listed : Bool
  newIds : String → Uuid
  partitionCreated : String → Bool
  exports : String → ExportOutcome
  sizes : String → Int
  recorded : String → Bool
  tableRecorded : String → Bool
  committed : Bool
  tierUpdated : Bool
  dropped : String → Bool

structure ExportRun (Row : Type) where
  catalog : Catalog
  objects : Dict ObjectKey (List Row)
  tablesExported : Nat

def TierJob.r2Key (job : TierJob) (sourceName tableName : String) (id : Uuid) : String :=
  "projects/" ++ job.projectId ++ "/warm/" ++ sourceName ++ "/" ++ tableName ++ "/" ++
    job.formatDate job.partitionDate ++ "/" ++ toString id ++ ".parquet"

/-- The row that `get_or_create_partition` returns. -/
def Catalog.findPartition (c : Catalog) (sourceId : Uuid) (tableName : String) (partitionDate : NaiveDate) :
    Option Uuid :=
  (c.partitions.pairs.find? fun e =>
    e.2.sourceId = sourceId ∧ e.2.tableName = tableName ∧ e.2.partitionDate = partitionDate).map Prod.fst

/-- `INSERT INTO FUNCTION s3(…)`: a stored file is not overwritten. -/
def exportTableToS3 (o : DowngradeOutcomes) (objects : Dict ObjectKey (List Row)) (tableName r2Key : String)
    (rows : List Row) : Dict ObjectKey (List Row) × Bool :=
  if (tableName, r2Key) ∈ objects then (objects, false)
  else
    match o.exports tableName with
    | .failed => (objects, false)
    | .unanswered => (objects.insert (tableName, r2Key) rows, false)
    | .written => (objects.insert (tableName, r2Key) rows, true)

def exportTable (job : TierJob) (o : DowngradeOutcomes) (s : TieredSource Row) (run : ExportRun Row)
    (tableName : String) : Except (ExportRun Row) (ExportRun Row) :=
  if o.partitionCreated tableName then
    match run.catalog.getOrCreatePartition (o.newIds tableName) s.sourceId tableName job.partitionDate with
    | none => .error run
    | some catalog =>
      match catalog.findPartition s.sourceId tableName job.partitionDate with
      | none => .error { run with catalog }
      | some id =>
        if s.tables.rows tableName = [] then .ok { run with catalog }
        else
          let r2Key := job.r2Key s.name tableName id
          match exportTableToS3 o run.objects tableName r2Key (s.tables.rows tableName) with
          | (objects, false) => .ok { run with catalog, objects }
          | (objects, true) =>
            if o.recorded tableName then
              match catalog.updatePartitionData id r2Key (s.tables.rows tableName).length (o.sizes tableName)
                  (some job.jobId) with
              | none => .error { run with catalog, objects }
              | some catalog =>
                if o.tableRecorded tableName then .ok { catalog, objects, tablesExported := run.tablesExported + 1 }
                else .error { run with catalog, objects }
            else .error { run with catalog, objects }
  else .error run

def executeDowngradeToWarm (job : TierJob) (o : DowngradeOutcomes) (s : TieredSource Row) : TieredSource Row :=
  if s.tier ≠ .hot then s
  else if o.backingChecked ∧ s.backing.isSome then
    if o.tierUpdated then { s with tier := .warm, tables := s.tables.dropSourceTables o.dropped } else s
  else if o.listed then
    if s.tables.byName.keys = [] then
      if o.tierUpdated then { s with tier := .warm } else s
    else
      match s.tables.byName.keys.foldlM (exportTable job o s)
          { catalog := s.catalog, objects := s.objects, tablesExported := 0 } with
      | .error run => { s with catalog := run.catalog, objects := run.objects }
      | .ok run =>
        if run.tablesExported = 0 ∨ o.committed = false then { s with catalog := run.catalog, objects := run.objects }
        else
          let catalog := run.catalog.commitSync job.jobId s.sourceId
          if o.tierUpdated then
            { s with
              catalog, objects := run.objects, tier := .warm
              tables := s.tables.dropSourceTables o.dropped }
          else { s with catalog, objects := run.objects }
  else s

end Reiver.Pond
