import Reiver.Lib.Fallible
import Reiver.Pond.Sync.Tiers

/-! # What an upgrade to hot keeps

An upgrade imports the file under the own path of each partition and deletes all their files. A partition that a
sync wrote has its files under a prefix, and none there: they are left behind. What is imported is kept as it is
written (`upgrade_kept_iff`). -/

namespace Reiver.Pond

variable {Row : Type}

/-! ### Importing -/

section Import
variable {write : String → Row → Row} {o : UpgradeOutcomes} {run run' : UpgradeRun Row} {p : Partition}
  {ps : List Partition}

/-- A downloaded file is imported if it is parsed and has rows. -/
def Importable (o : UpgradeOutcomes) (key : ObjectKey) (rows : List Row) : Prop := o.parses key = .reads ∧ rows ≠ []

/-- The table of a file exists or is created. -/
def TableReady (o : UpgradeOutcomes) (run : UpgradeRun Row) (key : ObjectKey) : Prop :=
  key.1 ∈ run.createdTables ∨ o.creates key.1 = true

/-- Nothing stops the import of the files that were downloaded. -/
def Unhindered (o : UpgradeOutcomes) (run : UpgradeRun Row) (keys : List ObjectKey) : Prop :=
  ∀ key ∈ keys, ∀ rows, run.downloadedData.lookup key = some rows →
    o.parses key ≠ .unreadable ∧ (Importable o key rows → o.imports key = .imported ∧ TableReady o run key)

theorem Partition.key_fst {key : ObjectKey} (h : p.key = some key) : key.1 = p.tableName := by
  obtain ⟨path, -, rfl⟩ := Option.map_eq_some_iff.mp h
  rfl

def UpgradeRun.import (write : String → Row → Row) (run : UpgradeRun Row) (key : ObjectKey) (rows : List Row) :
    UpgradeRun Row where
  tables := (run.tables.createSourceTable key.1).insertRows key.1 (rows.map (write (sanitizeIdentifier key.1)))
  downloadedData := run.downloadedData.erase key
  createdTables := if key.1 ∈ run.createdTables then run.createdTables else run.createdTables ++ [key.1]
  r2KeysToDelete := run.r2KeysToDelete ++ [key]

/-- A partition without a downloaded file, one whose file is passed over, or one whose file is imported. -/
theorem importPartition_cases (h : importPartition write o run p = .ok run') :
    ((∀ key ∈ p.key, run.downloadedData.lookup key = none) ∧ run' = run) ∨
      ∃ key rows, p.key = some key ∧ run.downloadedData.lookup key = some rows ∧
        ((¬Importable o key rows ∧ o.parses key ≠ .unreadable ∧
            run' = { run with downloadedData := run.downloadedData.erase key }) ∨
          (Importable o key rows ∧ o.imports key = .imported ∧ TableReady o run key ∧
            run' = run.import write key rows)) := by
  unfold importPartition at h
  cases hkey : p.key with
  | none =>
    rw [hkey] at h
    cases h
    exact .inl ⟨fun key hk => absurd hk (Option.not_mem_none key), rfl⟩
  | some key =>
    rw [hkey] at h
    dsimp only at h
    have htable := Partition.key_fst hkey
    cases hdata : run.downloadedData.lookup key with
    | none =>
      rw [hdata] at h
      cases h
      exact .inl ⟨fun k hk => Option.some.inj hk ▸ hdata, rfl⟩
    | some rows =>
      rw [hdata] at h
      dsimp only at h
      refine .inr ⟨key, rows, rfl, hdata, ?_⟩
      cases hparse : o.parses key with
      | unreadable =>
        rw [hparse] at h
        cases h
      | noReader =>
        rw [hparse] at h
        cases h
        exact .inl ⟨fun himp => absurd (hparse.symm.trans himp.1) (by decide), by decide, rfl⟩
      | reads =>
        rw [hparse] at h
        dsimp only at h
        split at h
        · next hrows =>
          cases h
          exact .inl ⟨fun himp => himp.2 hrows, by decide, rfl⟩
        · next hrows =>
          split at h
          · cases h
          · next hready =>
            cases himport : o.imports key with
            | failedAfter n =>
              rw [himport] at h
              cases h
            | imported =>
              rw [himport] at h
              cases h
              refine .inr ⟨⟨hparse, hrows⟩, rfl, ?_, ?_⟩
              · rw [TableReady, htable]
                by_cases hmem : p.tableName ∈ run.createdTables
                · exact .inl hmem
                · exact .inr (by simpa [hmem] using hready)
              · rw [UpgradeRun.import, htable]

theorem importPartition_ok (h : Unhindered o run p.key.toList) : ∃ run', importPartition write o run p = .ok run' := by
  unfold importPartition
  cases hkey : p.key with
  | none => exact ⟨_, rfl⟩
  | some key =>
    dsimp only
    have htable := Partition.key_fst hkey
    cases hdata : run.downloadedData.lookup key with
    | none => exact ⟨_, rfl⟩
    | some rows =>
      obtain ⟨hparses, himport⟩ := h key (by rw [hkey]; exact List.mem_singleton_self key) rows hdata
      dsimp only
      cases hparse : o.parses key with
      | unreadable => exact absurd hparse hparses
      | noReader => exact ⟨_, rfl⟩
      | reads =>
        dsimp only
        split
        · exact ⟨_, rfl⟩
        · next hrows =>
          obtain ⟨himported, hready⟩ := himport ⟨hparse, hrows⟩
          rw [TableReady, htable] at hready
          rw [if_neg (by rcases hready with hmem | hcreates <;> simp [*]), himported]
          exact ⟨_, rfl⟩

structure Imported (write : String → Row → Row) (o : UpgradeOutcomes) (run run' : UpgradeRun Row)
    (requested keys : List ObjectKey) : Prop where
  deletes : run'.r2KeysToDelete = run.r2KeysToDelete ++ keys
  nodup : keys.Nodup
  mem : ∀ key, key ∈ keys ↔ key ∈ requested ∧ ∃ rows, run.downloadedData.lookup key = some rows ∧ Importable o key rows
  rows : ∀ name, run'.tables.rows name =
    run.tables.rows name ++ ((keys.filter fun key => sanitizeIdentifier key.1 = name).flatMap fun key =>
      (run.downloadedData.lookup key).getD []).map (write name)
  created : run'.createdTables = [] ↔ run.createdTables = [] ∧ keys = []

theorem imported_nil (write : String → Row → Row) (o : UpgradeOutcomes) (run : UpgradeRun Row) :
    Imported write o run run [] [] where
  deletes := (List.append_nil _).symm
  nodup := List.nodup_nil
  mem _ := ⟨fun h => absurd h List.not_mem_nil, fun h => absurd h.1 List.not_mem_nil⟩
  rows _ := (List.append_nil _).symm
  created := ⟨fun h => ⟨h, rfl⟩, fun h => h.1⟩

theorem lookup_erase_getD {data : Dict ObjectKey (List Row)} {key : ObjectKey} {keys : List ObjectKey}
    (h : key ∉ keys) : (keys.flatMap fun k => ((data.erase key).lookup k).getD []) =
      keys.flatMap fun k => (data.lookup k).getD [] := by
  refine List.flatMap_congr fun k hk => ?_
  rw [Dict.lookup_erase', if_neg fun heq : k = key => h (heq ▸ hk)]

theorem Imported.skip {key : ObjectKey} {rows : List Row} {requested keys : List ObjectKey}
    (hdata : run.downloadedData.lookup key = some rows) (hnot : ¬Importable o key rows)
    (h : Imported write o { run with downloadedData := run.downloadedData.erase key } run' requested keys) :
    Imported write o run run' (key :: requested) keys := by
  have hkey : key ∉ keys := by
    intro hmem
    obtain ⟨-, rows', hrows', -⟩ := (h.mem key).mp hmem
    rw [Dict.lookup_erase', if_pos rfl] at hrows'
    cases hrows'
  refine ⟨h.deletes, h.nodup, fun k => ?_, fun name => ?_, h.created⟩
  · refine (h.mem k).trans ?_
    by_cases hk : k = key
    · subst hk
      rw [Dict.lookup_erase', if_pos rfl, hdata]
      constructor
      · rintro ⟨-, rows', hrows', -⟩
        cases hrows'
      · rintro ⟨-, rows', hrows', himp⟩
        exact absurd (Option.some.inj hrows' ▸ himp) hnot
    · rw [Dict.lookup_erase', if_neg hk, List.mem_cons, or_iff_right hk]
  · rw [h.rows name, lookup_erase_getD fun hmem => hkey (List.mem_filter.mp hmem).1]

/-- A file that is imported comes before what the rest of the import adds. -/
theorem Imported.import {key : ObjectKey} {rows : List Row} {requested keys : List ObjectKey}
    (hdata : run.downloadedData.lookup key = some rows) (himp : Importable o key rows)
    (h : Imported write o (run.import write key rows) run' requested keys) :
    Imported write o run run' (key :: requested) (key :: keys) := by
  have hkey : key ∉ keys := by
    intro hmem
    obtain ⟨-, rows', hrows', -⟩ := (h.mem key).mp hmem
    rw [UpgradeRun.import, Dict.lookup_erase', if_pos rfl] at hrows'
    cases hrows'
  refine ⟨?_, List.nodup_cons.mpr ⟨hkey, h.nodup⟩, fun k => ?_, fun name => ?_, ?_⟩
  · rw [h.deletes, UpgradeRun.import, List.append_assoc, List.singleton_append]
  · rw [List.mem_cons, h.mem k]
    by_cases hk : k = key
    · subst hk
      exact ⟨fun _ => ⟨List.mem_cons_self, rows, hdata, himp⟩, fun _ => .inl rfl⟩
    · rw [UpgradeRun.import, Dict.lookup_erase', if_neg hk, List.mem_cons, or_iff_right hk, or_iff_right hk]
  · have htables : (run.import write key rows).tables.rows name =
        run.tables.rows name ++ if sanitizeIdentifier key.1 = name then rows.map (write name) else [] := by
      rw [UpgradeRun.import, ClickHouseTables.rows_insertRows, ClickHouseTables.rows_createSourceTable]
      split
      · next hname => rw [hname]
      · rfl
    rw [h.rows name, htables, UpgradeRun.import, lookup_erase_getD fun hmem => hkey (List.mem_filter.mp hmem).1,
      List.filter_cons]
    by_cases hname : sanitizeIdentifier key.1 = name
    · rw [if_pos hname, if_pos (decide_eq_true hname), List.flatMap_cons, hdata, Option.getD_some,
        List.map_append, List.append_assoc]
    · rw [if_neg hname, if_neg (fun hd => hname (of_decide_eq_true hd)), List.append_nil]
  · refine h.created.trans ⟨fun hnil => absurd hnil.1 ?_, fun hnil => absurd hnil.2 (List.cons_ne_nil _ _)⟩
    rw [UpgradeRun.import]
    dsimp only
    split
    · next hmem => exact List.ne_nil_of_mem hmem
    · exact List.append_ne_nil_of_right_ne_nil _ (List.cons_ne_nil _ _)

theorem importPartitions_imported (h : ps.foldlM (importPartition write o) run = .ok run') :
    ∃ keys, Imported write o run run' (ps.filterMap Partition.key) keys := by
  induction ps generalizing run with
  | nil =>
    cases h
    exact ⟨[], imported_nil write o _⟩
  | cons p ps ih =>
    rw [List.foldlM_cons] at h
    obtain ⟨mid, hmid, h⟩ := bind_ok h
    obtain ⟨keys, hkeys⟩ := ih h
    rcases importPartition_cases hmid with ⟨hnone, rfl⟩ | ⟨key, rows, hkey, hdata, hcase⟩
    · cases hkey : p.key with
      | none =>
        rw [List.filterMap_cons_none hkey]
        exact ⟨keys, hkeys⟩
      | some key =>
        rw [List.filterMap_cons_some hkey]
        refine ⟨keys, hkeys.deletes, hkeys.nodup, fun k => (hkeys.mem k).trans ?_, hkeys.rows, hkeys.created⟩
        by_cases hk : k = key
        · subst hk
          simp [hnone k hkey]
        · rw [List.mem_cons, or_iff_right hk]
    · rw [List.filterMap_cons_some hkey]
      rcases hcase with ⟨hnot, -, rfl⟩ | ⟨himp, -, -, rfl⟩
      · exact ⟨keys, hkeys.skip hdata hnot⟩
      · exact ⟨key :: keys, hkeys.import hdata himp⟩

theorem tableReady_import {key k : ObjectKey} {rows : List Row} (h : TableReady o run key) :
    TableReady o (run.import write key rows) k ↔ TableReady o run k := by
  have hmem : k.1 ∈ (run.import write key rows).createdTables ↔ k.1 ∈ run.createdTables ∨ k.1 = key.1 := by
    rw [UpgradeRun.import]
    dsimp only
    split
    · next hin => exact ⟨.inl, fun hor => hor.elim id fun heq => heq ▸ hin⟩
    · rw [List.mem_append, List.mem_singleton]
  unfold TableReady at h ⊢
  rw [hmem]
  constructor
  · rintro ((hk | heq) | hcreates)
    · exact .inl hk
    · exact heq ▸ h
    · exact .inr hcreates
  · exact fun hk => hk.imp_left .inl

theorem unhindered_erase {key : ObjectKey} {rows : List Row} {mid : UpgradeRun Row} {keys : List ObjectKey}
    (hdata : run.downloadedData.lookup key = some rows)
    (hmid : mid.downloadedData = run.downloadedData.erase key)
    (hready : ∀ k, TableReady o mid k ↔ TableReady o run k) (hparses : o.parses key ≠ .unreadable)
    (himport : Importable o key rows → o.imports key = .imported ∧ TableReady o run key) :
    Unhindered o run (key :: keys) ↔ Unhindered o mid keys := by
  have hlookup : ∀ k, mid.downloadedData.lookup k = if k = key then none else run.downloadedData.lookup k :=
    fun k => by rw [hmid, Dict.lookup_erase']
  constructor
  · intro h k hk rows' hrows'
    rw [hlookup] at hrows'
    split at hrows'
    · cases hrows'
    · rw [hready]
      exact h k (List.mem_cons_of_mem _ hk) rows' hrows'
  · intro h k hk rows' hrows'
    by_cases heq : k = key
    · subst heq
      cases hdata.symm.trans hrows'
      exact ⟨hparses, himport⟩
    · rw [← hready]
      exact h k ((List.mem_cons.mp hk).resolve_left heq) rows' (by rw [hlookup, if_neg heq, hrows'])

theorem importPartitions_ok_iff :
    (∃ run', ps.foldlM (importPartition write o) run = .ok run') ↔ Unhindered o run (ps.filterMap Partition.key) := by
  induction ps generalizing run with
  | nil => exact ⟨fun _ key hkey => absurd hkey List.not_mem_nil, fun _ => ⟨run, rfl⟩⟩
  | cons p ps ih =>
    have hstep : ∀ mid, importPartition write o run p = .ok mid →
        (Unhindered o run ((p :: ps).filterMap Partition.key) ↔ Unhindered o mid (ps.filterMap Partition.key)) := by
      intro mid hmid
      rcases importPartition_cases hmid with ⟨hnone, rfl⟩ | ⟨key, rows, hkey, hdata, hcase⟩
      · cases hkey : p.key with
        | none => rw [List.filterMap_cons_none hkey]
        | some key =>
          rw [List.filterMap_cons_some hkey]
          refine ⟨fun h k hk => h k (List.mem_cons_of_mem _ hk), fun h k hk rows hrows => ?_⟩
          rcases List.mem_cons.mp hk with rfl | hk
          · cases (hnone k hkey).symm.trans hrows
          · exact h k hk rows hrows
      · rw [List.filterMap_cons_some hkey]
        rcases hcase with ⟨hnot, hparses, rfl⟩ | ⟨himp, himported, hready, rfl⟩
        · exact unhindered_erase hdata rfl (fun _ => Iff.rfl) hparses fun himp => absurd himp hnot
        · exact unhindered_erase hdata rfl (fun _ => tableReady_import hready) (by rw [himp.1]; decide)
            fun _ => ⟨himported, hready⟩
    rw [List.foldlM_cons]
    constructor
    · rintro ⟨run', h⟩
      obtain ⟨mid, hmid, h⟩ := bind_ok h
      exact (hstep mid hmid).mpr (ih.mp ⟨run', h⟩)
    · intro h
      obtain ⟨mid, hmid⟩ : ∃ mid, importPartition write o run p = .ok mid :=
        importPartition_ok fun key hkey => h key (by
        rw [List.mem_filterMap]
        exact ⟨p, List.mem_cons_self, Option.mem_toList.mp hkey⟩)
      obtain ⟨run', hrun'⟩ := ih.mpr ((hstep mid hmid).mp h)
      exact ⟨run', by rw [hmid]; exact hrun'⟩

/-- The run as a step leaves it, whether the job goes on or fails there. -/
def UpgradeRun.reached : Except (UpgradeRun Row) (UpgradeRun Row) → UpgradeRun Row
  | .ok run | .error run => run

theorem rows_prefix_importPartition (run : UpgradeRun Row) (p : Partition) (name : String) :
    run.tables.rows name <+: (UpgradeRun.reached (importPartition write o run p)).tables.rows name := by
  have hinsert : ∀ rows : List Row, run.tables.rows name <+:
      ((run.tables.createSourceTable p.tableName).insertRows p.tableName rows).rows name := by
    intro rows
    have hcreated := ClickHouseTables.rows_createSourceTable run.tables p.tableName name
    exact hcreated ▸ ClickHouseTables.rows_prefix_insertRows (run.tables.createSourceTable p.tableName) _ name rows
  have hself : run.tables.rows name <+: run.tables.rows name := List.prefix_refl _
  unfold importPartition
  split
  · exact hself
  · split
    · exact hself
    · dsimp only
      split
      · exact hself
      · exact hself
      · split
        · exact hself
        · split
          · exact hself
          · split
            · exact hinsert _
            · exact hinsert _

theorem rows_prefix_importPartitions (run : UpgradeRun Row) (ps : List Partition) (name : String) :
    run.tables.rows name <+: (UpgradeRun.reached (ps.foldlM (importPartition write o) run)).tables.rows name := by
  induction ps generalizing run with
  | nil => exact List.prefix_refl _
  | cons p ps ih =>
    have hp := @rows_prefix_importPartition _ write o run p name
    rw [List.foldlM_cons]
    cases hstep : importPartition write o run p with
    | error mid =>
      rw [hstep] at hp
      exact hp
    | ok mid =>
      rw [hstep] at hp
      exact hp.trans (ih mid)

end Import

/-! ### Upgrades -/

section Upgrade
variable {write : String → Row → Row} {s : TieredSource Row} {o : UpgradeOutcomes}

theorem lookup_download (objects data : Dict ObjectKey (List Row)) (k key : ObjectKey) :
    (download o objects data k).lookup key =
      if key = k ∧ o.downloads key = true ∧ (objects.lookup key).isSome then objects.lookup key
        else data.lookup key := by
  unfold download
  by_cases hk : key = k
  · subst hk
    cases hobj : objects.lookup key with
    | none => simp
    | some rows => by_cases hd : o.downloads key <;> simp [hd]
  · rw [if_neg fun h => hk h.1]
    split
    · rfl
    · split
      · rw [Dict.lookup_insert', if_neg hk]
      · rfl

theorem lookup_downloaded (o : UpgradeOutcomes) (objects : Dict ObjectKey (List Row)) (ps : List Partition)
    (key : ObjectKey) : (downloaded o objects ps).lookup key =
      if key ∈ ps.filterMap Partition.key ∧ o.downloads key = true then objects.lookup key else none := by
  have hfold : ∀ (keys : List ObjectKey) (data : Dict ObjectKey (List Row)),
      (keys.foldl (download o objects) data).lookup key =
        if key ∈ keys ∧ o.downloads key = true ∧ (objects.lookup key).isSome then objects.lookup key
        else data.lookup key := by
    intro keys
    induction keys with
    | nil => exact fun data => (if_neg fun h => List.not_mem_nil h.1).symm
    | cons k keys ih =>
      intro data
      rw [List.foldl_cons, ih, lookup_download]
      rcases eq_or_ne key k with rfl | hk
      · by_cases hd : o.downloads key = true ∧ (objects.lookup key).isSome = true
        · simp only [List.mem_cons, true_or, true_and, if_pos hd, ite_self]
        · simp only [if_neg fun h => hd (And.right h)]
      · simp [hk]
  rw [downloaded, hfold]
  cases objects.lookup key with
  | none => simp
  | some rows => simp

/-- The upgrade imports the file: it lies under the own path of a committed partition, it is downloaded and parsed,
    and it has rows. -/
def TieredSource.Imports (s : TieredSource Row) (o : UpgradeOutcomes) (key : ObjectKey) : Prop :=
  (∃ e ∈ s.partitions, e.2.key = some key) ∧ o.downloads key = true ∧ Importable o key (s.stored key)

instance : DecidablePred (s.Imports o) := fun key =>
  inferInstanceAs (Decidable ((∃ e ∈ s.partitions, e.2.key = some key) ∧ o.downloads key = true ∧
    o.parses key = .reads ∧ s.stored key ≠ []))

/-- No step of the upgrade fails that ends it. -/
structure UpgradeCompletes (s : TieredSource Row) (o : UpgradeOutcomes) : Prop where
  listed : o.listed = true
  readable : ∀ e ∈ s.partitions, ∀ key ∈ e.2.key, key ∈ s.objects → o.downloads key = true →
    o.parses key ≠ .unreadable
  imports : ∀ key, s.Imports o key → o.imports key = .imported ∧ o.creates key.1 = true
  any : s.partitions = [] ∨ ∃ key, s.Imports o key
  tierUpdated : o.tierUpdated = true

/-- The rows of the files that the upgrade does not import. -/
def TieredSource.leftBehind (s : TieredSource Row) (o : UpgradeOutcomes) (name : String) : List Row :=
  ((s.warmKeys name).filter fun key => ¬s.Imports o key).flatMap s.stored

/-- The rows of a table that the upgrade imports, and those of them that are written as another row. -/
def TieredSource.importedRows (s : TieredSource Row) (o : UpgradeOutcomes) (name : String) : List Row :=
  ((s.warmKeys name).filter fun key => s.Imports o key).flatMap s.stored

def TieredSource.alteredRows [DecidableEq Row] (s : TieredSource Row) (write : String → Row → Row)
    (o : UpgradeOutcomes) (name : String) : List Row :=
  (s.importedRows o name).filter fun row => write name row ≠ row

def TieredSource.upgradeStart (s : TieredSource Row) (o : UpgradeOutcomes) : UpgradeRun Row where
  tables := s.tables
  downloadedData := downloaded o s.objects (s.partitions.map Prod.snd)
  createdTables := []
  r2KeysToDelete := []

theorem mem_requested {key : ObjectKey} :
    key ∈ (s.partitions.map Prod.snd).filterMap Partition.key ↔ ∃ e ∈ s.partitions, e.2.key = some key := by
  simp only [List.mem_filterMap, List.mem_map, exists_exists_and_eq_and]

theorem downloaded_iff {key : ObjectKey} {rows : List Row} :
    (s.upgradeStart o).downloadedData.lookup key = some rows ↔
      (∃ e ∈ s.partitions, e.2.key = some key) ∧ o.downloads key = true ∧ s.objects.lookup key = some rows := by
  rw [TieredSource.upgradeStart, lookup_downloaded]
  simp only [mem_requested]
  split
  · next h => exact ⟨fun hrows => ⟨h.1, h.2, hrows⟩, fun hrows => hrows.2.2⟩
  · next h => exact ⟨fun hrows => absurd hrows (by simp), fun hrows => absurd ⟨hrows.1, hrows.2.1⟩ h⟩

theorem imports_iff {key : ObjectKey} :
    s.Imports o key ↔ ∃ rows, (s.upgradeStart o).downloadedData.lookup key = some rows ∧ Importable o key rows := by
  simp only [downloaded_iff, TieredSource.Imports, TieredSource.stored]
  cases s.objects.lookup key with
  | none => simp [Importable]
  | some rows => simp [and_assoc]

theorem unhindered_iff : Unhindered o (s.upgradeStart o) ((s.partitions.map Prod.snd).filterMap Partition.key) ↔
    (∀ e ∈ s.partitions, ∀ key ∈ e.2.key, key ∈ s.objects → o.downloads key = true → o.parses key ≠ .unreadable) ∧
      ∀ key, s.Imports o key → o.imports key = .imported ∧ o.creates key.1 = true := by
  constructor
  · intro h
    refine ⟨fun e he key hkey hobj hdown => ?_, fun key himp => ?_⟩
    · obtain ⟨rows, hrows⟩ := Dict.mem_iff_lookup.mp hobj
      exact (h key (mem_requested.mpr ⟨e, he, hkey⟩) rows (downloaded_iff.mpr ⟨⟨e, he, hkey⟩, hdown, hrows⟩)).1
    · obtain ⟨rows, hrows, himportable⟩ := imports_iff.mp himp
      obtain ⟨himported, hready⟩ := (h key (mem_requested.mpr himp.1) rows hrows).2 himportable
      exact ⟨himported, hready.resolve_left List.not_mem_nil⟩
  · rintro ⟨hreadable, himports⟩ key - rows hrows
    obtain ⟨⟨e, he, hkey⟩, hdown, hobj⟩ := downloaded_iff.mp hrows
    refine ⟨hreadable e he key hkey (Dict.mem_iff_lookup.mpr ⟨rows, hobj⟩) hdown, fun himportable => ?_⟩
    obtain ⟨himported, hcreates⟩ := himports key (imports_iff.mpr ⟨rows, hrows, himportable⟩)
    exact ⟨himported, .inr hcreates⟩

theorem mem_warmKeys_of_imports {name : String} {key : ObjectKey} (h : s.Imports o key) :
    key ∈ s.warmKeys name ↔ sanitizeIdentifier key.1 = name := by
  refine TieredSource.mem_warmKeys.trans ⟨And.left, fun hname => ⟨hname, ?_⟩⟩
  obtain ⟨e, he, hkey⟩ := h.1
  obtain ⟨path, hpath, rfl⟩ := Option.map_eq_some_iff.mp hkey
  exact ⟨e, he, rfl, List.mem_append_right _ (Option.mem_toList.mpr hpath)⟩

theorem warmRows_perm (s : TieredSource Row) (o : UpgradeOutcomes) (name : String) :
    (s.warmRows name).Perm (s.importedRows o name ++ s.leftBehind o name) := by
  have hsplit := List.filter_append_perm (fun key => decide (s.Imports o key)) (s.warmKeys name)
  have hleft : s.leftBehind o name =
      ((s.warmKeys name).filter fun key => !decide (s.Imports o key)).flatMap s.stored := by
    simp only [TieredSource.leftBehind, decide_not]
  rw [TieredSource.warmRows, TieredSource.importedRows, hleft, ← List.flatMap_append]
  exact hsplit.symm.flatMap_right _

theorem importedRows_perm {keys : List ObjectKey} (hnd : keys.Nodup) (hmem : ∀ key, key ∈ keys ↔ s.Imports o key)
    (name : String) :
    (s.importedRows o name).Perm ((keys.filter fun key => sanitizeIdentifier key.1 = name).flatMap s.stored) := by
  have himported : ((s.warmKeys name).filter fun key => s.Imports o key).Perm
      (keys.filter fun key => sanitizeIdentifier key.1 = name) := by
    refine (List.perm_ext_iff_of_nodup ((s.warmKeys_nodup name).filter _) (hnd.filter _)).mpr fun key => ?_
    simp only [List.mem_filter, decide_eq_true_eq, hmem]
    constructor
    · exact fun h => ⟨h.2, (mem_warmKeys_of_imports h.2).mp h.1⟩
    · exact fun h => ⟨(mem_warmKeys_of_imports h.1).mpr h.2, h.1⟩
  exact himported.flatMap_right _

theorem upgradeWarmToHot_completes (h : UpgradeCompletes s o) :
    ∃ keys : List ObjectKey, (∀ key, key ∈ keys ↔ s.Imports o key) ∧ (upgradeWarmToHot write o s).tier = .hot ∧
      (∀ name, ((upgradeWarmToHot write o s).tables.rows name).Perm
        (s.tables.rows name ++ (s.importedRows o name).map (write name))) ∧
      (upgradeWarmToHot write o s).objects =
        s.objects.filter fun key _ => !(decide (key ∈ s.keysToDelete o keys) && o.deletes key) := by
  obtain ⟨run, hrun⟩ := (@importPartitions_ok_iff _ write _ _ _).mpr (unhindered_iff.mpr ⟨h.readable, h.imports⟩)
  obtain ⟨keys, hkeys⟩ := importPartitions_imported hrun
  have hmem : ∀ key, key ∈ keys ↔ s.Imports o key := by
    intro key
    rw [hkeys.mem key, imports_iff]
    refine and_iff_right_of_imp ?_
    rintro ⟨rows, hrows, -⟩
    exact mem_requested.mpr (downloaded_iff.mp hrows).1
  have hcreated : ¬(run.createdTables = [] ∧ s.partitions.map Prod.snd ≠ []) := by
    rintro ⟨hnil, hne⟩
    rcases h.any with hempty | ⟨key, himp⟩
    · exact hne (by rw [hempty]; rfl)
    · have hkey := (hmem key).mpr himp
      rw [(hkeys.created.mp hnil).2] at hkey
      exact List.not_mem_nil hkey
  have heq : upgradeWarmToHot write o s = { s with
      tables := run.tables
      tier := .hot
      objects := s.objects.filter fun key _ => !(decide (key ∈ s.keysToDelete o run.r2KeysToDelete) && o.deletes key)
      catalog := s.catalog.deletePartitions ((s.partitions.map Prod.fst).filter o.recordsDeleted) } := by
    rw [upgradeWarmToHot, if_pos h.listed]
    rw [TieredSource.upgradeStart] at hrun
    simp only [hrun]
    rw [if_neg hcreated, if_pos h.tierUpdated]
  refine ⟨keys, hmem, by rw [heq], fun name => ?_, ?_⟩
  · have hstored : ((keys.filter fun key => sanitizeIdentifier key.1 = name).flatMap fun key =>
        ((s.upgradeStart o).downloadedData.lookup key).getD []) =
          (keys.filter fun key => sanitizeIdentifier key.1 = name).flatMap s.stored := by
      refine List.flatMap_congr fun key hkey => ?_
      obtain ⟨rows, hrows, -⟩ := imports_iff.mp ((hmem key).mp (List.mem_filter.mp hkey).1)
      rw [hrows, TieredSource.stored, (downloaded_iff.mp hrows).2.2]
    rw [heq]
    dsimp only
    rw [hkeys.rows name, hstored]
    exact ((importedRows_perm hkeys.nodup hmem name).symm.map (write name)).append_left _
  · rw [heq, hkeys.deletes]
    rfl

theorem upgradeWarmToHot_fails (h : ¬UpgradeCompletes s o) :
    ∃ tables, (∀ name, s.tables.rows name <+: tables.rows name) ∧ upgradeWarmToHot write o s = { s with tables } := by
  have hgrows := @rows_prefix_importPartitions _ write o (s.upgradeStart o) (s.partitions.map Prod.snd)
  unfold upgradeWarmToHot
  split
  · next hlisted =>
    dsimp only
    split
    · next run hrun =>
      rw [TieredSource.upgradeStart, hrun] at hgrows
      exact ⟨_, hgrows, rfl⟩
    · next run hrun =>
      have hrows : ∀ name, s.tables.rows name <+: run.tables.rows name := by
        rw [TieredSource.upgradeStart, hrun] at hgrows
        exact hgrows
      split
      · exact ⟨_, hrows, rfl⟩
      · next hcreated =>
        split
        · next htier =>
          obtain ⟨hreadable, himports⟩ := unhindered_iff.mp (importPartitions_ok_iff.mp ⟨run, hrun⟩)
          have himported : ∃ keys, Imported write o (s.upgradeStart o) run
              ((s.partitions.map Prod.snd).filterMap Partition.key) keys := importPartitions_imported hrun
          obtain ⟨keys, hkeys⟩ := himported
          refine absurd ⟨hlisted, hreadable, himports, ?_, htier⟩ h
          by_contra hany
          rw [not_or, not_exists] at hany
          refine hcreated ⟨hkeys.created.mpr ⟨rfl, List.eq_nil_iff_forall_not_mem.mpr fun key hkey => ?_⟩, ?_⟩
          · obtain ⟨rows, hrows, himp⟩ := ((hkeys.mem key).mp hkey).2
            exact hany.2 key (imports_iff.mpr ⟨rows, hrows, himp⟩)
          · exact fun hnil => hany.1 (List.map_eq_nil_iff.mp hnil)
        · exact ⟨_, hrows, rfl⟩
  · exact ⟨s.tables, fun _ => List.prefix_refl _, rfl⟩

theorem subperm_map_iff_altered [DecidableEq Row] {f : Row → Row} {imported left there : List Row} :
    (imported ++ left).Subperm (there ++ imported.map f) ↔
      (left ++ imported.filter fun row => f row ≠ row).Subperm
        (there ++ (imported.filter fun row => f row ≠ row).map f) := by
  have hsplit : (imported.filter (fun row => f row = row) ++ imported.filter fun row => f row ≠ row).Perm imported := by
    have hperm := List.filter_append_perm (fun row => decide (f row = row)) imported
    simpa only [decide_not] using hperm
  generalize imported.filter (fun row => f row ≠ row) = altered at hsplit ⊢
  generalize hsame : imported.filter (fun row => f row = row) = same at hsplit
  have hid : same.map f = same := by
    have hmem : ∀ row ∈ same, f row = id row := fun row hrow => by
      rw [← hsame] at hrow
      exact of_decide_eq_true (List.mem_filter.mp hrow).2
    rw [List.map_congr_left hmem, List.map_id]
  have hsource : (imported ++ left).Perm (same ++ (left ++ altered)) := by
    refine (hsplit.symm.append_right left).trans ?_
    rw [List.append_assoc]
    exact List.perm_append_comm.append_left same
  have htarget : (there ++ imported.map f).Perm (same ++ (there ++ altered.map f)) := by
    refine ((hsplit.symm.map f).append_left there).trans ?_
    rw [List.map_append, hid, ← List.append_assoc, ← List.append_assoc]
    exact List.perm_append_comm.append_right _
  rw [hsource.subperm_right, htarget.subperm_left, List.subperm_append_left]

/-- An upgrade keeps every row exactly if it fails, or the rows it leaves behind or alters are in ClickHouse already,
    or are what altered rows are written as. -/
theorem upgrade_kept_iff [DecidableEq Row] (hwarm : s.tier = .warm) : s.Kept (upgradeWarmToHot write o s) ↔
    (UpgradeCompletes s o → ∀ name, (s.leftBehind o name ++ s.alteredRows write o name).Subperm
      (s.tables.rows name ++ (s.alteredRows write o name).map (write name))) := by
  by_cases hcompletes : UpgradeCompletes s o
  · rw [forall_prop_of_true hcompletes]
    obtain ⟨keys, -, htier, hrows, -⟩ := @upgradeWarmToHot_completes _ write _ _ hcompletes
    have hown : ∀ name, (s.queryable name).Subperm ((upgradeWarmToHot write o s).storage name) ↔
        (s.leftBehind o name ++ s.alteredRows write o name).Subperm
          (s.tables.rows name ++ (s.alteredRows write o name).map (write name)) := by
      intro name
      rw [TieredSource.queryable, hwarm, TieredSource.storage, htier]
      dsimp only
      rw [(hrows name).subperm_left, (warmRows_perm s o name).subperm_right]
      exact subperm_map_iff_altered
    refine ⟨fun h name => (hown name).mp (h.own name), fun h => ⟨fun name => (hown name).mpr (h name), ?_⟩⟩
    exact fun name _ => (List.sublist_append_left _ _).subperm.trans (hrows name).symm.subperm
  · refine iff_of_true ?_ fun h => absurd h hcompletes
    obtain ⟨tables, hgrows, heq⟩ := @upgradeWarmToHot_fails _ write _ _ hcompletes
    rw [heq]
    refine ⟨fun name => List.Subperm.trans ?_ (TieredSource.queryable_subperm_storage _ name),
      fun name _ => (hgrows name).sublist.subperm⟩
    rw [TieredSource.queryable, TieredSource.queryable, hwarm]
    exact List.Subperm.refl _

end Upgrade

end Reiver.Pond
