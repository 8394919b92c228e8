import Reiver.Pond.Sync.DateBuckets
import Reiver.Pond.Sync.MergeSpec

/-! # The warm tier of a table

The model of `write_warm_incremental` and `merge_warm_incremental` of `sync_executor.rs`. A table has a
partition for each date and a partition has files; both writers work on one date at a time. -/

namespace Reiver.Pond

/-- The committed files of each partition. A file reads back as the batches it was written from. -/
abbrev WarmTable := Dict NaiveDate (List (List RecordBatch))

def WarmTable.files (t : WarmTable) (date : NaiveDate) : List (List RecordBatch) := (t.lookup date).getD []

/-- Appends the rows of a date to its partition. -/
def writeBucket (env : ArrowEnv) (t : WarmTable) (bucket : NaiveDate × List RecordBatch) : WarmTable :=
  t.insert bucket.1 (t.files bucket.1 ++ splitBatchesBySize env bucket.2 targetFileSizeBytes)

def writeWarmIncremental (env : ArrowEnv) (t : WarmTable) (today : NaiveDate) (batches : List RecordBatch) :
    WarmTable :=
  (partitionBatchesByDate today batches).foldl (writeBucket env) t

/-- Merges the rows of a date into its partition and swaps the files. -/
def mergeBucket (env : ArrowEnv) (pkColumns : List String) (t : WarmTable)
    (bucket : NaiveDate × List RecordBatch) : Except MergeError WarmTable := do
  let merged ← mergeBatchesByPk env (stripMetadataColumns (t.files bucket.1).flatten) bucket.2 pkColumns
  if merged = [] then .ok t else .ok (t.insert bucket.1 (splitBatchesBySize env merged targetFileSizeBytes))

def mergeWarmIncremental (env : ArrowEnv) (pkColumns : List String) (t : WarmTable) (today : NaiveDate)
    (batches : List RecordBatch) : Except MergeError WarmTable :=
  (partitionBatchesByDate today batches).foldlM (mergeBucket env pkColumns) t

/-! ### Rows by date -/

structure DatedRow where
  date : NaiveDate
  row : RowView

/-- The rows of some batches with the date of the partition each belongs to. -/
def datedRows (today : NaiveDate) (batches : List RecordBatch) : List DatedRow :=
  match batches with
  | [] => []
  | first :: _ =>
    match timestampColumn first.schema with
    | some idx => batches.flatMap fun b => b.rows.map fun row =>
        { date := (extractDateFromRow b.schema idx row).getD today, row := rowView b.schema row }
    | none => (views batches).map fun row => { date := today, row }

def rowsOn (date : NaiveDate) (rows : List DatedRow) : List RowView := (rows.filter (·.date = date)).map (·.row)

def WarmTable.rows (t : WarmTable) (date : NaiveDate) : List RowView := views (t.files date).flatten

section Buckets
variable {today date : NaiveDate} {batches : List RecordBatch}

@[simp] theorem rowsOn_append (date : NaiveDate) (rows rows' : List DatedRow) :
    rowsOn date (rows ++ rows') = rowsOn date rows ++ rowsOn date rows' := by
  simp [rowsOn]

theorem datedRows_eq (today : NaiveDate) (batches : List RecordBatch) :
    datedRows today batches = (datedBy rowView today batches).map fun e => ⟨e.1, e.2⟩ := by
  cases batches with
  | nil => rfl
  | cons first rest =>
    rw [datedRows, datedBy, rowsBy, List.map_flatMap]
    cases hidx : timestampColumn first.schema with
    | none =>
      have hcol : dateColumn (first :: rest) = none := hidx
      rw [views, List.map_flatMap, hcol]
      simp only [List.map_map]
      rfl
    | some idx =>
      have hcol : dateColumn (first :: rest) = some idx := hidx
      rw [hcol]
      simp only [List.map_map]
      rfl

theorem rowsOn_datedRows (date : NaiveDate) :
    rowsOn date (datedRows today batches) = readOn date (datedBy rowView today batches) := by
  rw [rowsOn, datedRows_eq, List.filter_map, List.map_map]
  rfl

/-- What `partition_batches_by_date` returns: distinct dates, for each a bucket of the rows of that date. -/
structure Partitioned (today : NaiveDate) (batches : List RecordBatch)
    (buckets : List (NaiveDate × List RecordBatch)) : Prop where
  nodup : (buckets.map Prod.fst).Nodup
  nonempty : ∀ e ∈ buckets, e.2 ≠ []
  schemas : ∀ e ∈ buckets, ∀ b ∈ e.2, ∃ b' ∈ batches, b.schema = b'.schema
  rows : ∀ e ∈ buckets, views e.2 = rowsOn e.1 (datedRows today batches)
  complete : ∀ date, date ∉ buckets.map Prod.fst → rowsOn date (datedRows today batches) = []

theorem partitionBatchesByDate_spec (today : NaiveDate) (batches : List RecordBatch) :
    Partitioned today batches (partitionBatchesByDate today batches) := by
  obtain ⟨hnodup, hnonempty, hschemas, hrows, hcomplete⟩ := partitionBatchesByDate_rowsBy rowView today batches
  exact ⟨hnodup, hnonempty, hschemas, fun e he => (hrows e he).trans (rowsOn_datedRows e.1).symm,
    fun date hdate => (rowsOn_datedRows date).trans (hcomplete date hdate)⟩

end Buckets

/-! ### What a write does to a partition -/

def eraseMeta (view : RowView) : RowView := fun name => if isMeta name then none else view name

/-- A row as it is compared: by its key and by its cells, up to metadata. -/
def ident (env : ArrowEnv) (pkColumns : List String) (view : RowView) : Option String × RowView :=
  (pkKey env pkColumns view, eraseMeta view)

/-- The files of each partition share a schema. -/
def OneSchema (t : WarmTable) : Prop := ∀ date, ∃ schema, Uniform schema (t.files date).flatten

section Writes
variable {env : ArrowEnv} {pkColumns : List String} {t t' : WarmTable} {today date : NaiveDate}
  {batches : List RecordBatch} {schema : Schema}

theorem files_insert (t : WarmTable) (date date' : NaiveDate) (files : List (List RecordBatch)) :
    WarmTable.files (t.insert date' files) date = if date = date' then files else t.files date := by
  rw [WarmTable.files, Dict.lookup_insert']
  split <;> rfl

theorem writeBucket_rows (t : WarmTable) (bucket : NaiveDate × List RecordBatch) (date : NaiveDate) :
    (writeBucket env t bucket).rows date = t.rows date ++ if date = bucket.1 then views bucket.2 else [] := by
  rw [WarmTable.rows, writeBucket, files_insert]
  split
  · next h =>
    rw [List.flatten_append, views_append, (splitBatchesBySize_spec env targetFileSizeBytes bucket.2).1, h]
    rfl
  · rw [List.append_nil]
    rfl

theorem writeWarmIncremental_rows (env : ArrowEnv) (t : WarmTable) (today : NaiveDate) (batches : List RecordBatch)
    (date : NaiveDate) :
    (writeWarmIncremental env t today batches).rows date = t.rows date ++ rowsOn date (datedRows today batches) := by
  have hspec := partitionBatchesByDate_spec today batches
  have hfold : ∀ (buckets : List (NaiveDate × List RecordBatch)) (t : WarmTable), (buckets.map Prod.fst).Nodup →
      (∀ e ∈ buckets, views e.2 = rowsOn e.1 (datedRows today batches)) →
      (buckets.foldl (writeBucket env) t).rows date =
        t.rows date ++ if date ∈ buckets.map Prod.fst then rowsOn date (datedRows today batches) else [] := by
    intro buckets
    induction buckets with
    | nil => simp
    | cons e buckets ih =>
      intro t hnd hrows
      obtain ⟨hnot, hnd⟩ := List.nodup_cons.mp hnd
      rw [List.foldl_cons, ih _ hnd fun e' he' => hrows e' (List.mem_cons_of_mem _ he'), writeBucket_rows,
        List.append_assoc]
      by_cases h : date = e.1
      · subst h
        simp [hnot, hrows e List.mem_cons_self]
      · rw [if_neg h, List.nil_append, List.map_cons]
        simp only [List.mem_cons, h, false_or]
  rw [writeWarmIncremental, hfold _ t hspec.nodup hspec.rows]
  split
  · rfl
  · next hnot => rw [hspec.complete date hnot]

theorem writeWarmIncremental_uniform (huni : Uniform schema batches)
    (ht : ∀ date, Uniform schema (t.files date).flatten) (date : NaiveDate) :
    Uniform schema ((writeWarmIncremental env t today batches).files date).flatten := by
  have hspec := partitionBatchesByDate_spec today batches
  have hfold : ∀ (buckets : List (NaiveDate × List RecordBatch)) (t : WarmTable),
      (∀ e ∈ buckets, Uniform schema e.2) → (∀ date, Uniform schema (t.files date).flatten) →
      ∀ date, Uniform schema ((buckets.foldl (writeBucket env) t).files date).flatten := by
    intro buckets
    induction buckets with
    | nil => exact fun t _ ht => ht
    | cons e buckets ih =>
      intro t hbuckets ht
      refine ih _ (fun e' he' => hbuckets e' (List.mem_cons_of_mem _ he')) fun date => ?_
      rw [writeBucket, files_insert]
      split
      · rw [List.flatten_append]
        intro b hb
        rcases List.mem_append.mp hb with hb | hb
        · exact ht e.1 b hb
        · exact (splitBatchesBySize_spec env targetFileSizeBytes e.2).2 schema (hbuckets e List.mem_cons_self) b hb
      · exact ht date
  refine hfold _ t (fun e he b hb => ?_) ht date
  obtain ⟨b', hb', hschema⟩ := hspec.schemas e he b hb
  exact hschema.trans (huni b' hb')

/-! ### Metadata columns -/

theorem indexOf_isSome {name : String} : (schema.indexOf name).isSome = true ↔ ∃ field ∈ schema, field.name = name := by
  rw [Schema.indexOf, List.findIdx?_isSome, List.any_eq_true]
  simp only [decide_eq_true_eq]

theorem rowView_none {row : BatchRow} {name : String} (h : schema.indexOf name = none) :
    rowView schema row name = none := by
  rw [rowView, h]
  rfl

theorem rowView_zip {row : BatchRow} (hlen : row.length = schema.length) (name : String) :
    rowView schema row name =
      ((schema.zip row).find? (·.1.name = name)).bind fun e => e.2.map fun v => (e.1.dataType, v) := by
  induction schema generalizing row with
  | nil => rfl
  | cons field schema ih =>
    cases row with
    | nil => cases hlen
    | cons cell row =>
      have ih := ih (Nat.succ.inj hlen)
      rw [List.zip_cons_cons, List.find?_cons]
      unfold rowView Schema.indexOf at ih ⊢
      rw [List.findIdx?_cons]
      by_cases h : field.name = name
      · simp [h]
      · simp only [h, decide_false, Bool.false_eq_true, if_false]
        rw [← ih]
        cases schema.findIdx? fun field => decide (field.name = name) <;> rfl

theorem zip_stripRow {row : BatchRow} (hlen : row.length = schema.length) :
    (schema.filter fun field => !isMeta field.name).zip (stripRow schema row) =
      (schema.zip row).filter fun e => !isMeta e.1.name := by
  refine (List.zip_of_prod ?_ rfl).symm
  conv => rhs; rw [← List.map_fst_zip (Nat.le_of_eq hlen.symm)]
  rw [List.filter_map]
  rfl

theorem stripRow_length {row : BatchRow} (hlen : row.length = schema.length) :
    (stripRow schema row).length = (schema.filter fun field => !isMeta field.name).length := by
  conv => rhs; rw [← List.map_fst_zip (Nat.le_of_eq hlen.symm)]
  rw [stripRow, List.filter_map, List.length_map, List.length_map]
  rfl

theorem rowView_stripRow {row : BatchRow} (hlen : row.length = schema.length) :
    rowView (schema.filter fun field => !isMeta field.name) (stripRow schema row) = eraseMeta (rowView schema row) := by
  funext name
  rw [rowView_zip (stripRow_length hlen), zip_stripRow hlen, List.find?_filter, eraseMeta, rowView_zip hlen]
  split
  · next hmeta =>
    rw [List.find?_eq_none.mpr]
    · rfl
    · rintro e -
      simp only [Bool.not_eq_true', decide_eq_true_eq, not_and]
      rintro hno rfl
      rw [hmeta] at hno
      cases hno
  · next hmeta =>
    refine congrArg (Option.bind · _) (congrArg (List.find? · _) (funext fun e => ?_))
    by_cases h : e.1.name = name
    · simp [h, hmeta]
    · simp [h]

theorem stripBatch_views (b : RecordBatch) :
    (stripBatch b).rows.map (rowView (stripBatch b).schema) = (b.rows.map (rowView b.schema)).map eraseMeta := by
  unfold stripBatch
  split
  · dsimp only
    rw [List.map_map, List.map_map]
    exact List.map_congr_left fun row hrow => rowView_stripRow (b.wf row hrow)
  · next hno =>
    rw [List.map_map]
    refine List.map_congr_left fun row _ => funext fun name => ?_
    show _ = eraseMeta _ name
    rw [eraseMeta]
    split
    · next hmeta =>
      refine rowView_none (Option.not_isSome_iff_eq_none.mp fun hsome => hno ?_)
      obtain ⟨field, hfield, rfl⟩ := indexOf_isSome.mp hsome
      exact List.any_eq_true.mpr ⟨field, hfield, hmeta⟩
    · rfl

theorem stripBatch_schema (b : RecordBatch) :
    (stripBatch b).schema = b.schema.filter fun field => !isMeta field.name := by
  unfold stripBatch
  split
  · rfl
  · next hno =>
    refine (List.filter_eq_self.mpr fun field hfield => ?_).symm
    by_contra hmeta
    exact hno (List.any_eq_true.mpr ⟨field, hfield, by simpa using hmeta⟩)

theorem stripMetadataColumns_views (bs : List RecordBatch) :
    views (stripMetadataColumns bs) = (views bs).map eraseMeta := by
  rw [stripMetadataColumns, views, List.flatMap_map, views, List.map_flatMap]
  exact List.flatMap_congr fun b _ => stripBatch_views b

theorem stripMetadataColumns_uniform {bs : List RecordBatch} (h : Uniform schema bs) :
    Uniform (schema.filter fun field => !isMeta field.name) (stripMetadataColumns bs) := by
  intro b hb
  obtain ⟨b', hb', rfl⟩ := List.mem_map.mp hb
  rw [stripBatch_schema, h b' hb']

@[simp] theorem eraseMeta_eraseMeta (view : RowView) : eraseMeta (eraseMeta view) = eraseMeta view := by
  funext name
  simp only [eraseMeta]
  split <;> rfl

theorem ident_eraseMeta (h : ∀ name ∈ pkColumns, isMeta name = false) (view : RowView) :
    ident env pkColumns (eraseMeta view) = ident env pkColumns view := by
  have hpk : pkColumns.map (eraseMeta view) = pkColumns.map view :=
    List.map_congr_left fun name hname => by rw [eraseMeta, h name hname, if_neg Bool.false_ne_true]
  rw [ident, pkKey, hpk, eraseMeta_eraseMeta]
  rfl

/-! ### Merges -/

/-- The merge of a bucket updates its partition by key and leaves the others alone. -/
theorem mergeBucket_ok {bucket : NaiveDate × List RecordBatch} (hpk : pkColumns ≠ []) (hne : bucket.2 ≠ [])
    (haligned : Aligned pkColumns bucket.2) (ht : OneSchema t) (h : mergeBucket env pkColumns t bucket = .ok t') :
    OneSchema t' ∧ ∀ date, (t'.rows date).map (ident env pkColumns) =
      if date = bucket.1 then upsert Prod.fst ((t.rows date).map (ident env pkColumns))
        ((views bucket.2).map (ident env pkColumns))
      else (t.rows date).map (ident env pkColumns) := by
  obtain ⟨merged, hmerge, h⟩ := bind_ok h
  obtain ⟨existingSchema, hexisting⟩ := ht bucket.1
  obtain ⟨⟨mergedSchema, hmerged⟩, hviews, hnames⟩ :=
    mergeBatchesByPk_ok hpk hne haligned ((stripMetadataColumns_uniform hexisting).aligned _) hmerge
  have hident : (views merged).map (ident env pkColumns) =
      upsert Prod.fst ((t.rows bucket.1).map (ident env pkColumns)) ((views bucket.2).map (ident env pkColumns)) := by
    rw [hviews, stripMetadataColumns_views]
    refine (map_upsert (ident env pkColumns) Prod.fst _ _).trans (congrArg (upsert Prod.fst · _) ?_)
    rw [List.map_map]
    cases hfiles : (t.files bucket.1).flatten with
    | nil => rw [WarmTable.rows, hfiles]; rfl
    | cons b bs =>
      rw [WarmTable.rows, hfiles]
      refine List.map_congr_left fun view _ => ident_eraseMeta (fun name hname => ?_) view
      have hfound := hnames (stripBatch b) (by rw [hfiles]; exact List.mem_cons_self) name hname
      rw [stripBatch_schema] at hfound
      obtain ⟨field, hfield, rfl⟩ := indexOf_isSome.mp hfound
      simpa using (List.mem_filter.mp hfield).2
  split at h
  · next hnil =>
    cases h
    refine ⟨ht, fun date => ?_⟩
    split
    · next hdate =>
      subst hdate
      rw [hnil] at hident
      obtain ⟨hold, hnew⟩ := upsert_eq_nil hident.symm
      rw [hold, hnew, upsert_nil_right]
    · rfl
  · cases h
    have hsplit := splitBatchesBySize_spec env targetFileSizeBytes merged
    refine ⟨fun date => ?_, fun date => ?_⟩
    · rw [files_insert]
      split
      · exact ⟨mergedSchema, hsplit.2 mergedSchema hmerged⟩
      · exact ht date
    · rw [WarmTable.rows, files_insert]
      split
      · next hdate =>
        subst hdate
        rw [hsplit.1, hident]
      · rfl

/-- An incremental sync with a primary key updates every partition by key with the rows of its date. -/
theorem mergeWarmIncremental_ok (hpk : pkColumns ≠ []) (haligned : Aligned pkColumns batches) (ht : OneSchema t)
    (h : mergeWarmIncremental env pkColumns t today batches = .ok t') :
    OneSchema t' ∧ ∀ date, (t'.rows date).map (ident env pkColumns) =
      upsert Prod.fst ((t.rows date).map (ident env pkColumns))
        ((rowsOn date (datedRows today batches)).map (ident env pkColumns)) := by
  have hspec := partitionBatchesByDate_spec today batches
  have hfold : ∀ (buckets : List (NaiveDate × List RecordBatch)) (t t' : WarmTable), (buckets.map Prod.fst).Nodup →
      (∀ e ∈ buckets, e.2 ≠ [] ∧ Aligned pkColumns e.2 ∧ views e.2 = rowsOn e.1 (datedRows today batches)) →
      OneSchema t → buckets.foldlM (mergeBucket env pkColumns) t = .ok t' →
      OneSchema t' ∧ ∀ date, (t'.rows date).map (ident env pkColumns) =
        if date ∈ buckets.map Prod.fst then upsert Prod.fst ((t.rows date).map (ident env pkColumns))
          ((rowsOn date (datedRows today batches)).map (ident env pkColumns))
        else (t.rows date).map (ident env pkColumns) := by
    intro buckets
    induction buckets with
    | nil =>
      intro t t' _ _ ht h
      cases h
      exact ⟨ht, fun date => rfl⟩
    | cons e buckets ih =>
      intro t t' hnd hbuckets ht h
      rw [List.foldlM_cons] at h
      obtain ⟨mid, hmid, h⟩ := bind_ok h
      obtain ⟨hne, he, hrows⟩ := hbuckets e List.mem_cons_self
      obtain ⟨hmidSchema, hmidRows⟩ := mergeBucket_ok hpk hne he ht hmid
      obtain ⟨hnot, hnd⟩ := List.nodup_cons.mp hnd
      obtain ⟨hschema, hrest⟩ := ih mid t' hnd (fun e' he' => hbuckets e' (List.mem_cons_of_mem _ he')) hmidSchema h
      refine ⟨hschema, fun date => ?_⟩
      rw [hrest date, hmidRows date]
      by_cases hdate : date = e.1
      · subst hdate
        rw [if_neg hnot, if_pos rfl, List.map_cons, if_pos List.mem_cons_self, hrows]
      · simp only [List.map_cons, List.mem_cons, hdate, false_or, if_false]
  obtain ⟨hschema, hrows⟩ := hfold _ t t' hspec.nodup
    (fun e he => ⟨hspec.nonempty e he, haligned.of_schemas (hspec.schemas e he), hspec.rows e he⟩) ht h
  refine ⟨hschema, fun date => ?_⟩
  rw [hrows date]
  split
  · rfl
  · next hnot => rw [hspec.complete date hnot, List.map_nil, upsert_nil_right]

end Writes

end Reiver.Pond
