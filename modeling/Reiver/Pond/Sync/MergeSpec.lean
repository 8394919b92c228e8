import Reiver.Lib.Fallible
import Reiver.Pond.Sync.Merge

/-! # A merge is an update by key -/

namespace Reiver

namespace Pond

/-! ### Keys by column name -/

def pkKey (env : ArrowEnv) (pkColumns : List String) (view : RowView) : Option String :=
  (buildPkKey env (pkColumns.map view)).toOption

section Keys
variable {env : ArrowEnv} {pkColumns : List String} {schema : Schema} {missing : List String → MergeError}

theorem indexOf_lt {name : String} {i : Nat} (h : schema.indexOf name = some i) :
    ∃ field, schema[i]? = some field ∧ field.name = name := by
  obtain ⟨hlt, hname, -⟩ := List.findIdx?_eq_some_iff_getElem.mp h
  exact ⟨schema[i], List.getElem?_eq_getElem hlt, of_decide_eq_true hname⟩

theorem columnCell_indexOf {name : String} {i : Nat} (h : schema.indexOf name = some i) (row : BatchRow) :
    columnCell schema row i = .ok (rowView schema row name) := by
  obtain ⟨field, hfield, -⟩ := indexOf_lt h
  rw [columnCell, column, hfield, rowView, h, Option.bind_some, hfield]
  rfl

theorem resolvePk_ok {indices : List Nat} (h : resolvePk missing schema pkColumns = .ok indices) :
    indices = pkColumns.filterMap schema.indexOf ∧ ∀ name ∈ pkColumns, (schema.indexOf name).isSome = true := by
  unfold resolvePk at h
  dsimp only at h
  split at h
  · cases h
  · next hnone =>
    refine ⟨(Except.ok.inj h).symm, fun name hname => ?_⟩
    rw [not_not, List.filter_eq_nil_iff] at hnone
    have hne : schema.indexOf name ≠ none := by simpa using hnone name hname
    exact Option.isSome_iff_ne_none.mpr hne

theorem mapM_columnCell {indices : List Nat} (h : resolvePk missing schema pkColumns = .ok indices) (row : BatchRow) :
    indices.mapM (columnCell schema row) = .ok (pkColumns.map (rowView schema row)) := by
  obtain ⟨rfl, hall⟩ := resolvePk_ok h
  clear h
  induction pkColumns with
  | nil => rfl
  | cons name names ih =>
    obtain ⟨i, hi⟩ := Option.isSome_iff_exists.mp (hall name List.mem_cons_self)
    rw [List.filterMap_cons_some hi, List.mapM_cons, columnCell_indexOf hi,
      ih fun n hn => hall n (List.mem_cons_of_mem _ hn)]
    rfl

theorem rowKey_eq {indices : List Nat} (h : resolvePk missing schema pkColumns = .ok indices) (row : BatchRow) :
    rowKey env schema indices row = buildPkKey env (pkColumns.map (rowView schema row)) := by
  rw [rowKey, mapM_columnCell h]
  rfl

theorem batchKeys_eq_ok {indices : List Nat} {b : RecordBatch} {keys : List String} :
    batchKeys env indices b = .ok keys ↔ (∃ fields, indices.mapM (column b.schema) = .ok fields) ∧
      b.rows.mapM (rowKey env b.schema indices) = .ok keys := by
  constructor
  · intro h
    obtain ⟨fields, hfields, hrows⟩ := bind_ok h
    exact ⟨⟨fields, hfields⟩, hrows⟩
  · rintro ⟨⟨fields, hfields⟩, hrows⟩
    rw [batchKeys, hfields]
    exact hrows

theorem resolvePk_columns {indices : List Nat} (h : resolvePk missing schema pkColumns = .ok indices) :
    ∃ fields, indices.mapM (column schema) = .ok fields := by
  refine exists_mapM_ok.mpr fun i hi => ?_
  rw [(resolvePk_ok h).1] at hi
  obtain ⟨name, -, hname⟩ := List.mem_filterMap.mp hi
  obtain ⟨field, hfield, -⟩ := indexOf_lt hname
  exact ⟨field, by rw [column, hfield]⟩

theorem batchKeys_ok {indices : List Nat} {b : RecordBatch} {keys : List String}
    (h : resolvePk missing b.schema pkColumns = .ok indices) (hkeys : batchKeys env indices b = .ok keys) :
    List.Forall₂ (fun row key => pkKey env pkColumns (rowView b.schema row) = some key) b.rows keys := by
  refine (mapM_ok (batchKeys_eq_ok.mp hkeys).2).imp fun row key hrow => ?_
  rw [rowKey_eq h] at hrow
  rw [pkKey, hrow]
  rfl

end Keys

/-! ### Key columns that stand at the same positions -/

/-- The schema in which the positions of the key columns are looked up. -/
def firstSchema (batches : List RecordBatch) : Schema := (batches.head?.map (·.schema)).getD []

/-- The key columns stand in every batch where they stand in the first. -/
def Aligned (pkColumns : List String) (batches : List RecordBatch) : Prop :=
  ∀ b ∈ batches, ∀ name ∈ pkColumns, Schema.indexOf b.schema name = (firstSchema batches).indexOf name

section Aligned
variable {pkColumns : List String} {schema : Schema} {missing : List String → MergeError}
  {batches : List RecordBatch}

theorem resolvePk_congr {schema' : Schema} (h : ∀ name ∈ pkColumns, schema'.indexOf name = schema.indexOf name) :
    resolvePk missing schema' pkColumns = resolvePk missing schema pkColumns := by
  have hmissing : pkColumns.filter (fun name => schema'.indexOf name = none) =
      pkColumns.filter fun name => schema.indexOf name = none :=
    List.filter_congr fun name hname => by rw [h name hname]
  rw [resolvePk, resolvePk, hmissing, List.filterMap_congr h]

theorem Aligned.of_schemas {batches' : List RecordBatch} (h : Aligned pkColumns batches)
    (hschemas : ∀ b ∈ batches', ∃ b' ∈ batches, b.schema = b'.schema) : Aligned pkColumns batches' := by
  have hindex : ∀ b ∈ batches', ∀ name ∈ pkColumns,
      Schema.indexOf b.schema name = (firstSchema batches).indexOf name := by
    intro b hb name hname
    obtain ⟨b', hb', hschema⟩ := hschemas b hb
    rw [hschema, h b' hb' name hname]
  cases batches' with
  | nil => exact fun b hb => absurd hb List.not_mem_nil
  | cons first rest => exact fun b hb name hname =>
      (hindex b hb name hname).trans (hindex first List.mem_cons_self name hname).symm

theorem Uniform.aligned (h : Uniform schema batches) (pkColumns : List String) : Aligned pkColumns batches := by
  cases batches with
  | nil => exact fun b hb => absurd hb List.not_mem_nil
  | cons first rest =>
    intro b hb name _
    rw [h b hb]
    exact congrArg (Schema.indexOf · name) (h first List.mem_cons_self).symm

end Aligned

/-! ### Schema reconciliation -/

section Reconcile
variable {batches result : List RecordBatch} {unified : Schema}

theorem addField_names {fields fields' : Schema} {field : Field} (h : addField batches fields field = .ok fields') :
    ∀ name, (name = field.name ∨ ∃ f ∈ fields, f.name = name) → ∃ f ∈ fields', f.name = name := by
  unfold addField at h
  have hpush : ∀ g : Field, g.name = field.name → ∀ name, (name = field.name ∨ ∃ f ∈ fields, f.name = name) →
      ∃ f ∈ fields ++ [g], f.name = name := by
    rintro g hg name (rfl | ⟨f, hf, rfl⟩)
    · exact ⟨g, by simp, hg⟩
    · exact ⟨f, List.mem_append_left _ hf, rfl⟩
  split at h
  · next existing hex =>
    have hmem := List.mem_of_find?_eq_some hex
    have hname : existing.name = field.name := by simpa using List.find?_some hex
    have hkeep : ∀ name, (name = field.name ∨ ∃ f ∈ fields, f.name = name) → ∃ f ∈ fields, f.name = name := by
      rintro name (rfl | hf)
      · exact ⟨existing, hmem, hname⟩
      · exact hf
    split at h
    · cases h
    · split at h <;> cases Except.ok.inj h
      · intro name hn
        obtain ⟨f, hf, rfl⟩ := hkeep name hn
        refine ⟨_, List.mem_map_of_mem hf, ?_⟩
        split <;> rfl
      · exact hkeep
  · split at h <;> cases Except.ok.inj h
    · exact hpush field rfl
    · exact hpush _ rfl

theorem unify_names (h : unifyBatchSchemas batches = .ok unified) :
    ∀ b ∈ batches, ∀ name, (Schema.indexOf b.schema name).isSome = true → (unified.indexOf name).isSome = true := by
  have hfold : ∀ (all fields fields' : Schema), all.foldlM (addField batches) fields = .ok fields' →
      ∀ name, ((∃ f ∈ all, f.name = name) ∨ ∃ f ∈ fields, f.name = name) → ∃ f ∈ fields', f.name = name := by
    intro all
    induction all with
    | nil =>
      intro fields fields' h name hn
      cases Except.ok.inj h
      simpa using hn
    | cons field all ih =>
      intro fields fields' h name hn
      rw [List.foldlM_cons] at h
      obtain ⟨mid, hmid, hrest⟩ := bind_ok h
      refine ih mid fields' hrest name ?_
      rcases hn with ⟨f, hf, rfl⟩ | hf
      · rcases List.mem_cons.mp hf with rfl | hf
        · exact Or.inr (addField_names hmid _ (Or.inl rfl))
        · exact Or.inl ⟨f, hf, rfl⟩
      · exact Or.inr (addField_names hmid name (Or.inr hf))
  intro b hb name hname
  obtain ⟨i, hi⟩ := Option.isSome_iff_exists.mp hname
  obtain ⟨field, hfield, rfl⟩ := indexOf_lt hi
  obtain ⟨f, hf, hn⟩ := hfold _ _ _ h field.name
    (Or.inl ⟨field, List.mem_flatMap.mpr ⟨b, hb, List.mem_of_getElem? hfield⟩, rfl⟩)
  exact (List.findIdx?_isSome (p := (·.name = field.name))).trans (List.any_eq_true.mpr ⟨f, hf, by simpa using hn⟩)

theorem rowView_projectRow {b : RecordBatch} {target : Schema} {row : BatchRow} (hp : projectable b target = true)
    (hnames : ∀ name, (Schema.indexOf b.schema name).isSome = true → (target.indexOf name).isSome = true) :
    rowView target (projectRow b.schema target row) = rowView b.schema row := by
  funext name
  cases ht : target.indexOf name with
  | none =>
    have hb : Schema.indexOf b.schema name = none := by
      by_contra hne
      have := hnames name (Option.isSome_iff_ne_none.mpr hne)
      rw [ht] at this
      cases this
    rw [rowView, rowView, ht, hb]
    rfl
  | some j =>
    obtain ⟨field, hfield, rfl⟩ := indexOf_lt ht
    have hcell : (projectRow b.schema target row)[j]? =
        some ((Schema.indexOf b.schema field.name).bind fun i => (row[i]?).join) := by
      rw [projectRow, List.getElem?_map, hfield]
      rfl
    have hcheck := List.all_eq_true.mp hp field (List.mem_of_getElem? hfield)
    rw [rowView, ht, Option.bind_some, hfield, Option.bind_some, hcell, Option.join_some, rowView]
    cases hb : Schema.indexOf b.schema field.name with
    | none => rfl
    | some i =>
      rw [hb] at hcheck
      obtain ⟨f, hf, -⟩ := indexOf_lt hb
      simp only [hf, Option.any_some, Bool.and_eq_true, decide_eq_true_eq] at hcheck
      rw [Option.bind_some, Option.bind_some, hf, Option.bind_some, hcheck.1]

theorem projectBatchToSchema_views {b b' : RecordBatch} (h : projectBatchToSchema b unified = .ok b')
    (hnames : ∀ name, (Schema.indexOf b.schema name).isSome = true → (unified.indexOf name).isSome = true) :
    b'.schema = unified ∧ b'.rows.map (rowView b'.schema) = b.rows.map (rowView b.schema) := by
  unfold projectBatchToSchema at h
  split at h
  · next hp =>
    cases h
    refine ⟨rfl, ?_⟩
    dsimp only
    rw [List.map_map]
    exact List.map_congr_left fun row _ => rowView_projectRow hp hnames
  · cases h

theorem reconcileSchemas_ok (h : reconcileSchemas batches = .ok result) :
    (∃ schema, Uniform schema result) ∧ views result = views batches := by
  unfold reconcileSchemas at h
  split at h
  · cases h
    exact ⟨⟨[], fun b hb => absurd hb List.not_mem_nil⟩, rfl⟩
  · next first rest =>
    split at h
    · obtain ⟨unified, hunify, hmap⟩ := bind_ok h
      have hall := mapM_ok hmap
      have hnames := unify_names hunify
      refine ⟨⟨unified, ?_⟩, ?_⟩
      · clear hunify h
        intro b hb
        obtain ⟨a, ha, hab⟩ := exists_of_forall₂ hall hb
        exact (projectBatchToSchema_views hab (hnames a ha)).1
      · clear hunify h
        generalize first :: rest = l at hall hnames
        clear hmap
        induction hall with
        | nil => rfl
        | cons hab hall ih =>
          rw [views_cons, views_cons, (projectBatchToSchema_views hab (hnames _ List.mem_cons_self)).2,
            ih fun b hb => hnames b (List.mem_cons_of_mem _ hb)]
    · next huni =>
      cases h
      refine ⟨⟨first.schema, fun b hb => ?_⟩, rfl⟩
      rcases List.mem_cons.mp hb with rfl | hb
      · rfl
      · by_contra hne
        exact huni (List.any_eq_true.mpr ⟨b, hb, by simpa using hne⟩)

end Reconcile

/-! ### Kept rows -/

section Kept
variable {env : ArrowEnv} {pkColumns : List String}

/-- A batch row with the key that was computed for it. -/
abbrev KeyedRow := String × RowView

def keyedRows (b : RecordBatch) (keys : List String) : List KeyedRow :=
  (b.rows.zip keys).map fun e => (e.2, rowView b.schema e.1)

theorem keyedRows_views {b : RecordBatch} {keys : List String} {R : BatchRow → String → Prop}
    (h : List.Forall₂ R b.rows keys) :
    (keyedRows b keys).map Prod.snd = b.rows.map (rowView b.schema) := by
  rw [keyedRows, List.map_map]
  show (b.rows.zip keys).map (rowView b.schema ∘ Prod.fst) = _
  rw [← List.map_map, List.map_fst_zip (Nat.le_of_eq h.length_eq)]

theorem filterRecordBatch_keys {b : RecordBatch} {keys : List String} (p : String → Bool) :
    (b.filterRecordBatch (keys.map p)).rows.map (rowView b.schema) =
      ((keyedRows b keys).filter fun e => p e.1).map Prod.snd := by
  show (((b.rows.zip (keys.map p)).filter (·.2)).map (·.1)).map (rowView b.schema) = _
  rw [keyedRows]
  generalize b.rows = rows
  induction rows generalizing keys with
  | nil => rfl
  | cons row rows ih =>
    cases keys with
    | nil => rfl
    | cons key keys =>
      simp only [List.map_cons, List.zip_cons_cons, List.filter_cons]
      split <;> simp only [List.map_cons, ih]

theorem filterRecordBatch_zipIdx {b : RecordBatch} {keys : List String} (p : String → Nat → Bool) :
    (b.filterRecordBatch (keys.zipIdx.map fun (key, row) => p key row)).rows.map (rowView b.schema) =
      (((keyedRows b keys).zipIdx).filter fun e => p e.1.1 e.2).map (·.1.2) := by
  show (((b.rows.zip (keys.zipIdx.map fun (key, row) => p key row)).filter (·.2)).map (·.1)).map (rowView b.schema) = _
  rw [keyedRows]
  have hgen : ∀ (rows : List BatchRow) (keys : List String) (n : Nat),
      (((rows.zip ((keys.zipIdx n).map fun (key, row) => p key row)).filter (·.2)).map (·.1)).map (rowView b.schema) =
        ((((rows.zip keys).map fun e => (e.2, rowView b.schema e.1)).zipIdx n).filter fun e => p e.1.1 e.2).map
          (·.1.2) := by
    intro rows
    induction rows with
    | nil => exact fun keys n => rfl
    | cons row rows ih =>
      intro keys n
      cases keys with
      | nil => rfl
      | cons key keys =>
        simp only [List.zipIdx_cons, List.map_cons, List.zip_cons_cons, List.filter_cons]
        split <;> simp only [List.map_cons, ih]
  exact hgen b.rows keys 0

/-- The new rows with their keys and positions. -/
def positioned (batches : List (RecordBatch × List String)) : List (KeyedRow × (Nat × Nat)) :=
  batches.zipIdx.flatMap fun (e, batchIdx) => (keyedRows e.1 e.2).zipIdx.map fun (r, row) => (r, (batchIdx, row))

theorem map_zipIdx_fst {α β : Type} (l : List α) (n : Nat) (f : α → β) :
    (l.zipIdx n).map (fun e => f e.1) = l.map f := by
  conv => rhs; rw [← List.zipIdx_map_fst n l, List.map_map]
  rfl

theorem positioned_fst (batches : List (RecordBatch × List String)) :
    (positioned batches).map Prod.fst = batches.flatMap fun e => keyedRows e.1 e.2 := by
  rw [positioned, List.map_flatMap]
  have hinner : ∀ (e : RecordBatch × List String) (i : Nat),
      ((keyedRows e.1 e.2).zipIdx.map fun (r, row) => (r, (i, row))).map Prod.fst = keyedRows e.1 e.2 := by
    intro e i
    rw [List.map_map]
    exact (map_zipIdx_fst _ 0 id).trans (List.map_id _)
  simp only [hinner]
  conv => rhs; rw [← List.zipIdx_map_fst 0 batches, List.flatMap_map]

theorem positioned_nodup (batches : List (RecordBatch × List String)) : ((positioned batches).map Prod.snd).Nodup := by
  rw [positioned, List.map_flatMap]
  refine List.nodup_flatMap.mpr ⟨fun e _ => ?_, ?_⟩
  · rw [List.map_map]
    refine List.Nodup.of_map Prod.snd ?_
    rw [List.map_map]
    show ((keyedRows e.1.1 e.1.2).zipIdx.map Prod.snd).Nodup
    rw [List.zipIdx_map_snd]
    exact List.nodup_range'
  · have hnd : (batches.zipIdx.map Prod.snd).Nodup := by
      rw [List.zipIdx_map_snd]
      exact List.nodup_range'
    refine (List.pairwise_map.mp hnd).imp fun {a b} hab => ?_
    intro pos ha hb
    obtain ⟨x, hx, rfl⟩ := List.mem_map.mp ha
    obtain ⟨x', -, rfl⟩ := List.mem_map.mp hx
    obtain ⟨y, hy, hxy⟩ := List.mem_map.mp hb
    obtain ⟨y', -, rfl⟩ := List.mem_map.mp hy
    exact hab (Prod.mk.inj hxy).1.symm

theorem seenPks_eq {new : List RecordBatch} {newBatchKeys : List (List String)}
    (h : List.Forall₂ (fun b keys => b.rows.length = keys.length) new newBatchKeys) :
    seenPks newBatchKeys = (positioned (new.zip newBatchKeys)).foldl (fun m e => m.insert e.1.1 e.2) ∅ := by
  have hhead : ∀ (b : RecordBatch) (keys : List String) (n : Nat), b.rows.length = keys.length →
      keys.zipIdx.map (fun e => (e.1, (n, e.2))) =
        ((keyedRows b keys).zipIdx.map fun e => (e.1, (n, e.2))).map fun e => (e.1.1, e.2) := by
    intro b keys n hlen
    have hkeys : (keyedRows b keys).map Prod.fst = keys := by
      rw [keyedRows, List.map_map]
      exact List.map_snd_zip (Nat.le_of_eq hlen.symm)
    conv => lhs; rw [← hkeys, List.zipIdx_map, List.map_map]
    rw [List.map_map]
    rfl
  have hlist : ∀ n, ((newBatchKeys.zipIdx n).flatMap fun b => b.1.zipIdx.map fun e => (e.1, (b.2, e.2))) =
      (((new.zip newBatchKeys).zipIdx n).flatMap fun b =>
        (keyedRows b.1.1 b.1.2).zipIdx.map fun e => (e.1, (b.2, e.2))).map fun e => (e.1.1, e.2) := by
    induction h with
    | nil => exact fun n => rfl
    | cons hlen _ ih =>
      intro n
      rw [List.zip_cons_cons, List.zipIdx_cons, List.zipIdx_cons, List.flatMap_cons, List.flatMap_cons, List.map_append,
        ih]
      refine congrArg (· ++ _) (hhead _ _ n hlen)
  refine (congrArg (List.foldl _ ∅) (hlist 0)).trans ?_
  rw [List.foldl_map]
  rfl

theorem positioned_key {new : List RecordBatch} {newBatchKeys : List (List String)}
    (h : List.Forall₂ (fun b keys => List.Forall₂ (fun row key => pkKey env pkColumns (rowView b.schema row) = some key)
      b.rows keys) new newBatchKeys) :
    ∀ e ∈ (positioned (new.zip newBatchKeys)).map Prod.fst, pkKey env pkColumns e.2 = some e.1 := by
  rw [positioned_fst]
  intro e he
  obtain ⟨⟨b, keys⟩, hb, he⟩ := List.mem_flatMap.mp he
  obtain ⟨⟨row, key⟩, hrow, rfl⟩ := List.mem_map.mp he
  exact List.forall₂_zip (List.forall₂_zip h hb) hrow

theorem positioned_views {new : List RecordBatch} {newBatchKeys : List (List String)}
    (h : List.Forall₂ (fun b keys => List.Forall₂ (fun row key => pkKey env pkColumns (rowView b.schema row) = some key)
      b.rows keys) new newBatchKeys) :
    ((positioned (new.zip newBatchKeys)).map Prod.fst).map Prod.snd = views new := by
  rw [positioned_fst, List.map_flatMap, views]
  induction h with
  | nil => rfl
  | cons hb _ ih => rw [List.zip_cons_cons, List.flatMap_cons, List.flatMap_cons, ih, keyedRows_views hb]

theorem views_deduped_keys {new : List RecordBatch} {newBatchKeys : List (List String)}
    (h : List.Forall₂ (fun b keys => b.rows.length = keys.length) new newBatchKeys) :
    views ((new.zip newBatchKeys).zipIdx.map fun ((b, keys), batchIdx) => b.filterRecordBatch (keys.zipIdx.map
      fun (key, row) => (seenPks newBatchKeys).lookup key = some (batchIdx, row))) =
    (keepLast Prod.fst ((new.zip newBatchKeys).flatMap fun e => keyedRows e.1 e.2)).map Prod.snd := by
  have hpos : views ((new.zip newBatchKeys).zipIdx.map fun ((b, keys), batchIdx) => b.filterRecordBatch
      (keys.zipIdx.map fun (key, row) => (seenPks newBatchKeys).lookup key = some (batchIdx, row))) =
      ((positioned (new.zip newBatchKeys)).filter fun e => (seenPks newBatchKeys).lookup e.1.1 = some e.2).map
        (·.1.2) := by
    rw [positioned, List.filter_flatMap, List.map_flatMap, views, List.flatMap_map]
    refine List.flatMap_congr fun e _ => ?_
    obtain ⟨⟨b, keys⟩, batchIdx⟩ := e
    show (b.filterRecordBatch _).rows.map (rowView b.schema) = _
    rw [filterRecordBatch_zipIdx fun key row => (seenPks newBatchKeys).lookup key = some (batchIdx, row),
      List.filter_map, List.map_map]
    rfl
  have hlast := filter_last_position Prod.fst _ (positioned_nodup (new.zip newBatchKeys))
  rw [← seenPks_eq h] at hlast
  rw [hpos, ← positioned_fst, ← hlast, List.map_map]
  rfl

theorem views_deduped {new : List RecordBatch} {newBatchKeys : List (List String)}
    (h : List.Forall₂ (fun b keys => List.Forall₂ (fun row key => pkKey env pkColumns (rowView b.schema row) = some key)
      b.rows keys) new newBatchKeys) :
    views ((new.zip newBatchKeys).zipIdx.map fun ((b, keys), batchIdx) => b.filterRecordBatch (keys.zipIdx.map
      fun (key, row) => (seenPks newBatchKeys).lookup key = some (batchIdx, row))) =
    keepLast (pkKey env pkColumns) (views new) := by
  have hkeep : (keepLast Prod.fst ((positioned (new.zip newBatchKeys)).map Prod.fst)).map Prod.snd =
      keepLast (pkKey env pkColumns) (((positioned (new.zip newBatchKeys)).map Prod.fst).map Prod.snd) :=
    map_keepLast fun a ha b hb => by rw [positioned_key h a ha, positioned_key h b hb, Option.some_inj]
  rw [views_deduped_keys (h.imp fun b keys hk => hk.length_eq), ← positioned_views h, ← hkeep, positioned_fst]

theorem views_kept {existing kept : List RecordBatch} {indices : List Nat} {missing : List String → MergeError}
    {seen : Dict String (Nat × Nat)} {new : List RowView}
    (hres : ∀ b ∈ existing, resolvePk missing b.schema pkColumns = .ok indices)
    (hseen : ∀ key, (seen.lookup key).isSome = true ↔ ∃ v ∈ new, pkKey env pkColumns v = some key)
    (hkept : existing.mapM (fun b => do
      let keys ← batchKeys env indices b
      .ok (b.filterRecordBatch (keys.map fun key => !(seen.lookup key).isSome))) = .ok kept) :
    views kept = (views existing).filter fun v => ¬∃ w ∈ new, pkKey env pkColumns w = pkKey env pkColumns v := by
  have hall := mapM_ok hkept
  clear hkept
  induction hall with
  | nil => rfl
  | @cons b b' existing kept hb _ ih =>
    obtain ⟨keys, hkeys, hfilter⟩ := bind_ok hb
    cases hfilter
    have hrows := batchKeys_ok (hres b List.mem_cons_self) hkeys
    rw [views_cons, views_cons, List.filter_append, ← ih fun c hc => hres c (List.mem_cons_of_mem _ hc)]
    refine congrArg (· ++ _) ?_
    show (b.filterRecordBatch _).rows.map (rowView b.schema) = _
    rw [filterRecordBatch_keys, ← keyedRows_views hrows, List.filter_map]
    refine congrArg (List.map Prod.snd) (List.filter_congr fun e he => ?_)
    obtain ⟨⟨row, key⟩, hrow, rfl⟩ := List.mem_map.mp he
    have hkey : pkKey env pkColumns (rowView b.schema row) = some key := List.forall₂_zip hrows hrow
    have hiff := hseen key
    show (!(seen.lookup key).isSome) = decide ¬∃ w ∈ new,
      pkKey env pkColumns w = pkKey env pkColumns (rowView b.schema row)
    rw [hkey, decide_not]
    exact congrArg _ (Bool.eq_iff_iff.mpr (hiff.trans decide_eq_true_iff.symm))

theorem seenPks_isSome_keys {new : List RecordBatch} {newBatchKeys : List (List String)}
    (h : List.Forall₂ (fun b keys => b.rows.length = keys.length) new newBatchKeys) (key : String) :
    ((seenPks newBatchKeys).lookup key).isSome = true ↔
      ∃ e ∈ (new.zip newBatchKeys).flatMap fun e => keyedRows e.1 e.2, e.1 = key := by
  have hfold : ∀ (l : List (KeyedRow × (Nat × Nat))) (m : Dict String (Nat × Nat)),
      ((l.foldl (fun m e => m.insert e.1.1 e.2) m).lookup key).isSome = true ↔
        (∃ e ∈ l, e.1.1 = key) ∨ (m.lookup key).isSome = true := by
    intro l
    induction l with
    | nil => exact fun m => by simp
    | cons e l ih =>
      intro m
      rw [List.foldl_cons, ih, Dict.lookup_insert']
      by_cases hk : key = e.1.1
      · simp [hk]
      · simp [hk, Ne.symm hk]
  rw [seenPks_eq h, hfold, ← positioned_fst]
  simp only [AList.lookup_empty, Option.isSome_none, Bool.false_eq_true, or_false]
  constructor
  · exact fun ⟨e, he, hkey⟩ => ⟨e.1, List.mem_map_of_mem he, hkey⟩
  · rintro ⟨r, hr, hkey⟩
    obtain ⟨e, he, rfl⟩ := List.mem_map.mp hr
    exact ⟨e, he, hkey⟩

theorem seenPks_isSome {new : List RecordBatch} {newBatchKeys : List (List String)}
    (h : List.Forall₂ (fun b keys => List.Forall₂ (fun row key => pkKey env pkColumns (rowView b.schema row) = some key)
      b.rows keys) new newBatchKeys) (key : String) :
    ((seenPks newBatchKeys).lookup key).isSome = true ↔ ∃ v ∈ views new, pkKey env pkColumns v = some key := by
  have hkeyed := positioned_key h
  rw [seenPks_isSome_keys (h.imp fun b keys hk => hk.length_eq), ← positioned_views h, ← positioned_fst]
  constructor
  · rintro ⟨e, he, rfl⟩
    exact ⟨e.2, List.mem_map_of_mem he, hkeyed e he⟩
  · rintro ⟨v, hv, hkey⟩
    obtain ⟨e, he, rfl⟩ := List.mem_map.mp hv
    exact ⟨e, he, Option.some.inj ((hkeyed e he).symm.trans hkey)⟩

/-- A merge that succeeds is an update by key, and its result has one schema. -/
theorem mergeBatchesByPk_ok {existing new result : List RecordBatch} (hpk : pkColumns ≠ []) (hne : new ≠ [])
    (hnew : Aligned pkColumns new) (hexisting : Aligned pkColumns existing)
    (h : mergeBatchesByPk env existing new pkColumns = .ok result) :
    (∃ s, Uniform s result) ∧ views result = upsert (pkKey env pkColumns) (views existing) (views new) ∧
      ∀ b ∈ existing, ∀ name ∈ pkColumns, (Schema.indexOf b.schema name).isSome = true := by
  obtain ⟨firstNew, restNew, rfl⟩ := List.exists_cons_of_ne_nil hne
  rw [mergeBatchesByPk, if_neg hpk] at h
  obtain ⟨newIndices, hnewRes, h⟩ := bind_ok h
  have hnewRes : ∀ b ∈ firstNew :: restNew, resolvePk .pkMissingFromNew b.schema pkColumns = .ok newIndices :=
    fun b hb => (resolvePk_congr (hnew b hb)).trans hnewRes
  have hkeys : ∀ newBatchKeys, (firstNew :: restNew).mapM (batchKeys env newIndices) = .ok newBatchKeys →
      List.Forall₂ (fun b keys =>
        List.Forall₂ (fun row key => pkKey env pkColumns (rowView b.schema row) = some key) b.rows keys)
        (firstNew :: restNew) newBatchKeys := fun newBatchKeys hmap =>
    forall₂_of_mem (mapM_ok hmap) fun b hb keys hbk => batchKeys_ok (hnewRes b hb) hbk
  cases existing with
  | nil =>
    obtain ⟨_, -, h⟩ := bind_ok h
    obtain ⟨newBatchKeys, hnewKeys, h⟩ := bind_ok h
    obtain ⟨kept, hkept, h⟩ := bind_ok h
    cases hkept
    obtain ⟨huni, hviews⟩ := reconcileSchemas_ok h
    rw [views_filter_rows, views_append, views_deduped (hkeys newBatchKeys hnewKeys)] at hviews
    exact ⟨huni, hviews, fun b hb => absurd hb List.not_mem_nil⟩
  | cons firstExisting restExisting =>
    obtain ⟨indices, hres, h⟩ := bind_ok h
    obtain ⟨newBatchKeys, hnewKeys, h⟩ := bind_ok h
    obtain ⟨kept, hkept, h⟩ := bind_ok h
    obtain ⟨huni, hviews⟩ := reconcileSchemas_ok h
    have hnewKeys' := hkeys newBatchKeys hnewKeys
    have hres : ∀ b ∈ firstExisting :: restExisting,
        resolvePk .pkMissingFromExisting b.schema pkColumns = .ok indices :=
      fun b hb => (resolvePk_congr (hexisting b hb)).trans hres
    rw [views_filter_rows, views_append, views_deduped hnewKeys',
      views_kept hres (seenPks_isSome hnewKeys') hkept] at hviews
    exact ⟨huni, hviews, fun b hb => (resolvePk_ok (hres b hb)).2⟩

end Kept

end Pond

end Reiver
