import Reiver.Pond.Sync.MergeKeys

/-! # Merging batches whose columns are ordered differently

A merge looks the key columns up in the first batch of each side and reads the keys of all rows at those positions. It
is an update by the named key, whatever the rows are, exactly if the key columns stand at these positions in every batch
(`merge_byName_iff`). -/

namespace Reiver.Pond

variable {env : ArrowEnv} {pkColumns : List String} {existing new result : List RecordBatch}

/-- A merge that returns rows returns those of an update by the named key, and it does not panic. -/
def UpsertsByName (env : ArrowEnv) (pkColumns : List String) (existing new : List RecordBatch) : Prop :=
  match mergeBatchesByPk env existing new pkColumns with
  | .ok result => views result = upsert (namedKey env pkColumns) (views existing) (views new)
  | .error (.columnOutOfBounds _) => False
  | .error _ => True

/-- There is nothing new, or there are key columns and they stand in one place in the batches of each side. -/
def KeysInPlace (pkColumns : List String) (existing new : List RecordBatch) : Prop :=
  new = [] ∨ pkColumns ≠ [] ∧ Aligned pkColumns existing ∧ Aligned pkColumns new

def OneType (batches : List RecordBatch) : Prop :=
  ∀ b ∈ batches, ∀ f ∈ b.schema, ∀ b' ∈ batches, ∀ f' ∈ b'.schema, f.name = f'.name → f.dataType = f'.dataType

/-! ### What a merge fails with -/

section Failures
variable {P : MergeError → Prop} {schema : Schema} {batches : List RecordBatch} {b : RecordBatch} {indices : List Nat}

def Refused (e : MergeError) : Prop := ∀ idx, e ≠ .columnOutOfBounds idx

theorem resolvePk_failsWith {missing : List String → MergeError} (h : ∀ columns, P (missing columns)) :
    FailsWith P (resolvePk missing schema pkColumns) := by
  unfold resolvePk
  dsimp only
  split
  · exact .error (h _)
  · exact .ok _

theorem valueToString_failsWith (h : ∀ dataType, P (.unsupportedArrayType dataType)) (dataType : DataType) (v : Value) :
    FailsWith P (valueToString env dataType v) := by
  unfold valueToString
  split
  · exact .ok _
  · exact .ok _
  · split
    · exact .ok _
    · exact .error (h _)

theorem buildPkKey_failsWith (h : ∀ dataType, P (.unsupportedArrayType dataType))
    (cells : List (Option (DataType × Value))) : FailsWith P (buildPkKey env cells) := by
  refine (FailsWith.mapM fun cell _ => ?_).bind fun _ _ => .ok _
  cases cell with
  | none => exact .ok _
  | some cell => exact (valueToString_failsWith h cell.1 cell.2).bind fun _ _ => .ok _

theorem reconcileSchemas_failsWith (hmismatch : ∀ column a b, P (.schemaMismatch column a b))
    (hproject : P .projectFailed) : FailsWith P (reconcileSchemas batches) := by
  unfold reconcileSchemas
  split
  · exact .ok _
  · split
    · refine (FailsWith.foldlM (fun fields field _ => ?_) _).bind fun unified _ => .mapM fun b _ => ?_
      · unfold addField
        split
        · split
          · exact .error (hmismatch _ _ _)
          · split <;> exact .ok _
        · split <;> exact .ok _
      · unfold projectBatchToSchema
        split
        · exact .ok _
        · exact .error hproject
    · exact .ok _

/-- A merge fails in one of its passes. -/
theorem mergeBatchesByPk_failsWith
    (hnewRes : new ≠ [] → FailsWith P (resolvePk .pkMissingFromNew (firstSchema new) pkColumns))
    (hres : existing ≠ [] → FailsWith P (resolvePk .pkMissingFromExisting (firstSchema existing) pkColumns))
    (hnewKeys : ∀ indices, resolvePk .pkMissingFromNew (firstSchema new) pkColumns = .ok indices →
      ∀ b ∈ new, FailsWith P (batchKeys env indices b))
    (hkeys : ∀ indices, resolvePk .pkMissingFromExisting (firstSchema existing) pkColumns = .ok indices →
      ∀ b ∈ existing, FailsWith P (batchKeys env indices b))
    (hreconcile : ∀ indices newBatchKeys kept, existing.mapM (keepByKey env indices fun key =>
      !((seenPks newBatchKeys).lookup key).isSome) = .ok kept →
        FailsWith P (reconcileSchemas (mergedBatches kept new newBatchKeys))) :
    FailsWith P (mergeBatchesByPk env existing new pkColumns) := by
  unfold mergeBatchesByPk
  split
  · exact .ok _
  · cases new with
    | nil => exact .ok _
    | cons firstNew restNew =>
      refine FailsWith.bind (hnewRes (List.cons_ne_nil _ _)) fun newIndices hnewIndices => ?_
      have hrest : ∀ indices, (∀ b ∈ existing, FailsWith P (batchKeys env indices b)) → FailsWith P (do
          let newBatchKeys ← (firstNew :: restNew).mapM (batchKeys env newIndices)
          let kept ← existing.mapM (keepByKey env indices fun key => !((seenPks newBatchKeys).lookup key).isSome)
          reconcileSchemas (mergedBatches kept (firstNew :: restNew) newBatchKeys)) := fun indices hindices =>
        (FailsWith.mapM (hnewKeys newIndices hnewIndices)).bind fun newBatchKeys _ =>
          (FailsWith.mapM fun b hb => (hindices b hb).bind fun _ _ => .ok _).bind fun kept hkept =>
            hreconcile indices newBatchKeys kept hkept
      cases existing with
      | nil => exact FailsWith.bind (.ok _) fun indices _ => hrest indices fun b hb => absurd hb List.not_mem_nil
      | cons firstExisting restExisting =>
        exact FailsWith.bind (hres (List.cons_ne_nil _ _)) fun indices hindices =>
          hrest indices (hkeys indices hindices)

theorem batchKeys_refused {missing : List String → MergeError}
    (h : resolvePk missing b.schema pkColumns = .ok indices) :
    FailsWith Refused (batchKeys env indices b) := by
  obtain ⟨fields, hfields⟩ := resolvePk_columns h
  rw [batchKeys, hfields]
  refine FailsWith.mapM fun row _ => ?_
  rw [rowKey_eq h]
  exact buildPkKey_failsWith (fun _ _ h => MergeError.noConfusion h) _

end Failures

/-! ### Columns that stand in place -/

theorem Aligned.resolvePk_eq {missing : List String → MergeError} {batches : List RecordBatch} {indices : List Nat}
    (h : Aligned pkColumns batches) (hres : resolvePk missing (firstSchema batches) pkColumns = .ok indices)
    {b : RecordBatch} (hb : b ∈ batches) : resolvePk missing b.schema pkColumns = .ok indices :=
  (resolvePk_congr (h b hb)).trans hres

theorem upsert_pkKey {old new : List RowView} (hold : ∀ v ∈ old, (pkKey env pkColumns v).isSome = true)
    (hnew : ∀ v ∈ new, (pkKey env pkColumns v).isSome = true) :
    upsert (pkKey env pkColumns) old new = upsert (namedKey env pkColumns) old new := by
  refine upsert_congr fun a ha b hb => ?_
  obtain ⟨key, hkey⟩ := Option.isSome_iff_exists.mp ((List.mem_append.mp ha).elim (hold a) (hnew a))
  obtain ⟨key', hkey'⟩ := Option.isSome_iff_exists.mp (hnew b hb)
  rw [hkey, hkey', Option.some_inj, pkKey_eq_iff hkey' hkey]

theorem Aligned.isSome_pkKey {missing : List String → MergeError} {batches : List RecordBatch} {indices : List Nat}
    {keys : List (List String)} (h : Aligned pkColumns batches)
    (hres : batches ≠ [] → resolvePk missing (firstSchema batches) pkColumns = .ok indices)
    (hkeys : batches.mapM (batchKeys env indices) = .ok keys) :
    ∀ v ∈ views batches, (pkKey env pkColumns v).isSome = true := by
  refine forall_views.mpr fun b hb row hrow => ?_
  obtain ⟨bkeys, hbkeys⟩ := exists_mapM_ok.mp ⟨keys, hkeys⟩ b hb
  exact (batchKeys_isOk (h.resolvePk_eq (hres (List.ne_nil_of_mem hb)) hb)).mp ⟨bkeys, hbkeys⟩ row hrow

theorem KeysInPlace.upsertsByName (h : KeysInPlace pkColumns existing new) (env : ArrowEnv) :
    UpsertsByName env pkColumns existing new := by
  rw [UpsertsByName]
  rcases h with rfl | ⟨hpk, hexisting, hnew⟩
  · have hmerge : mergeBatchesByPk env existing [] pkColumns = .ok existing := by
      rw [mergeBatchesByPk]
      split
      · rw [List.append_nil]
      · rfl
    rw [hmerge]
    exact (upsert_nil_right _).symm
  have hrefused : FailsWith Refused (mergeBatchesByPk env existing new pkColumns) := by
    refine mergeBatchesByPk_failsWith (fun _ => resolvePk_failsWith fun _ _ h => MergeError.noConfusion h)
      (fun _ => resolvePk_failsWith fun _ _ h => MergeError.noConfusion h)
      (fun indices hres b hb => batchKeys_refused (hnew.resolvePk_eq hres hb))
      (fun indices hres b hb => batchKeys_refused (hexisting.resolvePk_eq hres hb)) fun _ _ _ _ =>
        reconcileSchemas_failsWith (fun _ _ _ _ h => MergeError.noConfusion h) fun _ h => MergeError.noConfusion h
  cases hmerge : mergeBatchesByPk env existing new pkColumns with
  | error e =>
    cases e with
    | columnOutOfBounds idx => exact absurd rfl (hrefused _ hmerge idx)
    | _ => trivial
  | ok result =>
    by_cases hne : new = []
    · subst hne
      rw [mergeBatchesByPk, if_neg hpk] at hmerge
      cases hmerge
      exact (upsert_nil_right _).symm
    obtain ⟨newIndices, indices, newBatchKeys, kept, hnewRes, hres, hnewKeys, hkept, -⟩ :=
      (mergeBatchesByPk_eq hpk hne).mp hmerge
    obtain ⟨keys, hkeys⟩ : ∃ keys, existing.mapM (batchKeys env indices) = .ok keys := by
      refine exists_mapM_ok.mpr fun b hb => ?_
      obtain ⟨b', hb'⟩ := exists_mapM_ok.mp ⟨kept, hkept⟩ b hb
      obtain ⟨keys, hkeys, -⟩ := bind_ok hb'
      exact ⟨keys, hkeys⟩
    show views result = _
    rw [(mergeBatchesByPk_ok hpk hne hnew hexisting hmerge).2.1]
    exact upsert_pkKey (hexisting.isSome_pkKey hres hkeys) (hnew.isSome_pkKey (fun _ => hnewRes) hnewKeys)

/-! ### Schemas that can be unified -/

section Marks
variable {batches : List RecordBatch} {schema : Schema}

/-- A field of the batches; a column that some batch lacks is nullable. -/
def FieldOf (batches : List RecordBatch) (f : Field) : Prop :=
  (∃ b ∈ batches, ∃ g ∈ b.schema, g.name = f.name ∧ g.dataType = f.dataType) ∧
    (f.nullable ∨ ∀ b ∈ batches, (Schema.indexOf b.schema f.name).isSome = true)

theorem addField_fieldOf {fields fields' : Schema} {field : Field} (h : addField batches fields field = .ok fields')
    (hfields : ∀ f ∈ fields, FieldOf batches f) {b : RecordBatch} (hb : b ∈ batches) (hfield : field ∈ b.schema) :
    ∀ f ∈ fields', FieldOf batches f := by
  unfold addField at h
  split at h
  · split at h
    · cases h
    · split at h <;> cases h
      · intro f hf
        obtain ⟨g, hg, rfl⟩ := List.mem_map.mp hf
        split
        · exact ⟨(hfields g hg).1, .inl rfl⟩
        · exact hfields g hg
      · exact hfields
  · split at h <;> cases h
    · next hall =>
      intro f hf
      rcases List.mem_append.mp hf with hf | hf
      · exact hfields f hf
      · rw [List.mem_singleton.mp hf]
        exact ⟨⟨b, hb, field, hfield, rfl, rfl⟩, .inr (List.all_eq_true.mp hall)⟩
    · intro f hf
      rcases List.mem_append.mp hf with hf | hf
      · exact hfields f hf
      · rw [List.mem_singleton.mp hf]
        exact ⟨⟨b, hb, field, hfield, rfl, rfl⟩, .inl rfl⟩

theorem unifyBatchSchemas_isOk (htypes : OneType batches) :
    ∃ unified, unifyBatchSchemas batches = .ok unified ∧ ∀ f ∈ unified, FieldOf batches f := by
  have hkeep : ∀ done field rest, batches.flatMap (·.schema) = done ++ field :: rest → ∀ fields fields' : Schema,
      (∀ f ∈ fields, FieldOf batches f) → addField batches fields field = .ok fields' →
        ∀ f ∈ fields', FieldOf batches f := by
    intro done field rest hsplit fields fields' hfields hadd
    obtain ⟨b, hb, hfield⟩ := List.mem_flatMap.mp (hsplit ▸ List.mem_append_right done List.mem_cons_self)
    exact addField_fieldOf hadd hfields hb hfield
  have hok : ∃ unified, unifyBatchSchemas batches = .ok unified := by
    refine (foldlM_ok_iff (I := fun _ fields => ∀ f ∈ fields, FieldOf batches f) (G := fun _ _ => True)
      (fun _ hf => absurd hf List.not_mem_nil) hkeep fun done field rest hsplit fields hfields => ?_).mpr
      fun _ _ _ _ => trivial
    refine iff_of_true ?_ trivial
    obtain ⟨b, hb, hfield⟩ := List.mem_flatMap.mp (hsplit ▸ List.mem_append_right done List.mem_cons_self)
    unfold addField
    split
    · next existing hexisting =>
      obtain ⟨⟨b', hb', g, hg, hname, htype⟩, -⟩ := hfields existing (List.mem_of_find?_eq_some hexisting)
      have hnames : existing.name = field.name := by simpa using List.find?_some hexisting
      rw [if_neg (not_not.mpr (htype.symm.trans (htypes b' hb' g hg b hb field hfield (hname.trans hnames))))]
      split <;> exact ⟨_, rfl⟩
    · split <;> exact ⟨_, rfl⟩
  obtain ⟨unified, hunified⟩ := hok
  exact ⟨unified, hunified, foldlM_inv (I := fun _ fields => ∀ f ∈ fields, FieldOf batches f)
    (fun _ hf => absurd hf List.not_mem_nil) hkeep hunified⟩

def Full (b : RecordBatch) : Prop := ∀ row ∈ b.rows, ∀ cell ∈ row, cell.isSome = true

theorem reconcileSchemas_isOk (htypes : OneType batches) (hfull : ∀ b ∈ batches, Full b) :
    ∃ result, reconcileSchemas batches = .ok result := by
  unfold reconcileSchemas
  split
  · exact ⟨[], rfl⟩
  · next first rest =>
    split
    · obtain ⟨unified, hunified, hfields⟩ := unifyBatchSchemas_isOk htypes
      rw [hunified]
      refine exists_mapM_ok.mpr fun b hb => ⟨_, if_pos (List.all_eq_true.mpr fun f hf => ?_)⟩
      obtain ⟨⟨b', hb', g, hg, hname, htype⟩, hnull⟩ := hfields f hf
      cases hindex : Schema.indexOf b.schema f.name with
      | none =>
        rcases hnull with hnull | hall
        · simp [hnull]
        · exact absurd hindex (Option.isSome_iff_ne_none.mp (hall b hb))
      | some i =>
        obtain ⟨field, hfield, hfieldName⟩ := indexOf_lt hindex
        have hsame : field.dataType = f.dataType :=
          (htypes b hb field (List.mem_of_getElem? hfield) b' hb' g hg (hfieldName.trans hname.symm)).trans htype
        have hcells : (b.rows.all fun row => (row[i]?).join.isSome) = true := by
          refine List.all_eq_true.mpr fun row hrow => ?_
          have hlt : i < row.length := by
            rw [b.wf row hrow]
            exact (List.getElem?_eq_some_iff.mp hfield).1
          rw [List.getElem?_eq_getElem hlt]
          exact hfull b hb row hrow _ (List.getElem_mem hlt)
        simp [hfield, hsame, hcells]
    · exact ⟨_, rfl⟩

theorem mem_mergedBatches {indices : List Nat} {p : String → Bool} {kept : List RecordBatch}
    {newBatchKeys : List (List String)} (hkept : existing.mapM (keepByKey env indices p) = .ok kept) :
    ∀ b ∈ mergedBatches kept new newBatchKeys, ∃ b' ∈ existing ++ new,
      b.schema = b'.schema ∧ ∀ row ∈ b.rows, row ∈ b'.rows := by
  have hfiltered : ∀ (b : RecordBatch) (mask : List Bool), ∀ row ∈ (b.filterRecordBatch mask).rows, row ∈ b.rows := by
    intro b mask row hrow
    obtain ⟨e, he, rfl⟩ := List.mem_map.mp hrow
    exact (List.of_mem_zip (List.mem_filter.mp he).1).1
  intro b hb
  rcases List.mem_append.mp (List.mem_filter.mp hb).1 with hb | hb
  · obtain ⟨b', hb', hkeep⟩ := exists_of_forall₂ (mapM_ok hkept) hb
    obtain ⟨keys, -, hkeep⟩ := bind_ok hkeep
    cases hkeep
    exact ⟨b', List.mem_append_left _ hb', rfl, hfiltered b' _⟩
  · obtain ⟨e, he, rfl⟩ := List.mem_map.mp hb
    exact ⟨e.1.1, List.mem_append_right _ (List.of_mem_zip (List.fst_mem_of_mem_zipIdx he)).1, rfl, hfiltered e.1.1 _⟩

/-! ### Rows with one marked cell -/

def printEnv : ArrowEnv where
  fmt _ v := some (match v with
    | .int i => toString i
    | .text s => s
    | .bits n => toString n)
  arrayMemorySize b := b.numRows
  rowsPerChunk rows _ _ := rows

def markValue (marked : Bool) : DataType → Value
  | .utf8 | .largeUtf8 => .text (if marked then "1" else "0")
  | .int8 | .int16 | .int32 | .int64 | .uint8 | .uint16 | .uint32 | .uint64 | .date32 | .date64 | .timestamp _ _ =>
    .int (if marked then 1 else 0)
  | _ => .bits (if marked then 1 else 0)

/-- A row whose cell at a position is marked, and no other. -/
def markRow (schema : Schema) (j : Nat) : BatchRow :=
  schema.zipIdx.map fun e => some (markValue (e.2 = j) e.1.dataType)

/-- A batch with a marked row for each of some positions. -/
def markBatch (schema : Schema) (marks : List Nat) : RecordBatch where
  schema := schema
  rows := marks.map (markRow schema)
  wf row hrow := by
    obtain ⟨j, -, rfl⟩ := List.mem_map.mp hrow
    rw [markRow, List.length_map, List.length_zipIdx]

theorem markBatch_full (schema : Schema) (marks : List Nat) : Full (markBatch schema marks) := by
  intro row hrow cell hcell
  obtain ⟨j, -, rfl⟩ := List.mem_map.mp hrow
  obtain ⟨e, -, rfl⟩ := List.mem_map.mp hcell
  rfl

theorem valueToString_markValue (marked : Bool) (dataType : DataType) :
    valueToString printEnv dataType (markValue marked dataType) =
      .ok (stableTypeTag dataType ++ ":" ++ if marked then "1" else "0") := by
  cases marked <;> cases dataType <;> rfl

theorem columnCell_markRow {field : Field} {i : Nat} (j : Nat) (h : schema[i]? = some field) :
    columnCell schema (markRow schema j) i = .ok (some (field.dataType, markValue (i = j) field.dataType)) := by
  have hcell : (markRow schema j)[i]? = some (some (markValue (i = j) field.dataType)) := by
    rw [markRow, List.getElem?_map, List.getElem?_zipIdx, h]
    simp
  rw [columnCell, column, h, hcell]
  rfl

theorem buildPkKey_ne {cells cells' : List (Option (DataType × Value))} {key key' : String} {k : Nat}
    {dataType dataType' : DataType} (hlength : cells.length = cells'.length)
    (hcell : cells[k]? = some (some (dataType, markValue false dataType)))
    (hcell' : cells'[k]? = some (some (dataType', markValue true dataType')))
    (h : buildPkKey printEnv cells = .ok key) (h' : buildPkKey printEnv cells' = .ok key') : key ≠ key' := by
  intro hkeys
  have htexts := congrArg (·[k]?) ((keys_eq_iff_texts hlength h h').mp hkeys)
  simp only [List.getElem?_map, hcell, hcell', Option.map_some, valueToString_markValue, Except.toOption,
    Option.some_inj] at htexts
  exact absurd (tagged_inj htexts).2 (by decide)

theorem rowKey_cells {schema : Schema} {indices : List Nat} {j : Nat} {key : String}
    (h : rowKey printEnv schema indices (markRow schema j) = .ok key) :
    ∃ cells : List (Option (DataType × Value)), cells.length = indices.length ∧ buildPkKey printEnv cells = .ok key ∧
      ∀ k i : Nat, indices[k]? = some i →
        ∃ dataType : DataType, cells[k]? = some (some (dataType, markValue (i = j) dataType)) := by
  obtain ⟨cells, hcells, hkey⟩ := bind_ok h
  have hall := mapM_ok hcells
  refine ⟨cells, hall.length_eq.symm, hkey, fun k i hi => ?_⟩
  obtain ⟨hlt, hget⟩ := List.getElem?_eq_some_iff.mp hi
  have hlt' : k < cells.length := hall.length_eq ▸ hlt
  have hcell := (List.forall₂_iff_get.mp hall).2 k hlt hlt'
  rw [List.get_eq_getElem, List.get_eq_getElem, hget] at hcell
  obtain ⟨field, hfield, -⟩ := bind_ok hcell
  have hschema : schema[i]? = some field := by
    rw [column] at hfield
    split at hfield <;> cases hfield
    assumption
  rw [columnCell_markRow j hschema] at hcell
  exact ⟨field.dataType, by rw [List.getElem?_eq_getElem hlt', ← Except.ok.inj hcell]⟩

/-- Two rows with a mark have different keys if some key column is read at the mark of one and beside that of the
    other. -/
theorem rowKey_ne {schema schema' : Schema} {indices indices' : List Nat} {i j j' k : Nat} {key key' : String}
    (hlength : indices.length = indices'.length) (hi : indices[k]? = some i) (hne : i ≠ j)
    (hj' : indices'[k]? = some j') (h : rowKey printEnv schema indices (markRow schema j) = .ok key)
    (h' : rowKey printEnv schema' indices' (markRow schema' j') = .ok key') : key ≠ key' := by
  obtain ⟨cells, hcells, hkey, hread⟩ := rowKey_cells h
  obtain ⟨cells', hcells', hkey', hread'⟩ := rowKey_cells h'
  obtain ⟨dataType, hcell⟩ := hread k i hi
  obtain ⟨dataType', hcell'⟩ := hread' k j' hj'
  rw [decide_eq_false hne] at hcell
  rw [decide_eq_true rfl] at hcell'
  exact buildPkKey_ne (hcells.trans (hlength.trans hcells'.symm)) hcell hcell' hkey hkey'

theorem rowView_markRow {name : String} {i : Nat} (j : Nat) (h : schema.indexOf name = some i) :
    ∃ field ∈ schema, field.name = name ∧
      rowView schema (markRow schema j) name = some (field.dataType, markValue (i = j) field.dataType) := by
  obtain ⟨field, hfield, hname⟩ := indexOf_lt h
  refine ⟨field, List.mem_of_getElem? hfield, hname, ?_⟩
  exact Except.ok.inj ((columnCell_indexOf h _).symm.trans (columnCell_markRow j hfield))

theorem indexOf_inj {name name' : String} {i : Nat} (h : schema.indexOf name = some i)
    (h' : schema.indexOf name' = some i) : name = name' := by
  obtain ⟨field, hfield, rfl⟩ := indexOf_lt h
  obtain ⟨field', hfield', rfl⟩ := indexOf_lt h'
  rw [hfield] at hfield'
  cases hfield'
  rfl

theorem namedKey_markRow {b b' : RecordBatch} {x : String} {j j' : Nat} (hb : b ∈ batches) (hb' : b' ∈ batches)
    (hkeys : ∀ b ∈ batches, ∀ name ∈ pkColumns, (Schema.indexOf b.schema name).isSome = true) (htypes : OneType batches)
    (hj : Schema.indexOf b.schema x = some j) (hj' : Schema.indexOf b'.schema x = some j') :
    namedKey printEnv pkColumns (rowView b.schema (markRow b.schema j)) =
      namedKey printEnv pkColumns (rowView b'.schema (markRow b'.schema j')) := by
  refine List.map_congr_left fun name hname => ?_
  obtain ⟨i, hi⟩ := Option.isSome_iff_exists.mp (hkeys b hb name hname)
  obtain ⟨i', hi'⟩ := Option.isSome_iff_exists.mp (hkeys b' hb' name hname)
  obtain ⟨field, hfield, hfieldName, hview⟩ := rowView_markRow j hi
  obtain ⟨field', hfield', hfieldName', hview'⟩ := rowView_markRow j' hi'
  have htype : field.dataType = field'.dataType :=
    htypes b hb field hfield b' hb' field' hfield' (hfieldName.trans hfieldName'.symm)
  have hmark : i = j ↔ i' = j' := by
    constructor
    · rintro rfl
      obtain rfl := indexOf_inj hi hj
      exact Option.some.inj (hi'.symm.trans hj')
    · rintro rfl
      obtain rfl := indexOf_inj hi' hj'
      exact Option.some.inj (hi.symm.trans hj)
  rw [hview, hview', htype, decide_eq_decide.mpr hmark]

end Marks

/-! ### What a merge computes -/

theorem views_kept_keys {indices : List Nat} {p : String → Bool} {kept : List RecordBatch}
    (h : existing.mapM (keepByKey env indices p) = .ok kept) :
    ∃ keys, existing.mapM (batchKeys env indices) = .ok keys ∧
      views kept = (((existing.zip keys).flatMap fun e => keyedRows e.1 e.2).filter fun e => p e.1).map Prod.snd := by
  induction existing generalizing kept with
  | nil =>
    cases h
    exact ⟨[], rfl, rfl⟩
  | cons b existing ih =>
    obtain ⟨b', kept, hb, hkept, rfl⟩ := mapM_cons_ok h
    obtain ⟨keys, hkeys, hb⟩ := bind_ok hb
    cases hb
    obtain ⟨keysList, hkeysList, hviews⟩ := ih hkept
    refine ⟨keys :: keysList, by rw [List.mapM_cons, hkeys, hkeysList]; rfl, ?_⟩
    rw [views_cons, hviews, List.zip_cons_cons, List.flatMap_cons, List.filter_append, List.map_append]
    have hhead : (b.filterRecordBatch (keys.map p)).rows.map (rowView b.schema) =
        ((keyedRows b keys).filter fun e => p e.1).map Prod.snd := filterRecordBatch_keys p
    exact congrArg (· ++ _) hhead

theorem batchKeys_length {indices : List Nat} {batches : List RecordBatch} {keys : List (List String)}
    (h : batches.mapM (batchKeys env indices) = .ok keys) :
    List.Forall₂ (fun b keys => b.rows.length = keys.length) batches keys :=
  (mapM_ok h).imp fun _ _ hb => (mapM_ok (batchKeys_eq_ok.mp hb).2).length_eq

/-- The key of a row at some positions, with the row. -/
def positionalRow (env : ArrowEnv) (indices : List Nat) (schema : Schema) (row : BatchRow) : Option String × RowView :=
  ((rowKey env schema indices row).toOption, rowView schema row)

theorem keyedRows_positional {batches : List RecordBatch} {keys : List (List String)} {indices : List Nat}
    (h : batches.mapM (batchKeys env indices) = .ok keys) :
    ((batches.zip keys).flatMap fun e => keyedRows e.1 e.2).map (fun e => (some e.1, e.2)) =
      rowsBy (positionalRow env indices) batches := by
  have hrows : ∀ (schema : Schema) (rows : List BatchRow) (bkeys : List String),
      List.Forall₂ (fun row key => rowKey env schema indices row = .ok key) rows bkeys →
      ((rows.zip bkeys).map fun e => (e.2, rowView schema e.1)).map (fun e => (some e.1, e.2)) =
        rows.map (positionalRow env indices schema) := by
    intro schema rows bkeys hrows
    induction hrows with
    | nil => rfl
    | cons hrow _ ih =>
      rw [List.zip_cons_cons, List.map_cons, List.map_cons, List.map_cons, ih, positionalRow, hrow]
      rfl
  have hall := mapM_ok h
  clear h
  induction hall with
  | nil => rfl
  | cons hb _ ih =>
    rw [List.zip_cons_cons, List.flatMap_cons, rowsBy_cons, List.map_append, ih,
      ← hrows _ _ _ (mapM_ok (batchKeys_eq_ok.mp hb).2)]
    rfl

theorem views_keyed (hpk : pkColumns ≠ []) (hne : new ≠ [])
    (h : mergeBatchesByPk env existing new pkColumns = .ok result) :
    ∃ newIndices indices, ∃ oldRows newRows : List KeyedRow,
      newIndices = pkColumns.filterMap (firstSchema new).indexOf ∧
      (existing ≠ [] → indices = pkColumns.filterMap (firstSchema existing).indexOf) ∧
      oldRows.map (fun e => (some e.1, e.2)) = rowsBy (positionalRow env indices) existing ∧
      newRows.map (fun e => (some e.1, e.2)) = rowsBy (positionalRow env newIndices) new ∧
      views result = (upsert Prod.fst oldRows newRows).map Prod.snd := by
  obtain ⟨newIndices, indices, newBatchKeys, kept, hnewRes, hres, hnewKeys, hkept, hresult⟩ :=
    (mergeBatchesByPk_eq hpk hne).mp h
  obtain ⟨keys, hkeys, hviews⟩ := views_kept_keys hkept
  have hlength := batchKeys_length hnewKeys
  refine ⟨newIndices, indices, _, _, (resolvePk_ok hnewRes).1, fun hne => (resolvePk_ok (hres hne)).1,
    keyedRows_positional hkeys, keyedRows_positional hnewKeys, ?_⟩
  rw [(reconcileSchemas_ok hresult).2, mergedBatches, views_filter_rows, views_append, hviews, upsert, List.map_append]
  refine congrArg₂ (· ++ ·) (congrArg (List.map Prod.snd) (List.filter_congr fun e _ => ?_))
    (views_deduped_keys hlength)
  rw [decide_not]
  exact congrArg _ (Bool.eq_iff_iff.mpr ((seenPks_isSome_keys hlength e.1).trans decide_eq_true_iff.symm))

/-! ### Columns that do not stand in place -/

section Misplaced

def blank (batches : List RecordBatch) : List RecordBatch := batches.map fun b => markBatch b.schema []

/-- One batch with a marked row among batches without rows. -/
def withMark (before : List RecordBatch) (b : RecordBatch) (j : Nat) (after : List RecordBatch) : List RecordBatch :=
  blank before ++ markBatch b.schema [j] :: blank after

variable {β : Type} {f : Schema → BatchRow → β} {before after batches batches' : List RecordBatch} {b : RecordBatch}
  {j : Nat}

theorem rowsBy_blank : rowsBy f (blank batches) = [] := by
  rw [rowsBy, blank, List.flatMap_map]
  exact List.flatMap_eq_nil_iff.mpr fun _ _ => rfl

theorem rowsBy_withMark : rowsBy f (withMark before b j after) = [f b.schema (markRow b.schema j)] := by
  rw [withMark, rowsBy_append, rowsBy_blank, rowsBy_cons, rowsBy_blank]
  rfl

theorem sameColumns_blank : SameColumns batches (blank batches) := by
  rw [SameColumns, blank, List.map_map]
  rfl

theorem sameColumns_withMark : SameColumns (before ++ b :: after) (withMark before b j after) := by
  rw [SameColumns, withMark, List.map_append, List.map_append, List.map_cons, List.map_cons]
  exact congrArg₂ (· ++ ·) sameColumns_blank (congrArg _ sameColumns_blank)

theorem SameColumns.firstSchema_eq (h : SameColumns batches batches') : firstSchema batches' = firstSchema batches := by
  have hhead := congrArg List.head? h
  rw [List.head?_map, List.head?_map] at hhead
  rw [firstSchema, firstSchema, hhead]

theorem SameColumns.append {old old' new new' : List RecordBatch} (hold : SameColumns old old')
    (hnew : SameColumns new new') : SameColumns (old ++ new) (old' ++ new') := by
  rw [SameColumns, List.map_append, List.map_append]
  exact congrArg₂ (· ++ ·) hold hnew

theorem SameColumns.exists_mem (h : SameColumns batches batches') {b' : RecordBatch} (hb' : b' ∈ batches') :
    ∃ b ∈ batches, b.schema = b'.schema := by
  have hmem : b'.schema ∈ batches.map (·.schema) := by
    rw [h]
    exact List.mem_map_of_mem hb'
  exact List.mem_map.mp hmem

theorem SameColumns.append_keys {old old' new new' : List RecordBatch} (hold : SameColumns old old')
    (hnew : SameColumns new new')
    (h : ∀ b ∈ old ++ new, ∀ name ∈ pkColumns, (Schema.indexOf b.schema name).isSome = true) :
    ∀ b ∈ old' ++ new', ∀ name ∈ pkColumns, (Schema.indexOf b.schema name).isSome = true := by
  intro b' hb'
  obtain ⟨b, hb, hschema⟩ := (hold.append hnew).exists_mem hb'
  rw [← hschema]
  exact h b hb

theorem SameColumns.append_oneType {old old' new new' : List RecordBatch} (hold : SameColumns old old')
    (hnew : SameColumns new new') (h : OneType (old ++ new)) : OneType (old' ++ new') := by
  intro b hb f hf b' hb' f' hf' hname
  obtain ⟨c, hc, hschema⟩ := (hold.append hnew).exists_mem hb
  obtain ⟨c', hc', hschema'⟩ := (hold.append hnew).exists_mem hb'
  exact h c hc f (hschema ▸ hf) c' hc' f' (hschema' ▸ hf') hname

theorem firstSchema_keys (hne : batches ≠ [])
    (h : ∀ b ∈ batches, ∀ name ∈ pkColumns, (Schema.indexOf b.schema name).isSome = true) :
    ∀ name ∈ pkColumns, ((firstSchema batches).indexOf name).isSome = true := by
  obtain ⟨first, rest, rfl⟩ := List.exists_cons_of_ne_nil hne
  exact h first List.mem_cons_self

theorem full_blank : ∀ b ∈ blank batches, Full b := by
  rintro b hb
  obtain ⟨b', -, rfl⟩ := List.mem_map.mp hb
  exact markBatch_full _ _

theorem full_withMark : ∀ b' ∈ withMark before b j after, Full b' := by
  intro b' hb'
  rcases List.mem_append.mp hb' with hb' | hb'
  · exact full_blank b' hb'
  · rcases List.mem_cons.mp hb' with rfl | hb'
    · exact markBatch_full _ _
    · exact full_blank b' hb'

def Panics (e : MergeError) : Prop := ∃ idx, e = .columnOutOfBounds idx

theorem batchKeys_panics (indices : List Nat) (b : RecordBatch) : FailsWith Panics (batchKeys printEnv indices b) := by
  have hcolumn : ∀ idx, FailsWith Panics (column b.schema idx) := by
    intro idx
    unfold column
    split
    · exact .ok _
    · exact .error ⟨idx, rfl⟩
  refine (FailsWith.mapM fun idx _ => hcolumn idx).bind fun _ _ => .mapM fun row _ => ?_
  refine (FailsWith.mapM fun idx _ => (hcolumn idx).bind fun _ _ => .ok _).bind fun cells _ => ?_
  refine (FailsWith.mapM fun cell _ => ?_).bind fun _ _ => .ok _
  cases cell with
  | none => exact .ok _
  | some cell =>
    refine FailsWith.bind ?_ fun _ _ => .ok _
    show FailsWith Panics (valueToString printEnv cell.1 cell.2)
    unfold valueToString
    split <;> exact .ok _

theorem merge_panics (hkeys : ∀ b ∈ existing ++ new, ∀ name ∈ pkColumns,
      (Schema.indexOf b.schema name).isSome = true)
    (htypes : OneType (existing ++ new)) (hfull : ∀ b ∈ existing ++ new, Full b) :
    FailsWith Panics (mergeBatchesByPk printEnv existing new pkColumns) := by
  have hresolve : ∀ (missing : List String → MergeError) (batches : List RecordBatch), batches ⊆ existing ++ new →
      batches ≠ [] → FailsWith Panics (resolvePk missing (firstSchema batches) pkColumns) := by
    intro missing batches hsubset hne
    obtain ⟨first, rest, rfl⟩ := List.exists_cons_of_ne_nil hne
    obtain ⟨indices, hindices⟩ : ∃ indices, resolvePk missing first.schema pkColumns = .ok indices :=
      resolvePk_isOk.mpr (hkeys first (hsubset List.mem_cons_self))
    rw [firstSchema, List.head?_cons, Option.map_some, Option.getD_some, hindices]
    exact .ok _
  refine mergeBatchesByPk_failsWith (hresolve _ new (List.subset_append_right _ _))
    (hresolve _ existing (List.subset_append_left _ _)) (fun _ _ b _ => batchKeys_panics _ b)
    (fun _ _ b _ => batchKeys_panics _ b) fun indices newBatchKeys kept hkept => ?_
  have hmem := @mem_mergedBatches _ existing new _ _ _ newBatchKeys hkept
  have htypes' : OneType (mergedBatches kept new newBatchKeys) := by
    intro b hb g hg b' hb' g' hg' hname
    obtain ⟨c, hc, hschema, -⟩ := hmem b hb
    obtain ⟨c', hc', hschema', -⟩ := hmem b' hb'
    exact htypes c hc g (hschema ▸ hg) c' hc' g' (hschema' ▸ hg') hname
  obtain ⟨result, hresult⟩ := reconcileSchemas_isOk htypes' fun b hb row hrow => by
    obtain ⟨c, hc, -, hrows⟩ := hmem b hb
    exact hfull c hc row (hrows row hrow)
  rw [hresult]
  exact .ok _

theorem exists_ok_of_upsertsByName (hpanics : FailsWith Panics (mergeBatchesByPk env existing new pkColumns))
    (h : UpsertsByName env pkColumns existing new) :
    ∃ result, mergeBatchesByPk env existing new pkColumns = .ok result ∧
      views result = upsert (namedKey env pkColumns) (views existing) (views new) := by
  rw [UpsertsByName] at h
  cases hmerge : mergeBatchesByPk env existing new pkColumns with
  | ok result =>
    rw [hmerge] at h
    exact ⟨result, rfl, h⟩
  | error e =>
    obtain ⟨idx, rfl⟩ := hpanics e hmerge
    rw [hmerge] at h
    exact h.elim

theorem filterMap_indexOf {schema : Schema} (h : ∀ name ∈ pkColumns, (schema.indexOf name).isSome = true) :
    pkColumns.filterMap schema.indexOf = pkColumns.map fun name => (schema.indexOf name).getD 0 := by
  refine List.filterMap_eq_map_iff_forall_eq_some.mpr fun name hname => ?_
  obtain ⟨i, hi⟩ := Option.isSome_iff_exists.mp (h name hname)
  rw [hi, Option.getD_some]

theorem rowKey_of_positionalRow {indices : List Nat} {schema : Schema} {row : BatchRow} {e : KeyedRow}
    (h : (some e.1, e.2) = positionalRow env indices schema row) : rowKey env schema indices row = .ok e.1 :=
  ok_of_toOption (Prod.mk.inj h).1.symm

theorem positional_ne {schema schema' first first' : Schema} {x : String} {j' : Nat} {e e' : KeyedRow}
    (hfirst : ∀ name ∈ pkColumns, (first.indexOf name).isSome = true)
    (hfirst' : ∀ name ∈ pkColumns, (first'.indexOf name).isSome = true) (hx : x ∈ pkColumns)
    (hne : first.indexOf x ≠ some j) (hj' : first'.indexOf x = some j')
    (he : (some e.1, e.2) = positionalRow printEnv (pkColumns.filterMap first.indexOf) schema (markRow schema j))
    (he' : (some e'.1, e'.2) =
      positionalRow printEnv (pkColumns.filterMap first'.indexOf) schema' (markRow schema' j')) :
    e.1 ≠ e'.1 := by
  obtain ⟨k, hk⟩ := List.mem_iff_getElem?.mp hx
  obtain ⟨i, hi⟩ := Option.isSome_iff_exists.mp (hfirst x hx)
  have hread : (pkColumns.filterMap first.indexOf)[k]? = some i := by
    rw [filterMap_indexOf hfirst, List.getElem?_map, hk, Option.map_some, hi, Option.getD_some]
  have hread' : (pkColumns.filterMap first'.indexOf)[k]? = some j' := by
    rw [filterMap_indexOf hfirst', List.getElem?_map, hk, Option.map_some, hj', Option.getD_some]
  refine rowKey_ne ?_ hread (fun hij => hne (hi.trans (congrArg some hij))) hread' (rowKey_of_positionalRow he)
    (rowKey_of_positionalRow he')
  rw [filterMap_indexOf hfirst, filterMap_indexOf hfirst', List.length_map, List.length_map]

/-- An existing row with the named key of a new one stays if a key column is read beside it. -/
theorem not_upsertsByName_existing {first : RecordBatch} {rest : List RecordBatch} {x : String} {jNew : Nat}
    (hkeys : ∀ b' ∈ (before ++ b :: after) ++ first :: rest, ∀ name ∈ pkColumns,
      (Schema.indexOf b'.schema name).isSome = true)
    (htypes : OneType ((before ++ b :: after) ++ first :: rest)) (hx : x ∈ pkColumns)
    (hj : Schema.indexOf b.schema x = some j) (hjNew : Schema.indexOf first.schema x = some jNew)
    (hne : (firstSchema (before ++ b :: after)).indexOf x ≠ some j) :
    ¬UpsertsByName printEnv pkColumns (withMark before b j after) (withMark [] first jNew rest) := by
  intro hupserts
  have hpk : pkColumns ≠ [] := List.ne_nil_of_mem hx
  have hold := @sameColumns_withMark before after b j
  have hnew := @sameColumns_withMark [] rest first jNew
  have hpanics := merge_panics (hold.append_keys hnew hkeys) (hold.append_oneType hnew htypes) fun b' hb' =>
    (List.mem_append.mp hb').elim (full_withMark b') (full_withMark b')
  obtain ⟨result, hmerge, hnamed⟩ := exists_ok_of_upsertsByName hpanics hupserts
  obtain ⟨newIndices, indices, oldRows, newRows, hnewIndices, hindices, holdRows, hnewRows, hviews⟩ :=
    views_keyed hpk (List.cons_ne_nil _ _) hmerge
  have hindices := hindices (List.append_ne_nil_of_right_ne_nil _ (List.cons_ne_nil _ _))
  rw [hold.firstSchema_eq] at hindices
  have hnewIndices : newIndices = pkColumns.filterMap (Schema.indexOf first.schema) := hnewIndices
  subst hindices hnewIndices
  obtain ⟨e, rfl, he⟩ := List.map_eq_singleton_iff.mp (holdRows.trans rowsBy_withMark)
  obtain ⟨e', rfl, he'⟩ := List.map_eq_singleton_iff.mp (hnewRows.trans (@rowsBy_withMark _ _ [] _ _ _))
  have hfirst : ∀ name ∈ pkColumns, ((firstSchema (before ++ b :: after)).indexOf name).isSome = true :=
    firstSchema_keys (List.append_ne_nil_of_right_ne_nil _ (List.cons_ne_nil _ _))
      fun b' hb' => hkeys b' (List.mem_append_left _ hb')
  have hfirst' : ∀ name ∈ pkColumns, (Schema.indexOf first.schema name).isSome = true :=
    hkeys first (List.mem_append_right _ List.mem_cons_self)
  have hkeysNe : e.1 ≠ e'.1 := positional_ne hfirst hfirst' hx hne hjNew he he'
  have hone : views (withMark before b j after) = [rowView b.schema (markRow b.schema j)] := rowsBy_withMark
  have hone' : views (withMark [] first jNew rest) = [rowView first.schema (markRow first.schema jNew)] :=
    rowsBy_withMark
  have hsame := namedKey_markRow (List.mem_append_left _ (List.mem_append_right _ List.mem_cons_self))
    (List.mem_append_right _ List.mem_cons_self) hkeys htypes hj hjNew
  have hlength := congrArg List.length (hviews.symm.trans hnamed)
  rw [hone, hone'] at hlength
  simp [upsert, keepLast, hkeysNe.symm, hsame] at hlength

/-- Two new rows of one named key both stay if a key column of one is read beside it. -/
theorem not_upsertsByName_new {first : RecordBatch} {x : String} {jFirst : Nat}
    (hkeys : ∀ b' ∈ existing ++ first :: (before ++ b :: after), ∀ name ∈ pkColumns,
      (Schema.indexOf b'.schema name).isSome = true)
    (htypes : OneType (existing ++ first :: (before ++ b :: after))) (hx : x ∈ pkColumns)
    (hj : Schema.indexOf b.schema x = some j) (hjFirst : Schema.indexOf first.schema x = some jFirst)
    (hne : jFirst ≠ j) :
    ¬UpsertsByName printEnv pkColumns (blank existing)
      (markBatch first.schema [jFirst] :: withMark before b j after) := by
  intro hupserts
  have hpk : pkColumns ≠ [] := List.ne_nil_of_mem hx
  have hold := @sameColumns_blank existing
  have hnew : SameColumns (first :: (before ++ b :: after))
      (markBatch first.schema [jFirst] :: withMark before b j after) := congrArg (_ :: ·) sameColumns_withMark
  have hpanics := merge_panics (hold.append_keys hnew hkeys) (hold.append_oneType hnew htypes) fun b' hb' =>
    (List.mem_append.mp hb').elim (full_blank b') fun hb' =>
      (List.mem_cons.mp hb').elim (fun h => h ▸ markBatch_full _ _) (full_withMark b')
  obtain ⟨result, hmerge, hnamed⟩ := exists_ok_of_upsertsByName hpanics hupserts
  obtain ⟨newIndices, indices, oldRows, newRows, hnewIndices, -, holdRows, hnewRows, hviews⟩ :=
    views_keyed hpk (List.cons_ne_nil _ _) hmerge
  have hnewIndices : newIndices = pkColumns.filterMap (Schema.indexOf first.schema) := hnewIndices
  subst hnewIndices
  rw [rowsBy_blank, List.map_eq_nil_iff] at holdRows
  subst holdRows
  have hrows : rowsBy (positionalRow printEnv (pkColumns.filterMap (Schema.indexOf first.schema)))
      (markBatch first.schema [jFirst] :: withMark before b j after) = [positionalRow printEnv
        (pkColumns.filterMap (Schema.indexOf first.schema)) first.schema (markRow first.schema jFirst),
        positionalRow printEnv (pkColumns.filterMap (Schema.indexOf first.schema)) b.schema (markRow b.schema j)] := by
    rw [rowsBy_cons, rowsBy_withMark]
    rfl
  obtain ⟨e', newRows, rfl, he', hnewRows⟩ := List.map_eq_cons_iff.mp (hnewRows.trans hrows)
  obtain ⟨e, rfl, he⟩ := List.map_eq_singleton_iff.mp hnewRows
  have hfirst : ∀ name ∈ pkColumns, (Schema.indexOf first.schema name).isSome = true :=
    hkeys first (List.mem_append_right _ List.mem_cons_self)
  have hkeysNe : e.1 ≠ e'.1 :=
    positional_ne hfirst hfirst hx (fun h => hne (Option.some.inj (hjFirst.symm.trans h))) hjFirst he he'
  have hnone : views (blank existing) = [] := rowsBy_blank
  have htwo : views (markBatch first.schema [jFirst] :: withMark before b j after) =
      [rowView first.schema (markRow first.schema jFirst), rowView b.schema (markRow b.schema j)] := by
    have hone : views (withMark before b j after) = [rowView b.schema (markRow b.schema j)] := rowsBy_withMark
    rw [views_cons, hone]
    rfl
  have hmem : b ∈ existing ++ first :: (before ++ b :: after) :=
    List.mem_append_right _ (List.mem_cons_of_mem _ (List.mem_append_right _ List.mem_cons_self))
  have hsame := namedKey_markRow hmem (List.mem_append_right _ List.mem_cons_self) hkeys htypes hj hjFirst
  have hlength := congrArg List.length (hviews.symm.trans hnamed)
  rw [hnone, htwo] at hlength
  simp [upsert, keepLast, hkeysNe, hsame] at hlength

theorem not_upsertsByName_keyless (first : RecordBatch) (rest : List RecordBatch) :
    ¬UpsertsByName printEnv [] (blank existing) (markBatch first.schema [0, 0] :: blank rest) := by
  intro h
  have h : views (blank existing ++ markBatch first.schema [0, 0] :: blank rest) =
    upsert (namedKey printEnv []) (views (blank existing)) (views (markBatch first.schema [0, 0] :: blank rest)) := h
  have hnone : ∀ batches, views (blank batches) = [] := fun _ => rowsBy_blank
  have hlength := congrArg List.length h
  rw [views_append, views_cons, hnone, hnone] at hlength
  simp [markBatch, upsert, keepLast, namedKey] at hlength

theorem KeysInPlace.congr {existing' new' : List RecordBatch} (h : KeysInPlace pkColumns existing new)
    (hexisting : SameColumns existing existing') (hnew : SameColumns new new') :
    KeysInPlace pkColumns existing' new' := by
  have haligned : ∀ {batches batches' : List RecordBatch}, SameColumns batches batches' → Aligned pkColumns batches →
      Aligned pkColumns batches' := fun hsame haligned => haligned.of_schemas fun b' hb' =>
    (hsame.exists_mem hb').imp fun b hb => ⟨hb.1, hb.2.symm⟩
  rcases h with rfl | ⟨hpk, hold, hrows⟩
  · exact .inl (List.map_eq_nil_iff.mp hnew.symm)
  · exact .inr ⟨hpk, haligned hexisting hold, haligned hnew hrows⟩

/-- Columns with which every merge is an update by name stand in place. -/
theorem keysInPlace_of_upsertsByName
    (hkeys : ∀ b ∈ existing ++ new, ∀ name ∈ pkColumns, (Schema.indexOf b.schema name).isSome = true)
    (htypes : OneType (existing ++ new))
    (h : ∀ existing' new', SameColumns existing existing' → SameColumns new new' →
      UpsertsByName printEnv pkColumns existing' new') : KeysInPlace pkColumns existing new := by
  by_contra hplace
  obtain ⟨hne, hplace⟩ := not_or.mp hplace
  obtain ⟨first, rest, rfl⟩ := List.exists_cons_of_ne_nil hne
  by_cases hpk : pkColumns = []
  · subst hpk
    exact not_upsertsByName_keyless first rest
      (h _ _ sameColumns_blank (congrArg (first.schema :: ·) sameColumns_blank))
  have hindex : ∀ b ∈ existing ++ first :: rest, ∀ name ∈ pkColumns, ∃ i, Schema.indexOf b.schema name = some i :=
    fun b hb name hname => Option.isSome_iff_exists.mp (hkeys b hb name hname)
  by_cases hexisting : Aligned pkColumns existing
  · have hnew : ¬Aligned pkColumns (first :: rest) := fun hnew => hplace ⟨hpk, hexisting, hnew⟩
    simp only [Aligned, not_forall] at hnew
    obtain ⟨b, hb, x, hx, hne⟩ := hnew
    obtain ⟨j, hj⟩ := hindex b (List.mem_append_right _ hb) x hx
    obtain ⟨jFirst, hjFirst⟩ := hindex first (List.mem_append_right _ List.mem_cons_self) x hx
    have hplaces : jFirst ≠ j := fun heq => hne (hj.trans (hjFirst.trans (congrArg some heq)).symm)
    rcases List.mem_cons.mp hb with rfl | hb
    · exact absurd rfl hne
    obtain ⟨before, after, rfl⟩ := List.append_of_mem hb
    exact not_upsertsByName_new hkeys htypes hx hj hjFirst hplaces
      (h _ _ sameColumns_blank (congrArg (first.schema :: ·) sameColumns_withMark))
  · simp only [Aligned, not_forall] at hexisting
    obtain ⟨b, hb, x, hx, hne⟩ := hexisting
    obtain ⟨j, hj⟩ := hindex b (List.mem_append_left _ hb) x hx
    obtain ⟨jNew, hjNew⟩ := hindex first (List.mem_append_right _ List.mem_cons_self) x hx
    obtain ⟨before, after, rfl⟩ := List.append_of_mem hb
    exact not_upsertsByName_existing hkeys htypes hx hj hjNew (fun heq => hne (hj.trans heq.symm))
      (h _ _ sameColumns_withMark (@sameColumns_withMark [] rest first jNew))

end Misplaced

/-- A merge of batches whose key columns stand in place is an update by name. If they do not, some rows of the same
    columns are merged otherwise, as long as the columns of one name have one type. -/
theorem merge_byName_iff (env : ArrowEnv) (pkColumns : List String) (existing new : List RecordBatch)
    (hkeys : ∀ b ∈ existing ++ new, ∀ name ∈ pkColumns, (Schema.indexOf b.schema name).isSome = true) :
    (KeysInPlace pkColumns existing new → UpsertsByName env pkColumns existing new) ∧
      (OneType (existing ++ new) →
        ((∀ env existing' new', SameColumns existing existing' → SameColumns new new' →
            UpsertsByName env pkColumns existing' new') ↔ KeysInPlace pkColumns existing new)) := by
  refine ⟨fun h => h.upsertsByName env, fun htypes => ⟨fun h => ?_, fun h env existing' new' hexisting hnew => ?_⟩⟩
  · exact keysInPlace_of_upsertsByName hkeys htypes (h printEnv)
  · exact (h.congr hexisting hnew).upsertsByName env

/-- Each side has its own order of columns. -/
theorem merge_byName_ints : UpsertsByName bareEnv ["id"] [intBatch ["id", "v"] [[1, 10], [2, 20]] (by decide)]
    [intBatch ["v", "id"] [[11, 1]] (by decide)] := by
  have haligned : ∀ b : RecordBatch, Aligned ["id"] [b] := by
    intro b
    have huniform : Uniform b.schema [b] := fun b' hb' => by rw [List.mem_singleton.mp hb']
    exact huniform.aligned _
  exact (merge_byName_iff bareEnv ["id"] _ _ (by decide)).1 (.inr ⟨List.cons_ne_nil _ _, haligned _, haligned _⟩)

/-- Two files of a partition whose columns are ordered differently. -/
def reorderedFiles : List RecordBatch :=
  [intBatch ["id", "v"] [[7, 70]] (by decide), intBatch ["v", "id"] [[10, 1]] (by decide)]

theorem reorderedFiles_not_upsert : ∃ result, mergeBatchesByPk bareEnv reorderedFiles
    [intBatch ["id", "v"] [[1, 11]] (by decide)] ["id"] = .ok result ∧ (views result).length = 3 ∧
      ¬(views result).Perm (upsert (namedKey bareEnv ["id"]) (views reorderedFiles)
        (views [intBatch ["id", "v"] [[1, 11]] (by decide)])) := by
  refine ⟨_, rfl, by decide +kernel, fun h => ?_⟩
  exact absurd h.length_eq (by decide +kernel)

end Reiver.Pond
