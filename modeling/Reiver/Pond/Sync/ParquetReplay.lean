import Reiver.Lib.ChangeLog
import Reiver.Lib.Fallible
import Reiver.Pond.Sync.ParquetRewriter

/-! # Rewriting against replaying

A log of events is applied to a file in bulk. It gives the rows that the events give one after another exactly if every
key has events that do not depend on each other, and what is written can be stored (`applyWalEvents_iff`). -/

namespace Reiver.Pond.ParquetRewriter

/-! ### Keys -/

def keyParts : PrimaryKey → List PrimaryKey
  | .composite parts => parts
  | pk => [pk]

/-- The cell of a part of a key, null for a part that is no value. -/
def partCell : PrimaryKey → Cell
  | .int64 v => some (.int v.toInt)
  | .string s => some (.text s)
  | .composite _ => none

def pkCells (pk : PrimaryKey) : List Cell := (keyParts pk).map partCell

def rowKey (schema : Schema) (columns : List String) (row : BatchRow) : List Cell :=
  columns.map fun name => (schema.indexOf name).bind fun i => (row[i]?).join

def columnType (schema : Schema) (name : String) : Option DataType :=
  ((schema.indexOf name).bind fun i => schema[i]?).map (·.dataType)

def isIntegerType (dt : DataType) : Bool :=
  dt ∈ [.int8, .int16, .int32, .int64, .uint8, .uint16, .uint32, .uint64]

def isStringType (dt : DataType) : Bool := dt ∈ [.utf8, .largeUtf8]

/-- Lookups see integers in columns of one type and texts in columns of one type. -/
def seesCell (schema : Schema) (name : String) : Cell → Bool
  | some (.int _) => columnType schema name = some .int64
  | some (.text _) => columnType schema name = some .utf8
  | _ => false

def seesKey (schema : Schema) (columns : List String) (key : List Cell) : Bool :=
  (columns.zip key).all fun e => seesCell schema e.1 e.2

/-- The file has a primary key: columns of integers or texts whose values are there and differ from row to row. -/
structure Keyed (r : ParquetRewriter) (file : RecordBatch) : Prop where
  columns : r.primaryKeyColumns ≠ []
  typed : ∀ name ∈ r.primaryKeyColumns, ∃ dt ∈ columnType file.schema name, isIntegerType dt = true ∨
    isStringType dt = true
  nodup : (file.rows.map (rowKey file.schema r.primaryKeyColumns)).Nodup
  nonNull : ∀ row ∈ file.rows, none ∉ rowKey file.schema r.primaryKeyColumns row

/-! ### What the events stand for -/

def lastValue (columns : List (String × ColumnValue)) (name : String) : Option ColumnValue :=
  (columns.reverse.find? (·.1 = name)).map (·.2)

/-- The cell that a value stands for: integers and texts are themselves in columns of their kind, and `other` says
    anything else. -/
def wantedCell (other : DataType → ColumnValue → Cell) (dt : DataType) (value : Option ColumnValue) : Cell :=
  match value with
  | none => none
  | some .null => none
  | some (.int64 v) => if isIntegerType dt then some (.int v.toInt) else other dt (.int64 v)
  | some (.string s) => if isStringType dt then some (.text s) else other dt (.string s)
  | some value => other dt value

def wantedRow (other : DataType → ColumnValue → Cell) (schema : Schema) (columns : List (String × ColumnValue)) :
    BatchRow :=
  schema.map fun field => wantedCell other field.dataType (lastValue columns field.name)

def logChange (event : WalEvent) : Change (List Cell) (List (String × ColumnValue)) :=
  match event.eventType with
  | .insert => .insert (pkCells event.primaryKey) event.columns
  | .update => .update (pkCells event.primaryKey) event.columns
  | .delete => .delete (pkCells event.primaryKey)

/-- Keys are values, and the events can happen one after another. -/
structure History (other : DataType → ColumnValue → Cell) (r : ParquetRewriter) (file : RecordBatch)
    (events : List WalEvent) : Prop where
  keys : ∀ event ∈ events, none ∉ pkCells event.primaryKey
  possible : Possible (rowKey file.schema r.primaryKeyColumns) (wantedRow other file.schema) file.rows
    (events.map logChange)

/-! ### Lookups -/

section Lookups
variable {r : ParquetRewriter} {file : RecordBatch} {schema : Schema} {row : BatchRow}

theorem matchesAt_eq {name : String} {i : Nat} (hi : schema.indexOf name = some i) (part : PrimaryKey) :
    matchesAt schema row i part =
      (seesCell schema name (partCell part) && decide ((row[i]?).join = partCell part)) := by
  obtain ⟨hlt, -⟩ := List.findIdx?_eq_some_iff_getElem.mp hi
  have htype : columnType schema name = some (schema.get ⟨i, hlt⟩).dataType := by
    rw [columnType, hi, Option.bind_some, List.getElem?_eq_getElem hlt, Option.map_some]
    rfl
  rw [matchesAt, List.getElem?_eq_getElem hlt]
  cases hcell : (row[i]?).join with
  | none => cases part <;> simp [partCell, seesCell]
  | some value => cases part <;> simp [matchesSinglePk, partCell, seesCell, htype]

theorem all_matchesAt {columns : List String} {indices : List Nat}
    (hindices : List.Forall₂ (fun name i => schema.indexOf name = some i) columns indices) :
    ∀ parts : List PrimaryKey, parts.length = columns.length →
      (parts.zip indices).all (fun e => matchesAt schema row e.2 e.1) =
        (seesKey schema columns (parts.map partCell) && decide (rowKey schema columns row = parts.map partCell)) := by
  induction hindices with
  | nil =>
    intro parts hlength
    obtain rfl := List.length_eq_zero_iff.mp hlength
    rfl
  | @cons name i columns indices hi _ ih =>
    intro parts hlength
    cases parts with
    | nil => cases hlength
    | cons part parts =>
      have hrest := ih parts (by simpa using hlength)
      have hkey : rowKey schema (name :: columns) row = (part :: parts).map partCell ↔
          (row[i]?).join = partCell part ∧ rowKey schema columns row = parts.map partCell := by
        simp [rowKey, hi]
      have hsees : seesKey schema (name :: columns) ((part :: parts).map partCell) =
          (seesCell schema name (partCell part) && seesKey schema columns (parts.map partCell)) := rfl
      rw [List.zip_cons_cons, List.all_cons, hrest, matchesAt_eq hi, hsees, Bool.eq_iff_iff]
      simp only [Bool.and_eq_true, decide_eq_true_eq, hkey]
      tauto

theorem indexOf_ok {name : String} {i : Nat} (h : schema.indexOf name = some i) : indexOf schema name = .ok i := by
  rw [indexOf, h]

theorem exists_indices (hkeyed : Keyed r file) :
    ∃ indices, List.Forall₂ (fun name i => file.schema.indexOf name = some i) r.primaryKeyColumns indices ∧
      r.primaryKeyColumns.mapM (indexOf file.schema) = .ok indices := by
  have hindex : ∀ name ∈ r.primaryKeyColumns, ∃ i, indexOf file.schema name = .ok i := by
    intro name hname
    obtain ⟨dt, htype, -⟩ := hkeyed.typed name hname
    rw [columnType, Option.mem_def, Option.map_eq_some_iff] at htype
    obtain ⟨field, hfield, -⟩ := htype
    obtain ⟨i, hi, -⟩ := Option.bind_eq_some_iff.mp hfield
    exact ⟨i, indexOf_ok hi⟩
  obtain ⟨indices, hindices⟩ := exists_mapM_ok.mpr hindex
  refine ⟨indices, (mapM_ok hindices).imp fun name i hi => ?_, hindices⟩
  rw [indexOf] at hi
  split at hi
  · next j hj => rw [hj, Except.ok.inj hi]
  · cases hi

/-- A lookup finds the row of a key that it sees. -/
theorem findRowByPk_eq (hkeyed : Keyed r file) {pk : PrimaryKey}
    (hlength : (pkCells pk).length = r.primaryKeyColumns.length) :
    r.findRowByPk file pk = .ok (if seesKey file.schema r.primaryKeyColumns (pkCells pk) then
      file.rows.findIdx? fun row => rowKey file.schema r.primaryKeyColumns row = pkCells pk else none) := by
  obtain ⟨indices, hforall, hindices⟩ := exists_indices hkeyed
  rw [pkCells, List.length_map] at hlength
  have hrows : ∀ row : BatchRow, ((keyParts pk).zip indices).all (fun e => matchesAt file.schema row e.2 e.1) =
      (seesKey file.schema r.primaryKeyColumns (pkCells pk) &&
        decide (rowKey file.schema r.primaryKeyColumns row = pkCells pk)) := fun row =>
    all_matchesAt hforall (keyParts pk) hlength
  have hfound :
    file.rows.findIdx? (fun row => ((keyParts pk).zip indices).all fun e => matchesAt file.schema row e.2 e.1) =
      if seesKey file.schema r.primaryKeyColumns (pkCells pk) then
        file.rows.findIdx? fun row => rowKey file.schema r.primaryKeyColumns row = pkCells pk else none := by
    simp only [hrows]
    cases seesKey file.schema r.primaryKeyColumns (pkCells pk) <;> simp
  rw [← hfound]
  unfold findRowByPk
  cases hcolumns : r.primaryKeyColumns with
  | nil => exact absurd hcolumns hkeyed.columns
  | cons column columns =>
    rw [hcolumns] at hlength hforall hindices
    cases pk with
    | composite parts =>
      have hparts : ¬parts.length ≠ (column :: columns).length := not_not.mpr hlength
      dsimp only
      rw [if_neg hparts, hindices]
      rfl
    | int64 v =>
      obtain rfl : columns = [] := by simpa [keyParts] using hlength
      obtain ⟨i, _, hi, hnil, rfl⟩ := List.forall₂_cons_left_iff.mp hforall
      obtain rfl := List.forall₂_nil_left_iff.mp hnil
      dsimp only
      rw [indexOf_ok hi]
      simp [keyParts]
      rfl
    | string s =>
      obtain rfl : columns = [] := by simpa [keyParts] using hlength
      obtain ⟨i, _, hi, hnil, rfl⟩ := List.forall₂_cons_left_iff.mp hforall
      obtain rfl := List.forall₂_nil_left_iff.mp hnil
      dsimp only
      rw [indexOf_ok hi]
      simp [keyParts]
      rfl

end Lookups

/-! ### Collecting the changes -/

section Collecting
variable {r : ParquetRewriter} {file : RecordBatch} {events : List WalEvent}

theorem set_findIdx? {α κ : Type} [DecidableEq κ] {key : α → κ} {f : α → Bool} {k : κ} {rows : List α} {i : Nat}
    (hnodup : (rows.map key).Nodup) (hi : rows.findIdx? (key · = k) = some i) :
    (rows.map f).set i true = rows.map fun row => f row || decide (key row = k) := by
  induction rows generalizing i with
  | nil => cases hi
  | cons row rows ih =>
    rw [List.map_cons, List.nodup_cons] at hnodup
    rw [List.findIdx?_cons] at hi
    split at hi
    · next hk =>
      obtain rfl := Option.some.inj hi
      have hk : key row = k := by simpa using hk
      have hrest : ∀ row' ∈ rows, (f row' || decide (key row' = k)) = f row' := by
        intro row' hrow'
        have hne : key row' ≠ k := fun h => hnodup.1 (List.mem_map.mpr ⟨row', hrow', h.trans hk.symm⟩)
        simp [hne]
      simp only [List.map_cons, List.set_cons_zero, hk, decide_true, Bool.or_true, List.map_congr_left hrest]
    · next hk =>
      obtain ⟨j, hj, rfl⟩ := Option.map_eq_some_iff.mp hi
      have hk : key row ≠ k := by simpa using hk
      simp only [List.map_cons, List.set_cons_succ, ih hnodup.2 hj, hk, decide_false, Bool.or_false]

def takesOut (r : ParquetRewriter) (schema : Schema) (row : BatchRow)
    (c : Change (List Cell) (List (String × ColumnValue))) : Bool :=
  c.removes && decide (c.key = rowKey schema r.primaryKeyColumns row) && seesKey schema r.primaryKeyColumns c.key

theorem mark_eq (hkeyed : Keyed r file) {pk : PrimaryKey} (hlength : (pkCells pk).length = r.primaryKeyColumns.length)
    (f : BatchRow → Bool) : ∃ found, r.findRowByPk file pk = .ok found ∧
      (found.isSome ↔ seesKey file.schema r.primaryKeyColumns (pkCells pk) ∧
        pkCells pk ∈ file.rows.map (rowKey file.schema r.primaryKeyColumns)) ∧
      ((found.map fun i => (file.rows.map f).set i true).getD (file.rows.map f)) = file.rows.map fun row =>
        f row || (decide (pkCells pk = rowKey file.schema r.primaryKeyColumns row) &&
          seesKey file.schema r.primaryKeyColumns (pkCells pk)) := by
  refine ⟨_, findRowByPk_eq hkeyed hlength, ?_⟩
  cases hsees : seesKey file.schema r.primaryKeyColumns (pkCells pk) with
  | false => simp
  | true =>
    rw [if_pos rfl]
    cases hi : file.rows.findIdx? fun row => rowKey file.schema r.primaryKeyColumns row = pkCells pk with
    | none =>
      have hnone : ∀ row ∈ file.rows, rowKey file.schema r.primaryKeyColumns row ≠ pkCells pk := by
        simpa using List.findIdx?_eq_none_iff.mp hi
      refine ⟨iff_of_false Bool.false_ne_true fun h => ?_, List.map_congr_left fun row hrow => ?_⟩
      · obtain ⟨row, hrow, hkey⟩ := List.mem_map.mp h.2
        exact hnone row hrow hkey
      · simp [(hnone row hrow).symm]
    | some i =>
      refine ⟨iff_of_true rfl ⟨rfl, ?_⟩, ?_⟩
      · obtain ⟨hlt, hp, -⟩ := List.findIdx?_eq_some_iff_getElem.mp hi
        exact List.mem_map.mpr ⟨_, List.getElem_mem hlt, by simpa using hp⟩
      · rw [Option.map_some, Option.getD_some, set_findIdx? hkeyed.nodup hi]
        simp only [Bool.and_true, eq_comm]

/-- The values of the updates whose row is found. -/
abbrev foundIn (r : ParquetRewriter) (file : RecordBatch)
    (changes : List (Change (List Cell) (List (String × ColumnValue)))) : List (List (String × ColumnValue)) :=
  foundUpdates (rowKey file.schema r.primaryKeyColumns) (seesKey file.schema r.primaryKeyColumns) file.rows changes

/-- What an event adds to what is collected. -/
theorem collectChange_eq (hkeyed : Keyed r file) {event : WalEvent}
    (hlength : (pkCells event.primaryKey).length = r.primaryKeyColumns.length) (f : BatchRow → Bool)
    (updates inserts : List RowValues) : ∃ c, walEventToChange event = some c ∧
      r.collectChange file ⟨file.rows.map f, updates, inserts⟩ c =
        .ok ⟨file.rows.map fun row => f row || takesOut r file.schema row (logChange event),
          updates ++ (foundIn r file [logChange event]).map toValues,
          inserts ++ ([logChange event].filterMap Change.inserted).map toValues⟩ := by
  obtain ⟨found, hfind, hfound, hmark⟩ := mark_eq hkeyed hlength f
  cases htype : event.eventType with
  | insert =>
    have hlog : logChange event = .insert (pkCells event.primaryKey) event.columns := by rw [logChange, htype]
    refine ⟨.insert (toValues event.columns), by rw [walEventToChange, htype], ?_⟩
    rw [hlog, foundIn, foundUpdates_of_none rfl]
    simp [takesOut, Change.removes, Change.inserted, collectChange]
  | update =>
    have hlog : logChange event = .update (pkCells event.primaryKey) event.columns := by rw [logChange, htype]
    refine ⟨.update event.primaryKey (toValues event.columns), by rw [walEventToChange, htype], ?_⟩
    have hmarks : (file.rows.map fun row => f row || takesOut r file.schema row (logChange event)) =
        (found.map fun i => (file.rows.map f).set i true).getD (file.rows.map f) := by
      rw [hmark, hlog]
      rfl
    rw [hmarks, hlog, collectChange, hfind]
    cases found with
    | none =>
      have hno : ¬(seesKey file.schema r.primaryKeyColumns (pkCells event.primaryKey) = true ∧
          pkCells event.primaryKey ∈ file.rows.map (rowKey file.schema r.primaryKeyColumns)) := fun h => by
        cases hfound.mpr h
      have hnil : foundIn r file [.update (pkCells event.primaryKey) event.columns] = [] := by
        rw [foundIn, foundUpdates_update, if_neg hno]
      rw [hnil]
      simp [Change.inserted, bind, Except.bind]
    | some i =>
      have hone : foundIn r file [.update (pkCells event.primaryKey) event.columns] = [event.columns] := by
        rw [foundIn, foundUpdates_update, if_pos (hfound.mp rfl)]
      rw [hone]
      simp [Change.inserted, bind, Except.bind]
  | delete =>
    have hlog : logChange event = .delete (pkCells event.primaryKey) := by rw [logChange, htype]
    refine ⟨.delete event.primaryKey, by rw [walEventToChange, htype], ?_⟩
    have hmarks : (file.rows.map fun row => f row || takesOut r file.schema row (logChange event)) =
        (found.map fun i => (file.rows.map f).set i true).getD (file.rows.map f) := by
      rw [hmark, hlog]
      rfl
    rw [hmarks, hlog, collectChange, hfind, foundIn, foundUpdates_of_none rfl]
    cases found <;> simp [Change.inserted, bind, Except.bind]

theorem collect_ok (hkeyed : Keyed r file)
    (hlengths : ∀ event ∈ events, (pkCells event.primaryKey).length = r.primaryKeyColumns.length)
    (f : BatchRow → Bool) (updates inserts : List RowValues) :
    (events.filterMap walEventToChange).foldlM (r.collectChange file) ⟨file.rows.map f, updates, inserts⟩ =
      .ok ⟨file.rows.map fun row => f row || (events.map logChange).any (takesOut r file.schema row),
        updates ++ (foundIn r file (events.map logChange)).map toValues,
        inserts ++ ((events.map logChange).filterMap Change.inserted).map toValues⟩ := by
  induction events generalizing f updates inserts with
  | nil => simp [foundIn, foundUpdates]; rfl
  | cons event events ih =>
    obtain ⟨c, hc, hstep⟩ := collectChange_eq hkeyed (hlengths event List.mem_cons_self) f updates inserts
    rw [List.filterMap_cons_some hc, List.foldlM_cons, hstep]
    refine (ih (fun e he => hlengths e (List.mem_cons_of_mem _ he)) _ _ _).trans ?_
    have hfound' : foundIn r file (logChange event :: events.map logChange) =
        foundIn r file [logChange event] ++ foundIn r file (events.map logChange) := foundUpdates_cons
    have hinserted : (logChange event :: events.map logChange).filterMap Change.inserted =
        [logChange event].filterMap Change.inserted ++ (events.map logChange).filterMap Change.inserted := by
      rw [← List.filterMap_append]
      rfl
    rw [List.map_cons, hfound', hinserted]
    simp only [List.any_cons, List.map_append, List.append_assoc, Bool.or_assoc]

end Collecting

/-! ### Building rows -/

/-- The cell that is built, null where there is an error. -/
def builtCell (codec : CellCodec) (field : Field) (value : Option CellValue) : Cell :=
  match appendValue codec field value with
  | .ok cell => cell
  | .error _ => none

def builtRow (codec : CellCodec) (schema : Schema) (columns : List (String × ColumnValue)) : BatchRow :=
  schema.map fun field => builtCell codec field ((toValues columns).lookup field.name)

/-- Every value of a row can be stored: arrays of the column's type are built, the value does not overflow, and there is
    one where the column needs it. -/
def Storable (codec : CellCodec) (schema : Schema) (columns : List (String × ColumnValue)) : Prop :=
  ∀ field ∈ schema, arrayType field.dataType = field.dataType ∧
    ∃ cell, appendValue codec field ((toValues columns).lookup field.name) = .ok cell ∧
      (cell = none → field.nullable = true)

section Building
variable {codec : CellCodec} {schema : Schema}

theorem builtCell_ok {field : Field} {value : Option CellValue} {cell : Cell}
    (h : appendValue codec field value = .ok cell) : builtCell codec field value = cell := by
  rw [builtCell, h]

theorem tryNew_ok_iff (hschema : schema ≠ []) {cells : Field → List Cell} {n : Nat}
    (hlength : ∀ field ∈ schema, (cells field).length = n) {b : RecordBatch} :
    tryNew schema (schema.map fun field => ⟨arrayType field.dataType, cells field⟩) = .ok b ↔
      (∀ field ∈ schema, (none ∈ cells field → field.nullable = true) ∧ arrayType field.dataType = field.dataType) ∧
        b.schema = schema ∧
          b.rows = (List.range n).map fun i => schema.map fun field => ((cells field)[i]?).join := by
  obtain ⟨first, rest, rfl⟩ := List.exists_cons_of_ne_nil hschema
  have hzip : ∀ P : Field → ArrayData → Prop,
      (∃ e ∈ (first :: rest).zip
        ((first :: rest).map fun field => ArrayData.mk (arrayType field.dataType) (cells field)), P e.1 e.2) ↔
        ∃ field ∈ first :: rest, P field ⟨arrayType field.dataType, cells field⟩ := by
    intro P
    rw [← List.map_prod_left_eq_zip]
    constructor
    · rintro ⟨e, he, hP⟩
      obtain ⟨field, hfield, rfl⟩ := List.mem_map.mp he
      exact ⟨field, hfield, hP⟩
    · rintro ⟨field, hfield, hP⟩
      exact ⟨_, List.mem_map_of_mem hfield, hP⟩
  have hrows : ((first :: rest).map fun field => ArrayData.mk (arrayType field.dataType) (cells field)).length =
      (first :: rest).length := List.length_map _
  have hcells : ∀ i : Nat, (((first :: rest).map fun field => ArrayData.mk (arrayType field.dataType) (cells field)).map
      fun column => (column.cells[i]?).join) = (first :: rest).map fun field => ((cells field)[i]?).join := fun i => by
    rw [List.map_map]
    rfl
  have hhead : ((first :: rest).map fun field => ArrayData.mk (arrayType field.dataType) (cells field)).head? =
      some ⟨arrayType first.dataType, cells first⟩ := rfl
  have hnulls := hzip fun field column => field.nullable = false ∧ none ∈ column.cells
  have htypes := hzip fun field column => field.dataType ≠ column.dataType
  generalize ((first :: rest).map fun field => ArrayData.mk (arrayType field.dataType) (cells field)) = columns at *
  rw [tryNew, hhead]
  dsimp only
  rw [dif_pos hrows]
  obtain rfl := hlength first List.mem_cons_self
  by_cases hnull : ∃ field ∈ first :: rest, field.nullable = false ∧ none ∈ cells field
  · rw [if_pos (hnulls.mpr hnull)]
    obtain ⟨field, hfield, hrequired, hmem⟩ := hnull
    refine iff_of_false (by simp) fun h => ?_
    rw [(h.1 field hfield).1 hmem] at hrequired
    cases hrequired
  · rw [if_neg fun h => hnull (hnulls.mp h)]
    by_cases htype : ∃ field ∈ first :: rest, field.dataType ≠ arrayType field.dataType
    · rw [if_pos (htypes.mpr htype)]
      obtain ⟨field, hfield, hne⟩ := htype
      exact iff_of_false (by simp) fun h => hne (h.1 field hfield).2.symm
    · rw [if_neg fun h => htype (htypes.mp h)]
      constructor
      · intro h
        obtain rfl := Except.ok.inj h
        refine ⟨fun field hfield => ⟨fun hmem => ?_, ?_⟩, rfl, List.map_congr_left fun i _ => hcells i⟩
        · rw [← Bool.not_eq_false]
          exact fun hrequired => hnull ⟨field, hfield, hrequired, hmem⟩
        · by_contra hne
          exact htype ⟨field, hfield, fun h => hne h.symm⟩
      · rintro ⟨-, hschema, hrows⟩
        obtain ⟨schema, rows, wf⟩ := b
        obtain rfl := hschema
        obtain rfl := hrows
        simp only [hcells]

theorem map_range_join {α : Type} (rows : List α) (g : Field → α → Cell) :
    ((List.range rows.length).map fun i => schema.map fun field => ((rows.map (g field))[i]?).join) =
      rows.map fun row => schema.map fun field => g field row := by
  apply List.ext_getElem
  · simp
  · intro i h _
    have hi : i < rows.length := by simpa using h
    simp [hi]

/-- Rows are built exactly if their values can be stored. -/
theorem buildBatchFromValues_ok_iff (hschema : schema ≠ []) {rows : List (List (String × ColumnValue))}
    (hrows : rows ≠ []) {b : RecordBatch} :
    buildBatchFromValues codec schema (rows.map toValues) = .ok b ↔
      (∀ columns ∈ rows, Storable codec schema columns) ∧ b.schema = schema ∧
        b.rows = rows.map (builtRow codec schema) := by
  have hne : rows.map toValues ≠ [] := fun h => hrows (List.map_eq_nil_iff.mp h)
  rw [buildBatchFromValues, if_neg hne]
  by_cases happend : ∀ field ∈ schema, ∀ columns ∈ rows,
      ∃ cell, appendValue codec field ((toValues columns).lookup field.name) = .ok cell
  · have hcolumn : ∀ field ∈ schema, buildColumn codec (rows.map toValues) field =
        .ok ⟨arrayType field.dataType,
          rows.map fun columns => builtCell codec field ((toValues columns).lookup field.name)⟩ := by
      intro field hfield
      have hcells : (rows.map toValues).mapM (fun row => appendValue codec field (row.lookup field.name)) =
          .ok ((rows.map toValues).map fun row => builtCell codec field (row.lookup field.name)) := by
        refine mapM_of_ok fun row hrow => ?_
        obtain ⟨columns, hcolumns, rfl⟩ := List.mem_map.mp hrow
        obtain ⟨cell, hcell⟩ := happend field hfield columns hcolumns
        rw [hcell, builtCell_ok hcell]
      rw [buildColumn, hcells, List.map_map]
      rfl
    have hcolumns : schema.mapM (buildColumn codec (rows.map toValues)) = .ok (schema.map fun field =>
        ⟨arrayType field.dataType,
          rows.map fun columns => builtCell codec field ((toValues columns).lookup field.name)⟩) :=
      mapM_of_ok hcolumn
    have hlength : ∀ field ∈ schema, (rows.map fun columns =>
        builtCell codec field ((toValues columns).lookup field.name)).length = rows.length :=
      fun field _ => List.length_map _
    have hnew := tryNew_ok_iff (b := b) hschema hlength
    rw [map_range_join] at hnew
    have herror : (tryNew schema (schema.map fun field => ⟨arrayType field.dataType,
        rows.map fun columns => builtCell codec field ((toValues columns).lookup field.name)⟩)).mapError
          RewriteError.arrow = .ok b ↔ tryNew schema (schema.map fun field => ⟨arrayType field.dataType,
            rows.map fun columns => builtCell codec field ((toValues columns).lookup field.name)⟩) = .ok b := by
      cases tryNew schema (schema.map fun field => ⟨arrayType field.dataType,
        rows.map fun columns => builtCell codec field ((toValues columns).lookup field.name)⟩) <;>
          simp [Except.mapError]
    rw [hcolumns]
    refine herror.trans (hnew.trans (and_congr_left fun _ => ?_))
    constructor
    · intro h columns hmem field hfield
      obtain ⟨cell, hcell⟩ := happend field hfield columns hmem
      refine ⟨(h field hfield).2, cell, hcell, fun hnone => (h field hfield).1 ?_⟩
      exact List.mem_map.mpr ⟨columns, hmem, (builtCell_ok hcell).trans hnone⟩
    · intro h field hfield
      obtain ⟨columns, hmem⟩ := List.exists_mem_of_ne_nil _ hrows
      refine ⟨fun hnone => ?_, (h columns hmem field hfield).1⟩
      obtain ⟨columns, hmem, hnone⟩ := List.mem_map.mp hnone
      obtain ⟨-, cell, hcell, hnullable⟩ := h columns hmem field hfield
      exact hnullable ((builtCell_ok hcell).symm.trans hnone)
  · refine iff_of_false (fun h => happend fun field hfield columns hmem => ?_) fun h =>
      happend fun field hfield columns hmem => ?_
    · obtain ⟨arrays, harrays, -⟩ := bind_ok h
      obtain ⟨a, ha⟩ := exists_mapM_ok.mp ⟨arrays, harrays⟩ field hfield
      obtain ⟨cells, hcells, -⟩ := bind_ok ha
      exact exists_mapM_ok.mp ⟨cells, hcells⟩ (toValues columns) (List.mem_map_of_mem hmem)
    · obtain ⟨-, cell, hcell, -⟩ := h.1 columns hmem field hfield
      exact ⟨cell, hcell⟩

end Building

/-! ### Keys of new rows -/

section NewKeys
variable {codec : CellCodec} {other : DataType → ColumnValue → Cell} {schema : Schema}

theorem lookup_toValues (columns : List (String × ColumnValue)) (name : String) :
    (toValues columns).lookup name = (lastValue columns name).map fromWal := by
  induction columns using List.reverseRecOn with
  | nil => rfl
  | append_singleton columns e ih =>
    have hvalues : toValues (columns ++ [e]) = (toValues columns).insert e.1 (fromWal e.2) := by
      rw [toValues, List.foldl_append]
      rfl
    rw [hvalues, Dict.lookup_insert', ih, lastValue, lastValue, List.reverse_append]
    by_cases hname : name = e.1
    · simp [hname]
    · simp [hname, Ne.symm hname]

theorem appendInt32_wanted {field : Field} (hdt : field.dataType = .int32) (v : Int64) {cell : Cell}
    (h : appendInt32 field v = .ok cell) : cell = wantedCell other field.dataType (some (.int64 v)) ∨ cell = none := by
  rw [appendInt32] at h
  split_ifs at h with hrange hnullable
  · refine .inl ?_
    rw [← Except.ok.inj h, hdt]
    rfl
  · exact .inr (Except.ok.inj h).symm

theorem builtCell_wanted {field : Field}
    (hdt : isIntegerType field.dataType = true ∨ isStringType field.dataType = true) (value : Option ColumnValue) :
    builtCell codec field (value.map fromWal) = wantedCell other field.dataType value ∨
      builtCell codec field (value.map fromWal) = none := by
  cases happend : appendValue codec field (value.map fromWal) with
  | error e =>
    refine .inr ?_
    rw [builtCell, happend]
  | ok cell =>
    rw [builtCell_ok happend]
    obtain ⟨name, dt, nullable⟩ := field
    have hlost : appendValue codec ⟨name, dt, nullable⟩ (value.map fromWal) = .ok none → cell = none := fun h =>
      Except.ok.inj (happend.symm.trans h)
    cases dt with
    | int64 =>
      rcases value with _ | ⟨_ | _ | v | _ | _ | _ | _⟩
      case some.int64 => exact .inl (Except.ok.inj happend).symm
      all_goals exact .inr (hlost rfl)
    | int32 =>
      rcases value with _ | ⟨_ | _ | v | _ | _ | _ | _⟩
      case some.int64 => exact appendInt32_wanted rfl v happend
      all_goals exact .inr (hlost rfl)
    | utf8 =>
      rcases value with _ | ⟨_ | _ | _ | _ | s | _ | _⟩
      case some.string => exact .inl (Except.ok.inj happend).symm
      all_goals exact .inr (hlost rfl)
    | int8 | int16 | uint8 | uint16 | uint32 | uint64 | largeUtf8 =>
      rcases value with _ | ⟨_ | _ | _ | _ | _ | _ | _⟩ <;> exact .inr (hlost rfl)
    | _ => simp [isIntegerType, isStringType] at hdt

theorem rowKey_built {columns : List String} {values : List (String × ColumnValue)}
    (htyped : ∀ name ∈ columns, ∃ dt ∈ columnType schema name, isIntegerType dt = true ∨ isStringType dt = true)
    (hkey : none ∉ rowKey schema columns (builtRow codec schema values)) :
    rowKey schema columns (builtRow codec schema values) = rowKey schema columns (wantedRow other schema values) := by
  refine List.map_congr_left fun name hname => ?_
  obtain ⟨dt, htype, hdt⟩ := htyped name hname
  rw [columnType, Option.mem_def, Option.map_eq_some_iff] at htype
  obtain ⟨field, hfield, rfl⟩ := htype
  obtain ⟨i, hi, hfield⟩ := Option.bind_eq_some_iff.mp hfield
  have hbuilt : ((schema.indexOf name).bind fun i => ((builtRow codec schema values)[i]?).join) =
      builtCell codec field ((lastValue values field.name).map fromWal) := by
    rw [hi, Option.bind_some, builtRow, List.getElem?_map, hfield, ← lookup_toValues]
    rfl
  have hwanted : ((schema.indexOf name).bind fun i => ((wantedRow other schema values)[i]?).join) =
      wantedCell other field.dataType (lastValue values field.name) := by
    rw [hi, Option.bind_some, wantedRow, List.getElem?_map, hfield]
    rfl
  rw [hbuilt, hwanted]
  refine (builtCell_wanted hdt _).resolve_right fun hnone => hkey ?_
  exact List.mem_map.mpr ⟨name, hname, hbuilt.trans hnone⟩

end NewKeys

/-! ### Both ways -/

section Both
variable {r : ParquetRewriter} {codec : CellCodec} {other : DataType → ColumnValue → Cell} {file out : RecordBatch}
  {events : List WalEvent}

theorem ok_eq_iff {b : RecordBatch} :
    (Except.ok b : Except RewriteError RecordBatch) = .ok out ↔ out.schema = b.schema ∧ out.rows = b.rows := by
  obtain ⟨schema, rows, wf⟩ := b
  obtain ⟨schema', rows', wf'⟩ := out
  rw [Except.ok.injEq, RecordBatch.mk.injEq, eq_comm (a := schema), eq_comm (a := rows)]

theorem logChange_key (event : WalEvent) : (logChange event).key = pkCells event.primaryKey := by
  rw [logChange]
  cases event.eventType <;> rfl

theorem history_lengths (h : History other r file events) :
    ∀ event ∈ events, (pkCells event.primaryKey).length = r.primaryKeyColumns.length := by
  intro event hevent
  obtain ⟨row, hrow⟩ := exists_keyOf h.possible (List.mem_map_of_mem hevent)
  rw [← logChange_key, ← hrow, rowKey, List.length_map]

abbrev written (r : ParquetRewriter) (file : RecordBatch) (events : List WalEvent) :
    List (List (String × ColumnValue)) :=
  writtenValues (rowKey file.schema r.primaryKeyColumns) (seesKey file.schema r.primaryKeyColumns) file.rows
    (events.map logChange)

/-- What the events make of the batch, if they can be applied: their changes in bulk. -/
theorem applyChangesToBatch_ok_iff (hkeyed : Keyed r file) (hhistory : History other r file events) :
    r.applyChangesToBatch codec file (events.filterMap walEventToChange) = .ok out ↔
      (∀ columns ∈ written r file events, Storable codec file.schema columns) ∧ out.schema = file.schema ∧
        out.rows = bulk (rowKey file.schema r.primaryKeyColumns) (seesKey file.schema r.primaryKeyColumns)
          (builtRow codec file.schema) file.rows (events.map logChange) := by
  have hcollect := collect_ok hkeyed (history_lengths hhistory) (fun _ => false) [] []
  have hinit : file.rows.map (fun _ => false) = List.replicate file.numRows false := List.map_const' ..
  have hmask : ((file.rows.map fun row => false || (events.map logChange).any (takesOut r file.schema row)).map (!·)) =
      file.rows.map fun row => !(events.map logChange).any (takesOut r file.schema row) := by
    rw [List.map_map]
    rfl
  have hkept : (file.rows.filter fun row => !(events.map logChange).any (takesOut r file.schema row)) =
      file.rows.filter fun row => ¬∃ c ∈ events.map logChange, c.removes = true ∧
        c.key = rowKey file.schema r.primaryKeyColumns row ∧
          seesKey file.schema r.primaryKeyColumns (rowKey file.schema r.primaryKeyColumns row) = true := by
    refine List.filter_congr fun row _ => ?_
    rw [Bool.eq_iff_iff, Bool.not_eq_true', ← Bool.not_eq_true, decide_eq_true_eq, List.any_eq_true]
    refine not_congr (exists_congr fun c => and_congr_right fun _ => ?_)
    rw [takesOut, Bool.and_eq_true, Bool.and_eq_true, decide_eq_true_eq, and_assoc]
    exact and_congr_right fun _ => and_congr_right fun hkey => by rw [hkey]
  have hschema : file.schema ≠ [] := by
    obtain ⟨name, hname⟩ := List.exists_mem_of_ne_nil _ hkeyed.columns
    obtain ⟨dt, htype, -⟩ := hkeyed.typed name hname
    intro hnil
    rw [hnil] at htype
    cases htype
  have hfiltered : (file.filterRecordBatch
      (file.rows.map fun row => !(events.map logChange).any (takesOut r file.schema row))).rows =
        file.rows.filter fun row => ¬∃ c ∈ events.map logChange, c.removes = true ∧
          c.key = rowKey file.schema r.primaryKeyColumns row ∧
            seesKey file.schema r.primaryKeyColumns (rowKey file.schema r.primaryKeyColumns row) = true := by
    rw [RecordBatch.filterRecordBatch_map, hkept]
  have hwritten : foundIn r file (events.map logChange) ++ (events.map logChange).filterMap Change.inserted =
      written r file events := rfl
  rw [applyChangesToBatch, ← hinit, hcollect]
  simp only [bind, Except.bind, List.nil_append, ← List.map_append, hmask, hwritten]
  have hsame : (file.filterRecordBatch
      (file.rows.map fun row => !(events.map logChange).any (takesOut r file.schema row))).schema = file.schema := rfl
  generalize file.filterRecordBatch
    (file.rows.map fun row => !(events.map logChange).any (takesOut r file.schema row)) = filtered at *
  have hbulk : bulk (rowKey file.schema r.primaryKeyColumns) (seesKey file.schema r.primaryKeyColumns)
      (builtRow codec file.schema) file.rows (events.map logChange) =
        filtered.rows ++ (written r file events).map (builtRow codec file.schema) := by
    rw [hfiltered]
    rfl
  rw [hbulk]
  by_cases hnone : written r file events = []
  · rw [if_pos (by rw [hnone]; rfl), hnone]
    simp only [List.map_nil, List.append_nil, List.not_mem_nil, false_imp_iff, implies_true, true_and]
    rw [ok_eq_iff, hsame]
  · rw [if_neg fun h => hnone (List.map_eq_nil_iff.mp h)]
    cases hbuild : buildBatchFromValues codec file.schema ((written r file events).map toValues) with
    | error e =>
      refine iff_of_false (fun h => by cases h) fun h => ?_
      have hwidth :
        ∀ row ∈ (written r file events).map (builtRow codec file.schema), row.length = file.schema.length := by
        intro row hrow
        obtain ⟨columns, -, rfl⟩ := List.mem_map.mp hrow
        exact List.length_map _
      have hok := (buildBatchFromValues_ok_iff (b := ⟨file.schema, _, hwidth⟩) hschema hnone).mpr
        ⟨h.1, rfl, rfl⟩
      rw [hbuild] at hok
      cases hok
    | ok newBatch =>
      obtain ⟨hstorable, hnew, hrows⟩ := (buildBatchFromValues_ok_iff hschema hnone).mp hbuild
      rw [and_iff_right hstorable, ← hrows]
      dsimp only
      split
      · next hempty =>
        rw [List.length_eq_zero_iff.mp hempty, List.nil_append, ok_eq_iff, hnew]
      · rw [concatBatches, dif_pos ⟨hsame, hnew⟩]
        exact ok_eq_iff

theorem walEventToChange_isSome (event : WalEvent) : (walEventToChange event).isSome = true := by
  rw [walEventToChange]
  cases event.eventType <;> rfl

theorem filterMap_isEmpty : (events.filterMap walEventToChange).isEmpty = events.isEmpty := by
  cases events with
  | nil => rfl
  | cons event events =>
    obtain ⟨c, hc⟩ := Option.isSome_iff_exists.mp (walEventToChange_isSome event)
    rw [List.filterMap_cons_some hc]
    rfl

theorem applyWalEvents_empty (hrows : file.rows = []) (hevents : events ≠ []) (hhistory : History other r file events) :
    r.applyWalEvents codec file events = .error (.schemaMismatch "Cannot insert into empty file without schema") := by
  obtain ⟨event, events, rfl⟩ := List.exists_cons_of_ne_nil hevents
  have hstep := hhistory.possible.1
  rw [hrows] at hstep
  cases htype : event.eventType with
  | insert =>
    have hchange : walEventToChange event = some (.insert (toValues event.columns)) := by rw [walEventToChange, htype]
    have hsome : ((event :: events).filterMap walEventToChange).filterMap ParquetChange.inserted =
        toValues event.columns :: (events.filterMap walEventToChange).filterMap ParquetChange.inserted := by
      rw [List.filterMap_cons_some hchange, List.filterMap_cons_some (by rfl)]
    simp only [applyWalEvents, filterMap_isEmpty, applyChanges, hrows, if_true, hsome]
    rfl
  | update =>
    rw [logChange, htype] at hstep
    exact absurd hstep.1 List.not_mem_nil
  | delete =>
    rw [logChange, htype] at hstep
    exact absurd hstep List.not_mem_nil

theorem applyWalEvents_ok_iff (hkeyed : Keyed r file) (hhistory : History other r file events) :
    r.applyWalEvents codec file events = .ok out ↔ (file.rows = [] → events = []) ∧
      (∀ columns ∈ written r file events, Storable codec file.schema columns) ∧ out.schema = file.schema ∧
        out.rows = bulk (rowKey file.schema r.primaryKeyColumns) (seesKey file.schema r.primaryKeyColumns)
          (builtRow codec file.schema) file.rows (events.map logChange) := by
  rw [← applyChangesToBatch_ok_iff hkeyed hhistory]
  by_cases hevents : events = []
  · rw [and_iff_right fun _ => hevents, applyChangesToBatch_ok_iff hkeyed hhistory, hevents]
    have hsame := @ok_eq_iff out file
    simpa [applyWalEvents, writtenValues, foundUpdates, bulk] using hsame
  · by_cases hrows : file.rows = []
    · rw [applyWalEvents_empty hrows hevents hhistory]
      exact iff_of_false (fun h => by cases h) fun h => hevents (h.1 hrows)
    · have hsome : ((events.filterMap walEventToChange).isEmpty) = false := by
        rw [filterMap_isEmpty]
        simpa using hevents
      rw [and_iff_right fun h => absurd h hrows]
      simp only [applyWalEvents, hsome, Bool.false_eq_true, if_false, applyChanges, hrows]

theorem nonNull_replay (hkeyed : Keyed r file) (hhistory : History other r file events) :
    ∀ row ∈ replay (rowKey file.schema r.primaryKeyColumns) (wantedRow other file.schema) file.rows
      (events.map logChange), none ∉ rowKey file.schema r.primaryKeyColumns row := by
  intro row hrow
  rcases mem_replay hrow with hold | ⟨c, hc, v, hv, rfl⟩
  · exact hkeyed.nonNull row hold
  · rw [keyOf_of_possible hhistory.possible hc hv]
    obtain ⟨event, hevent, rfl⟩ := List.mem_map.mp hc
    rw [logChange_key]
    exact hhistory.keys event hevent

/-- A file is rewritten to what its events make of it, each key at most once, exactly if it has rows to start with, what
    is written can be stored, and the events of every key agree with what the lookups find. -/
theorem applyWalEvents_iff (hkeyed : Keyed r file) (hhistory : History other r file events) :
    (∃ out, r.applyWalEvents codec file events = .ok out ∧ out.schema = file.schema ∧
      out.rows.Perm (replay (rowKey file.schema r.primaryKeyColumns) (wantedRow other file.schema) file.rows
        (events.map logChange)) ∧
      (out.rows.map (rowKey file.schema r.primaryKeyColumns)).Nodup) ↔
      (file.rows = [] → events = []) ∧ (∀ columns ∈ written r file events, Storable codec file.schema columns) ∧
        ∀ key, RowAgrees (wantedRow other file.schema) (builtRow codec file.schema)
          (file.rows.find? (rowKey file.schema r.primaryKeyColumns · = key))
            (seesKey file.schema r.primaryKeyColumns key)
          ((events.map logChange).filter (·.key = key)) := by
  constructor
  · rintro ⟨out, hok, -, hperm, -⟩
    obtain ⟨hempty, hstorable, -, hrows⟩ := (applyWalEvents_ok_iff hkeyed hhistory).mp hok
    rw [hrows] at hperm
    refine ⟨hempty, hstorable, (bulk_perm_replay_iff hkeyed.nodup hhistory.possible ?_).mp hperm⟩
    intro c hc v hwritten
    have hmem : v ∈ written r file events := mem_writtenValues hc hwritten
    have hbuilt := nonNull_replay hkeyed hhistory _ (hperm.subset (List.mem_append_right _ (List.mem_map_of_mem hmem)))
    rw [rowKey_built hkeyed.typed hbuilt]
    exact keyOf_of_possible hhistory.possible hc (hwritten.imp_right And.left)
  · rintro ⟨hempty, hstorable, hagrees⟩
    have hwidth : ∀ row ∈ bulk (rowKey file.schema r.primaryKeyColumns) (seesKey file.schema r.primaryKeyColumns)
        (builtRow codec file.schema) file.rows (events.map logChange), row.length = file.schema.length := by
      intro row hrow
      rcases List.mem_append.mp hrow with hrow | hrow
      · exact file.wf row (List.mem_filter.mp hrow).1
      · obtain ⟨columns, -, rfl⟩ := List.mem_map.mp hrow
        exact List.length_map _
    have hperm := (bulk_perm_replay_iff hkeyed.nodup hhistory.possible
      (keysKept_of_agrees hhistory.possible hagrees)).mpr hagrees
    refine ⟨⟨file.schema, _, hwidth⟩, (applyWalEvents_ok_iff hkeyed hhistory).mpr ⟨hempty, hstorable, rfl, rfl⟩, rfl,
      hperm, ?_⟩
    exact ((hperm.map _).nodup_iff).mpr (nodup_replay hkeyed.nodup hhistory.possible)

end Both

/-! ### A file of two columns -/

def byId : ParquetRewriter := ⟨["id"]⟩

def plainCodec : CellCodec := ⟨fun v => v.toInt.toNat, UInt32.toNat, List.length⟩

def namesFile : RecordBatch where
  schema := [⟨"id", .int64, false⟩, ⟨"name", .utf8, true⟩]
  rows := [[some (.int 1), some (.text "Ada")]]
  wf := by decide

def named (eventType : WalEventType) (id : Int64) (name : String) : WalEvent :=
  ⟨eventType, .int64 id, [("id", .int64 id), ("name", .string name)]⟩

def renamings : List WalEvent := [⟨.delete, .int64 1, []⟩, named .insert 1 "Grace", named .insert 2 "Edsger"]

theorem namesFile_keyed : Keyed byId namesFile where
  columns := List.cons_ne_nil _ _
  typed name hname := by
    obtain rfl := List.mem_singleton.mp hname
    exact ⟨.int64, rfl, .inl rfl⟩
  nodup := by decide
  nonNull := by decide

theorem applyWalEvents_renamings : ∃ out, byId.applyWalEvents plainCodec namesFile renamings = .ok out ∧
    out.schema = namesFile.schema ∧
    out.rows.Perm (replay (rowKey namesFile.schema ["id"]) (wantedRow (fun _ _ => none) namesFile.schema) namesFile.rows
      (renamings.map logChange)) ∧
    (out.rows.map (rowKey namesFile.schema ["id"])).Nodup := by
  have hhistory : History (fun _ _ => none) byId namesFile renamings :=
    ⟨by decide, List.mem_singleton_self _, ⟨by decide, by decide⟩, ⟨by decide, by decide⟩, trivial⟩
  have hstorable : ∀ columns ∈ written byId namesFile renamings, Storable plainCodec namesFile.schema columns := by
    intro columns hcolumns field hfield
    have hwritten :
      written byId namesFile renamings = [(named .insert 1 "Grace").columns, (named .insert 2 "Edsger").columns] :=
      rfl
    rw [hwritten] at hcolumns
    rcases List.mem_pair.mp hcolumns with rfl | rfl <;> rcases List.mem_pair.mp hfield with rfl | rfl <;>
      exact ⟨rfl, _, rfl, fun h => by cases h⟩
  refine (applyWalEvents_iff namesFile_keyed hhistory).mpr
    ⟨fun h => absurd h (List.cons_ne_nil _ _), hstorable, fun key => ?_⟩
  by_cases hfirst : key = [some (.int 1)]
  · subst hfirst
    exact .inr (.inr (.inr ⟨_, _, _, rfl, rfl⟩))
  · by_cases hsecond : key = [some (.int 2)]
    · subst hsecond
      exact .inr ⟨_, _, [], rfl, fun c hc => absurd hc List.not_mem_nil, rfl⟩
    · have hnone : (renamings.map logChange).filter (·.key = key) = [] := by
        rw [List.filter_eq_nil_iff]
        intro c hc
        rcases List.mem_cons.mp hc with rfl | hc
        · exact fun h => hfirst (of_decide_eq_true h).symm
        · rcases List.mem_pair.mp hc with rfl | rfl
          · exact fun h => hfirst (of_decide_eq_true h).symm
          · exact fun h => hsecond (of_decide_eq_true h).symm
      rw [hnone]
      exact rowAgrees_nil _ _

/-- The update of a row that was inserted by the same events is lost. -/
theorem later_update_lost :
    ∃ out, byId.applyWalEvents plainCodec namesFile [named .insert 2 "Edsger", named .update 2 "Barbara"] =
      .ok out ∧ History (fun _ _ => none) byId namesFile [named .insert 2 "Edsger", named .update 2 "Barbara"] ∧
    ¬out.rows.Perm
      (replay (rowKey namesFile.schema ["id"]) (wantedRow (fun _ _ => none) namesFile.schema) namesFile.rows
      ([named .insert 2 "Edsger", named .update 2 "Barbara"].map logChange)) := by
  refine ⟨_, rfl, ⟨by decide, ⟨by decide, by decide⟩, ⟨by decide, by decide⟩, trivial⟩, ?_⟩
  decide

end Reiver.Pond.ParquetRewriter
