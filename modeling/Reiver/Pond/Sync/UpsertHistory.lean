import Reiver.Pond.Sync.WarmTable

/-! # Incremental syncs with a primary key

A history of incremental syncs of a keyed table. Each partition holds, for every key, the last row delivered
for the key on the date of the partition (`incrementalSyncs_latest`). The table as a whole is an upsert of
what was delivered exactly if no key was delivered on two dates (`upserted_iff`). The batches of a delivery may differ
in their columns as long as the key and the date stand in one place. -/

namespace Reiver.Pond

/-- What an incremental sync delivers, and the day. -/
structure Delivery where
  batches : List RecordBatch
  today : NaiveDate

namespace Delivery

def rows (d : Delivery) : List DatedRow := datedRows d.today d.batches

/-- The key columns, and the column that dates the rows, stand in every batch where they stand in the first. -/
structure SamePlaces (pkColumns : List String) (d : Delivery) : Prop where
  keys : Aligned pkColumns d.batches
  date : ∀ b ∈ d.batches, timestampColumn b.schema = dateColumn d.batches

end Delivery

def incrementalSyncs (env : ArrowEnv) (pkColumns : List String) (t : WarmTable) (deliveries : List Delivery) :
    Except MergeError WarmTable :=
  deliveries.foldlM (fun t d => mergeWarmIncremental env pkColumns t d.today d.batches) t

def WarmTable.allRows (t : WarmTable) : List DatedRow :=
  t.keys.flatMap fun date => (t.rows date).map fun row => { date, row }

def rowsOf (env : ArrowEnv) (pkColumns : List String) (key : String) (rows : List DatedRow) : List DatedRow :=
  rows.filter fun r => pkKey env pkColumns r.row = some key

/-- The union of the partitions holds each key once, with the row delivered last. -/
def Upserted (env : ArrowEnv) (pkColumns : List String) (delivered : List DatedRow) (t : WarmTable) : Prop :=
  ∀ key, (rowsOf env pkColumns key t.allRows).map (eraseMeta ·.row) =
    ((rowsOf env pkColumns key delivered).getLast?.map (eraseMeta ·.row)).toList

/-- A table to start from: files of one schema in each partition, each key at most once. -/
structure KeyedTable (env : ArrowEnv) (pkColumns : List String) (t : WarmTable) : Prop where
  oneSchema : OneSchema t
  once : ∀ key, (rowsOf env pkColumns key t.allRows).length ≤ 1

/-- Each partition holds the last row of a key among those delivered for its date. -/
structure Latest (env : ArrowEnv) (pkColumns : List String) (delivered : List DatedRow) (t : WarmTable) : Prop where
  oneSchema : OneSchema t
  rows : ∀ date key, ((t.rows date).map (ident env pkColumns)).filter (·.1 = some key) =
    (lastOf Prod.fst (some key) ((rowsOn date delivered).map (ident env pkColumns))).toList

section History
variable {env : ArrowEnv} {pkColumns : List String} {t t' : WarmTable} {delivered : List DatedRow} {key : String}
  {date : NaiveDate}

theorem rows_eq_nil (h : date ∉ t.keys) : t.rows date = [] := by
  have hnone : t.lookup date = none := AList.lookup_eq_none.mpr fun hmem => h (AList.mem_keys.mp hmem)
  rw [WarmTable.rows, WarmTable.files, hnone]
  rfl

theorem rowsOn_allRows (t : WarmTable) (date : NaiveDate) : rowsOn date t.allRows = t.rows date := by
  have hfilter : ∀ date', ((t.rows date').map fun row => ({ date := date', row } : DatedRow)).filter (·.date = date) =
      if date' = date then (t.rows date').map fun row => ({ date := date', row } : DatedRow) else [] := by
    intro date'
    split
    · next h => exact List.filter_eq_self.mpr (by simpa using fun _ _ => h)
    · next h => exact List.filter_eq_nil_iff.mpr (by simpa using fun _ _ => h)
  rw [rowsOn, WarmTable.allRows, List.filter_flatMap]
  simp only [hfilter]
  rw [flatMap_single t.keys_nodup (fun k _ hk => if_neg hk) fun hk => by rw [rows_eq_nil hk]; split <;> rfl,
    if_pos rfl, List.map_map]
  exact List.map_id _

theorem rowsOf_rowsOn (rows : List DatedRow) (date : NaiveDate) (key : String) :
    ((rowsOn date rows).map (ident env pkColumns)).filter (·.1 = some key) =
      ((rowsOf env pkColumns key rows).filter (·.date = date)).map (ident env pkColumns ·.row) := by
  rw [rowsOn, List.map_map, List.filter_map, rowsOf, List.filter_filter, List.filter_filter]
  refine congrArg _ (List.filter_congr fun r _ => ?_)
  exact Bool.and_comm _ _

theorem filter_date (rows : List DatedRow) (date : NaiveDate) :
    rows.filter (·.date = date) = (rowsOn date rows).map fun row => { date, row } := by
  rw [rowsOn, List.map_map]
  refine ((List.map_congr_left fun r hr => ?_).trans (List.map_id _)).symm
  rw [← of_decide_eq_true (List.mem_filter.mp hr).2]
  rfl

theorem map_perm_of_rowsOn {β : Type} (g : RowView → β) {rows rows' : List DatedRow}
    (h : ∀ date, ((rowsOn date rows).map g).Perm ((rowsOn date rows').map g)) :
    (rows.map (g ·.row)).Perm (rows'.map (g ·.row)) := by
  refine map_perm_of_filter DatedRow.date _ fun date => ?_
  rw [filter_date, filter_date, List.map_map, List.map_map]
  exact h date

theorem writeWarmIncremental_allRows (env : ArrowEnv) (t : WarmTable) (today : NaiveDate) (batches : List RecordBatch) :
    (writeWarmIncremental env t today batches).allRows.Perm (t.allRows ++ datedRows today batches) := by
  refine perm_of_filter DatedRow.date fun date => ?_
  rw [filter_date, filter_date, rowsOn_allRows, rowsOn_append, rowsOn_allRows, writeWarmIncremental_rows]

theorem firstLoad_keyed {schema : Schema} {d : Delivery} (huni : Uniform schema d.batches)
    (hkeys : ∀ key, (rowsOf env pkColumns key d.rows).length ≤ 1) :
    KeyedTable env pkColumns (writeWarmIncremental env ∅ d.today d.batches) := by
  refine ⟨fun date => ⟨schema, ?_⟩, fun key => ?_⟩
  · exact writeWarmIncremental_uniform huni (fun _ _ hb => absurd hb List.not_mem_nil) date
  · have hrows := writeWarmIncremental_allRows env ∅ d.today d.batches
    exact (Nat.le_of_eq (hrows.filter _).length_eq).trans (hkeys key)

theorem keyedTable_latest (h : KeyedTable env pkColumns t) : Latest env pkColumns t.allRows t := by
  refine ⟨h.oneSchema, fun date key => ?_⟩
  rw [lastOf, rowsOn_allRows]
  conv => lhs; rw [← rowsOn_allRows t date]
  conv => rhs; rw [← rowsOn_allRows t date]
  rw [rowsOf_rowsOn]
  have hlen := (List.length_filter_le (fun r : DatedRow => decide (r.date = date)) _).trans (h.once key)
  generalize (rowsOf env pkColumns key t.allRows).filter (·.date = date) = l at hlen
  cases l with
  | nil => rfl
  | cons r rest =>
    obtain rfl := List.length_eq_zero_iff.mp (Nat.le_zero.mp (Nat.le_of_succ_le_succ hlen))
    rfl

theorem mergeWarmIncremental_latest (hpk : pkColumns ≠ []) (ht : Latest env pkColumns delivered t) {d : Delivery}
    (hplaces : d.SamePlaces pkColumns) (h : mergeWarmIncremental env pkColumns t d.today d.batches = .ok t') :
    Latest env pkColumns (delivered ++ d.rows) t' := by
  obtain ⟨hschema, hrows⟩ := mergeWarmIncremental_ok hpk hplaces.keys ht.oneSchema h
  refine ⟨hschema, fun date key => ?_⟩
  rw [hrows date, filter_upsert, rowsOn_append, List.map_append, lastOf_append]
  show _ = ((lastOf Prod.fst (some key) ((rowsOn date (datedRows d.today d.batches)).map _)).or _).toList
  cases lastOf Prod.fst (some key) ((rowsOn date (datedRows d.today d.batches)).map (ident env pkColumns)) with
  | some a => rfl
  | none => exact ht.rows date key

theorem incrementalSyncs_latest (hpk : pkColumns ≠ []) (ht : Latest env pkColumns delivered t)
    {deliveries : List Delivery} (hplaces : ∀ d ∈ deliveries, d.SamePlaces pkColumns)
    (h : incrementalSyncs env pkColumns t deliveries = .ok t') :
    Latest env pkColumns (delivered ++ deliveries.flatMap Delivery.rows) t' := by
  induction deliveries generalizing t delivered with
  | nil =>
    cases h
    rwa [List.flatMap_nil, List.append_nil]
  | cons d deliveries ih =>
    rw [incrementalSyncs, List.foldlM_cons] at h
    obtain ⟨mid, hmid, h⟩ := bind_ok h
    rw [List.flatMap_cons, ← List.append_assoc]
    obtain ⟨hd, hplaces⟩ := List.forall_mem_cons.mp hplaces
    exact ih (mergeWarmIncremental_latest hpk ht hd hmid) hplaces h

theorem Latest.rowsOf_filter (h : Latest env pkColumns delivered t) (date : NaiveDate) (key : String) :
    ((rowsOf env pkColumns key t.allRows).filter (·.date = date)).map (ident env pkColumns ·.row) =
      (((rowsOf env pkColumns key delivered).filter (·.date = date)).getLast?.map
        (ident env pkColumns ·.row)).toList := by
  have hrows := h.rows date key
  rw [← rowsOn_allRows t date, rowsOf_rowsOn, lastOf, rowsOf_rowsOn, List.getLast?_map] at hrows
  exact hrows

theorem Latest.date_mem (h : Latest env pkColumns delivered t) (date : NaiveDate) (key : String) :
    (∃ r ∈ rowsOf env pkColumns key t.allRows, r.date = date) ↔
      ∃ r ∈ rowsOf env pkColumns key delivered, r.date = date := by
  have hnil : ∀ l : List DatedRow, (∃ r ∈ l, r.date = date) ↔ l.filter (·.date = date) ≠ [] := fun l => by
    rw [ne_eq, List.filter_eq_nil_iff]
    simp
  have hfilter := h.rowsOf_filter date key
  rw [hnil, hnil, not_iff_not, ← List.map_eq_nil_iff, hfilter]
  cases hlast : ((rowsOf env pkColumns key delivered).filter (·.date = date)).getLast? with
  | none => exact iff_of_true rfl (List.getLast?_eq_none_iff.mp hlast)
  | some r =>
    refine iff_of_false (List.cons_ne_nil _ _) fun hd => ?_
    rw [hd] at hlast
    cases hlast

theorem Latest.upserted (h : Latest env pkColumns delivered t)
    (hdates : ∀ key, ∀ a ∈ rowsOf env pkColumns key delivered, ∀ b ∈ rowsOf env pkColumns key delivered,
      a.date = b.date) : Upserted env pkColumns delivered t := by
  intro key
  cases hd : rowsOf env pkColumns key delivered with
  | nil =>
    have hnil : rowsOf env pkColumns key t.allRows = [] := List.eq_nil_iff_forall_not_mem.mpr fun r hr => by
      obtain ⟨r', hr', -⟩ := (h.date_mem r.date key).mp ⟨r, hr, rfl⟩
      rw [hd] at hr'
      cases hr'
    rw [hnil]
    rfl
  | cons d ds =>
    have hdmem : d ∈ rowsOf env pkColumns key delivered := hd ▸ List.mem_cons_self
    have hdelivered :
      (rowsOf env pkColumns key delivered).filter (·.date = d.date) = rowsOf env pkColumns key delivered :=
      List.filter_eq_self.mpr fun r hr => decide_eq_true (hdates key r hr d hdmem)
    have hstored :
      (rowsOf env pkColumns key t.allRows).filter (·.date = d.date) = rowsOf env pkColumns key t.allRows := by
      refine List.filter_eq_self.mpr fun r hr => decide_eq_true ?_
      obtain ⟨r', hr', hdate⟩ := (h.date_mem r.date key).mp ⟨r, hr, rfl⟩
      exact hdate ▸ hdates key r' hr' d hdmem
    have hrows := congrArg (List.map Prod.snd) (h.rowsOf_filter d.date key)
    rw [hstored, hdelivered, List.map_map, ← Option.toList_map, Option.map_map] at hrows
    rw [← hd]
    exact hrows

end History

/-- Whenever a history of incremental syncs succeeds whose deliveries keep their columns in place, the table is an
    upsert of the rows it started with and of the rows delivered if and only if no key was delivered on two dates. -/
theorem upserted_iff (env : ArrowEnv) (pkColumns : List String) (start t : WarmTable) (deliveries : List Delivery)
    (hpk : pkColumns ≠ []) (hstart : KeyedTable env pkColumns start)
    (hplaces : ∀ d ∈ deliveries, d.SamePlaces pkColumns) (h : incrementalSyncs env pkColumns start deliveries = .ok t) :
    Upserted env pkColumns (start.allRows ++ deliveries.flatMap Delivery.rows) t ↔
      ∀ key, ∀ a ∈ rowsOf env pkColumns key (start.allRows ++ deliveries.flatMap Delivery.rows),
        ∀ b ∈ rowsOf env pkColumns key (start.allRows ++ deliveries.flatMap Delivery.rows), a.date = b.date := by
  have hlatest := incrementalSyncs_latest hpk (keyedTable_latest hstart) hplaces h
  refine ⟨fun hupserted key a ha b hb => ?_, hlatest.upserted⟩
  obtain ⟨a', ha', hadate⟩ := (hlatest.date_mem a.date key).mpr ⟨a, ha, rfl⟩
  obtain ⟨b', hb', hbdate⟩ := (hlatest.date_mem b.date key).mpr ⟨b, hb, rfl⟩
  have hlen : (rowsOf env pkColumns key t.allRows).length ≤ 1 := by
    rw [← List.length_map, hupserted key]
    exact Option.length_toList_le
  have hsame : a' = b' := by
    generalize rowsOf env pkColumns key t.allRows = l at ha' hb' hlen
    match l, hlen with
    | [r], _ => exact (List.mem_singleton.mp ha').trans (List.mem_singleton.mp hb').symm
  rw [← hadate, ← hbdate, hsame]

/-! ### A key that moves to another date -/

def eventsSchema : Schema := [⟨"id", .int64, false⟩, ⟨"day", .date32, true⟩]

/-- Rows of an `id` with a `day`. -/
def eventsDelivery (today : NaiveDate) (rows : List (Int × NaiveDate)) : Delivery where
  batches := [{
    schema := eventsSchema
    rows := rows.map fun r => [some (.int r.1), some (.int r.2)]
    wf := fun row hrow => by
      obtain ⟨r, -, rfl⟩ := List.mem_map.mp hrow
      rfl }]
  today := today

theorem eventsDelivery_uniform (today : NaiveDate) (rows : List (Int × NaiveDate)) :
    Uniform eventsSchema (eventsDelivery today rows).batches := fun b hb => by rw [List.mem_singleton.mp hb]

theorem eventsDelivery_samePlaces (today : NaiveDate) (rows : List (Int × NaiveDate)) :
    (eventsDelivery today rows).SamePlaces ["id"] where
  keys := (eventsDelivery_uniform today rows).aligned _
  date := fun b hb => by
    rw [eventsDelivery_uniform today rows b hb]
    rfl

def plainEnv : ArrowEnv where
  fmt := fun _ v => match v with
    | .int i => some (toString i)
    | .text s => some s
    | .bits _ => none
  arrayMemorySize := fun b => b.numRows * 64
  rowsPerChunk := fun rows _ _ => rows

theorem emptyTable_keyed (env : ArrowEnv) (pkColumns : List String) : KeyedTable env pkColumns ∅ :=
  ⟨fun _ => ⟨[], fun _ hb => (nomatch hb)⟩, fun _ => Nat.zero_le _⟩

/-- A row updated in place is upserted. -/
theorem sameDay_upserted : ∃ t,
    incrementalSyncs plainEnv ["id"] ∅
      [eventsDelivery 20000 [(1, 19000), (2, 19001)], eventsDelivery 20001 [(1, 19000)]] = .ok t ∧
    (Upserted plainEnv ["id"] ((∅ : WarmTable).allRows ++
        [eventsDelivery 20000 [(1, 19000), (2, 19001)], eventsDelivery 20001 [(1, 19000)]].flatMap Delivery.rows) t ↔
      ∀ key, ∀ a ∈ rowsOf plainEnv ["id"] key ((∅ : WarmTable).allRows ++
          [eventsDelivery 20000 [(1, 19000), (2, 19001)], eventsDelivery 20001 [(1, 19000)]].flatMap Delivery.rows),
        ∀ b ∈ rowsOf plainEnv ["id"] key ((∅ : WarmTable).allRows ++
          [eventsDelivery 20000 [(1, 19000), (2, 19001)], eventsDelivery 20001 [(1, 19000)]].flatMap Delivery.rows),
        a.date = b.date) :=
  ⟨_, rfl, upserted_iff plainEnv ["id"] ∅ _ _ (List.cons_ne_nil _ _) (emptyTable_keyed _ _)
    (by simp [eventsDelivery_samePlaces]) rfl⟩

/-- The second version of a row is dated a day later; both versions stay. -/
theorem movedRow_not_upserted : ∃ t,
    incrementalSyncs plainEnv ["id"] ∅ [eventsDelivery 20000 [(1, 19000)], eventsDelivery 20001 [(1, 19001)]] = .ok t ∧
    ¬Upserted plainEnv ["id"] ((∅ : WarmTable).allRows ++
      [eventsDelivery 20000 [(1, 19000)], eventsDelivery 20001 [(1, 19001)]].flatMap Delivery.rows) t := by
  refine ⟨_, rfl, fun h => ?_⟩
  have hlen := congrArg List.length (h "5:I64:1")
  rw [List.length_map] at hlen
  exact absurd hlen (by decide)

end Reiver.Pond
