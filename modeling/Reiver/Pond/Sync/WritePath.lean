import Reiver.Lib.Int64
import Reiver.Pond.Sync.DateBuckets

/-! # The rows of the write path

What becomes of the rows of a sync when its batches are partitioned by date and each bucket is split by size: whether
every row is written once, in order and under the date of its value, whatever today is and whatever the target size. -/

namespace Reiver.Pond

/-- The day of a cell of a date column since the epoch. -/
def utcDay : DataType → Cell → Option Int
  | .timestamp unit _, some (.int v) => some (v / (unit.perSecond * secondsPerDay))
  | .date32, some (.int v) => some v
  | .date64, some (.int v) => some (v / (1000 * secondsPerDay))
  | _, _ => none

def dayAt (idx : Nat) (schema : Schema) (row : BatchRow) : Option Int :=
  (schema[idx]?).bind fun field => utcDay field.dataType (row[idx]?).join

/-- The day of a row by the date column of its own batch. -/
def ownDay (schema : Schema) (row : BatchRow) : Option Int :=
  (timestampColumn schema).bind fun idx => dayAt idx schema row

/-- The days since the epoch are added to those before it in 32 bits. -/
def dateOverflows : DataType → Cell → Bool
  | .date32, some (.int v) => !decide (InInt32 (v + 719163))
  | _, _ => false

/-- Reading the date of a row panics where the batch has no such column, and where the sum overflows. -/
def rowPanics (idx : Nat) (schema : Schema) (row : BatchRow) : Bool :=
  (schema[idx]?).elim true fun field => dateOverflows field.dataType (row[idx]?).join

def partitionPanics (batches : List RecordBatch) : Bool :=
  (dateColumn batches).elim false fun idx => batches.any fun b => b.rows.any (rowPanics idx b.schema)

/-- The chunks that are written for each date, unless the partition panics. -/
def writePath (env : ArrowEnv) (today : NaiveDate) (target : Nat) (batches : List RecordBatch) :
    Option (List (NaiveDate × List (List RecordBatch))) :=
  if partitionPanics batches then none
  else some ((partitionBatchesByDate today batches).map fun e => (e.1, splitBatchesBySize env e.2 target))

/-- The rows of some batches, each with its schema. -/
def taggedRows (batches : List RecordBatch) : List (Schema × BatchRow) := rowsBy Prod.mk batches

/-- Every row is in one chunk, the rows of a date in order and under the date of their values. -/
structure Written (batches : List RecordBatch) (files : List (NaiveDate × List (List RecordBatch))) : Prop where
  distinct : (files.map Prod.fst).Nodup
  complete : (files.flatMap fun e => taggedRows e.2.flatten).Perm (taggedRows batches)
  ordered : ∀ e ∈ files, (taggedRows e.2.flatten).Sublist (taggedRows batches)
  nonempty : ∀ e ∈ files, ∀ chunk ∈ e.2, taggedRows chunk ≠ []
  dated : ∀ e ∈ files, ∀ row ∈ taggedRows e.2.flatten, ∀ day, ownDay row.1 row.2 = some day → e.1 = day

/-- With a date column in the first batch: its place has in every row a readable cell, of the day of the row if the row
    has one, and `chrono` has that day. Without one: no row has a day, and every batch has rows. -/
def Placeable (batches : List RecordBatch) : Prop :=
  match dateColumn batches with
  | some idx => ∀ b ∈ batches, ∀ row ∈ b.rows, rowPanics idx b.schema row = false ∧
      ∀ day, ownDay b.schema row = some day →
        dayAt idx b.schema row = some day ∧ NaiveDate.ofDays? day = some day
  | none => ∀ b ∈ batches, b.rows ≠ [] ∧ ∀ row ∈ b.rows, ownDay b.schema row = none

/-! ### Chunks with rows -/

section Chunks
variable {env : ArrowEnv} {target : Nat} {c : Chunking} {b : RecordBatch}

/-- Only batches with rows, in no empty chunk. -/
structure Chunking.Filled (c : Chunking) : Prop where
  chunks : ∀ chunk ∈ c.chunks, chunk ≠ [] ∧ ∀ b ∈ chunk, b.rows ≠ []
  current : ∀ b ∈ c.current, b.rows ≠ []

theorem Chunking.Filled.flush (h : c.Filled) : c.flush.Filled := by
  rw [Chunking.flush]
  split
  · next hne =>
    refine ⟨fun chunk hchunk => ?_, fun b hb => absurd hb List.not_mem_nil⟩
    rcases List.mem_append.mp hchunk with hchunk | hchunk
    · exact h.chunks chunk hchunk
    · exact List.mem_singleton.mp hchunk ▸ ⟨hne, h.current⟩
  · exact h

theorem Chunking.Filled.append (h : c.Filled) (hb : b.rows ≠ []) (size : Nat) :
    ({ c with current := c.current ++ [b], size } : Chunking).Filled := by
  refine ⟨h.chunks, fun b' hb' => ?_⟩
  rcases List.mem_append.mp hb' with hb' | hb'
  · exact h.current b' hb'
  · exact List.mem_singleton.mp hb' ▸ hb

theorem Chunking.Filled.push (h : c.Filled) (hb : b.rows ≠ []) : (c.push env target b).Filled := by
  rw [Chunking.push]
  split
  · exact h.flush.append hb _
  · exact h.append hb _

theorem slicesFrom_filled {len : Nat} (hlen : 0 < len) (fuel offset : Nat) :
    ∀ s ∈ slicesFrom b len fuel offset, s.rows ≠ [] := by
  induction fuel generalizing offset with
  | zero => exact fun s hs => absurd hs List.not_mem_nil
  | succ fuel ih =>
    intro s hs
    rw [slicesFrom] at hs
    split at hs
    · next hlt =>
      rcases List.mem_cons.mp hs with rfl | hs
      · intro hnil
        have hlength := congrArg List.length hnil
        rw [RecordBatch.slice, List.length_take, List.length_drop, List.length_nil, RecordBatch.numRows] at hlength
        rw [RecordBatch.numRows] at hlt
        omega
      · exact ih _ s hs
    · exact absurd hs List.not_mem_nil

theorem Chunking.Filled.foldl_push {slices : List RecordBatch} (hslices : ∀ s ∈ slices, s.rows ≠ []) (h : c.Filled) :
    (slices.foldl (·.push env target) c).Filled := by
  induction slices generalizing c with
  | nil => exact h
  | cons s slices ih =>
    exact ih (fun s' hs' => hslices s' (List.mem_cons_of_mem _ hs')) (h.push (hslices s List.mem_cons_self))

theorem Chunking.Filled.splitBatch (h : c.Filled) (hb : b.rows ≠ []) : (splitBatch env target c b).Filled := by
  rw [Pond.splitBatch]
  dsimp only
  split
  · exact h.flush.foldl_push (slicesFrom_filled (lt_max_of_lt_right Nat.zero_lt_one) _ _)
  · exact h.push hb

theorem splitBatchesBySize_nonempty {batches : List RecordBatch} (h : ∀ b ∈ batches, b.rows ≠ []) :
    ∀ chunk ∈ splitBatchesBySize env batches target, taggedRows chunk ≠ [] := by
  have hfold : ∀ (batches : List RecordBatch) (c : Chunking), (∀ b ∈ batches, b.rows ≠ []) → c.Filled →
      (batches.foldl (splitBatch env target) c).Filled := by
    intro batches
    induction batches with
    | nil => exact fun _ _ h => h
    | cons b batches ih =>
      intro c hrows hc
      exact ih _ (fun b' hb' => hrows b' (List.mem_cons_of_mem _ hb')) (hc.splitBatch (hrows b List.mem_cons_self))
  have hfilled : ∀ chunk : List RecordBatch, chunk ≠ [] → (∀ b ∈ chunk, b.rows ≠ []) → taggedRows chunk ≠ [] := by
    intro chunk hne hrows hnil
    obtain ⟨b, hb⟩ := List.exists_mem_of_ne_nil chunk hne
    obtain ⟨row, hrow⟩ := List.exists_mem_of_ne_nil b.rows (hrows b hb)
    have hmem : (b.schema, row) ∈ taggedRows chunk := mem_rowsBy.mpr ⟨b, hb, row, hrow, rfl⟩
    exact List.not_mem_nil (hnil ▸ hmem)
  intro chunk hchunk
  rw [splitBatchesBySize] at hchunk
  split at hchunk
  · next hall =>
    rw [List.mem_singleton.mp hchunk]
    exact hfilled batches hall.2 h
  · have hc :=
      (hfold batches {} h ⟨fun _ hc => absurd hc List.not_mem_nil, fun _ hb => absurd hb List.not_mem_nil⟩).flush
    exact hfilled chunk (hc.chunks chunk hchunk).1 (hc.chunks chunk hchunk).2

/-! ### A target of no bytes -/

def ApartRows (chunk : List RecordBatch) : Prop := (∀ b ∈ chunk, b.rows = []) ∨ ∃ b, chunk = [b]

/-- Nothing is put together with a batch that has rows. -/
structure Chunking.Apart (c : Chunking) : Prop where
  chunks : ∀ chunk ∈ c.chunks, ApartRows chunk
  current : ApartRows c.current
  size : (∃ b ∈ c.current, b.rows ≠ []) → 0 < c.size

theorem Chunking.Apart.flush (h : c.Apart) : c.flush.Apart := by
  rw [Chunking.flush]
  split
  · refine ⟨fun chunk hchunk => ?_, .inl fun b hb => absurd hb List.not_mem_nil, ?_⟩
    · rcases List.mem_append.mp hchunk with hchunk | hchunk
      · exact h.chunks chunk hchunk
      · exact List.mem_singleton.mp hchunk ▸ h.current
    · rintro ⟨b, hb, -⟩
      exact absurd hb List.not_mem_nil
  · exact h

theorem Chunking.Apart.push (hmem : ∀ b, b.rows ≠ [] → 0 < env.arrayMemorySize b) (h : c.Apart) :
    (c.push env 0 b).Apart := by
  have hone : ∀ {c : Chunking}, c.Apart → c.current = [] → ({ c with
      current := c.current ++ [b], size := c.size + env.arrayMemorySize b } : Chunking).Apart := by
    intro c hc hnil
    refine ⟨hc.chunks, .inr ⟨b, by rw [hnil]; rfl⟩, ?_⟩
    rintro ⟨b', hb', hrows⟩
    rw [hnil] at hb'
    exact Nat.add_pos_right _ (hmem b (List.mem_singleton.mp hb' ▸ hrows))
  rw [Chunking.push]
  split
  · exact hone h.flush (flush_current c)
  · next hopen =>
    by_cases hnil : c.current = []
    · exact hone h hnil
    · have hsize : c.size = 0 ∧ env.arrayMemorySize b = 0 := by
        have := Nat.le_of_not_lt fun hlt => hopen ⟨hnil, hlt⟩
        omega
      have hrowless : ∀ b' ∈ c.current ++ [b], b'.rows = [] := by
        intro b' hb'
        by_contra hrows
        rcases List.mem_append.mp hb' with hb' | hb'
        · have := h.size ⟨b', hb', hrows⟩
          omega
        · rw [List.mem_singleton.mp hb'] at hrows
          have := hmem b hrows
          omega
      refine ⟨h.chunks, .inl hrowless, ?_⟩
      rintro ⟨b', hb', hrows⟩
      exact absurd (hrowless b' hb') hrows

theorem Chunking.Apart.foldl_push (hmem : ∀ b, b.rows ≠ [] → 0 < env.arrayMemorySize b) {slices : List RecordBatch}
    (h : c.Apart) : (slices.foldl (·.push env 0) c).Apart := by
  induction slices generalizing c with
  | nil => exact h
  | cons s slices ih => exact ih (h.push hmem)

theorem Chunking.Apart.splitBatch (hmem : ∀ b, b.rows ≠ [] → 0 < env.arrayMemorySize b) (h : c.Apart) :
    (splitBatch env 0 c b).Apart := by
  rw [Pond.splitBatch]
  dsimp only
  split
  · exact h.flush.foldl_push hmem
  · exact h.push hmem

theorem mem_splitBatch (hb : b.rows = []) : b ∈ (splitBatch env target c b).batches := by
  have hfew : ¬ (env.arrayMemorySize b > target ∧ b.numRows > 1) := by
    rw [RecordBatch.numRows, hb]
    exact fun h => absurd h.2 (by decide)
  rw [splitBatch]
  dsimp only
  rw [if_neg hfew, push_batches]
  exact List.mem_append_right _ (List.mem_singleton_self b)

theorem exists_empty_chunk (hmem : ∀ b, b.rows ≠ [] → 0 < env.arrayMemorySize b) {batches : List RecordBatch}
    (hb : b ∈ batches) (hrows : b.rows = []) : ∃ chunk ∈ splitBatchesBySize env batches 0, taggedRows chunk = [] := by
  have hfold : ∀ (batches : List RecordBatch) (c : Chunking), c.Apart → b ∈ batches ∨ b ∈ c.batches →
      (batches.foldl (splitBatch env 0) c).Apart ∧ b ∈ (batches.foldl (splitBatch env 0) c).batches := by
    intro batches
    induction batches with
    | nil => exact fun c hc hin => ⟨hc, hin.resolve_left List.not_mem_nil⟩
    | cons b' batches ih =>
      intro c hc hin
      refine ih _ (hc.splitBatch hmem) ?_
      rcases hin with hin | hin
      · rcases List.mem_cons.mp hin with rfl | hin
        · exact .inr (mem_splitBatch hrows)
        · exact .inl hin
      · obtain ⟨parts, hparts, -⟩ := @splitBatch_batches env 0 _ Prod.mk c b'
        exact .inr (hparts ▸ List.mem_append_left _ hin)
  obtain ⟨hapart, hin⟩ := hfold batches {} ⟨fun _ hc => absurd hc List.not_mem_nil,
    .inl fun _ hb => absurd hb List.not_mem_nil, by rintro ⟨_, hb, _⟩; exact absurd hb List.not_mem_nil⟩ (.inl hb)
  rw [← flush_batches, Chunking.batches, flush_current, List.append_nil] at hin
  obtain ⟨chunk, hchunk, hbchunk⟩ := List.mem_flatten.mp hin
  refine ⟨chunk, ?_, ?_⟩
  · rw [splitBatchesBySize, if_neg fun h => List.ne_nil_of_mem hchunk h.1]
    exact hchunk
  · have hrowless : ∀ b' ∈ chunk, b'.rows = [] := by
      rcases hapart.flush.chunks chunk hchunk with hall | ⟨b', rfl⟩
      · exact hall
      · intro b'' hb''
        rw [List.mem_singleton.mp hb'', ← List.mem_singleton.mp hbchunk, hrows]
    refine List.flatMap_eq_nil_iff.mpr fun b' hb' => ?_
    rw [hrowless b' hb', List.map_nil]

end Chunks

/-! ### Rows and dates -/

section Rows
variable {env : ArrowEnv} {today : NaiveDate} {target idx : Nat} {batches : List RecordBatch} {schema : Schema}
  {row : BatchRow}

theorem extractDate_eq (dataType : DataType) (cell : Cell) :
    extractDate dataType cell = (utcDay dataType cell).bind NaiveDate.ofDays? := by
  cases dataType with
  | timestamp unit tz => rcases cell with _ | (v | s | n) <;> rfl
  | date32 => rcases cell with _ | (v | s | n) <;> rfl
  | date64 => rcases cell with _ | (v | s | n) <;> rfl
  | _ => rfl

theorem extractDateFromRow_eq : extractDateFromRow schema idx row = (dayAt idx schema row).bind NaiveDate.ofDays? := by
  rw [extractDateFromRow, dayAt]
  cases schema[idx]? with
  | none => rfl
  | some field => exact extractDate_eq _ _

theorem ofDays?_eq_some {day date : Int} (h : NaiveDate.ofDays? day = some date) : date = day := by
  rw [NaiveDate.ofDays?] at h
  split at h
  · exact (Option.some_inj.mp h).symm
  · cases h

theorem mem_readOn {row : Schema × BatchRow} {date : NaiveDate} : row ∈ readOn date (datedBy Prod.mk today batches) ↔
    row ∈ taggedRows batches ∧ bucketDate today (dateColumn batches) row.1 row.2 = date := by
  simp only [readOn_datedBy, taggedRows, mem_rowsBy, List.mem_flatMap, List.mem_map, List.mem_filter,
    decide_eq_true_eq]
  constructor
  · rintro ⟨b, hb, row, ⟨hrow, hdate⟩, rfl⟩
    exact ⟨⟨b, hb, row, hrow, rfl⟩, hdate⟩
  · rintro ⟨⟨b, hb, row, hrow, rfl⟩, hdate⟩
    exact ⟨b, hb, row, ⟨hrow, hdate⟩, rfl⟩

theorem datedBy_rows : (datedBy Prod.mk today batches).map (·.2) = taggedRows batches := by
  rw [datedBy, rowsBy, List.map_flatMap]
  simp only [List.map_map]
  rfl

theorem taggedRows_split {e : NaiveDate × List RecordBatch} (he : e ∈ partitionBatchesByDate today batches) :
    taggedRows (splitBatchesBySize env e.2 target).flatten = readOn e.1 (datedBy Prod.mk today batches) :=
  (splitBatchesBySize_rowsBy Prod.mk env target e.2).1.trans ((partitionBatchesByDate_rowsBy Prod.mk _ _).rows e he)

theorem writePath_complete : ((partitionBatchesByDate today batches).flatMap fun e =>
    taggedRows (splitBatchesBySize env e.2 target).flatten).Perm (taggedRows batches) := by
  have hspec := partitionBatchesByDate_rowsBy Prod.mk today batches
  have hkeys : ∀ row ∈ datedBy Prod.mk today batches, row.1 ∈ (partitionBatchesByDate today batches).map Prod.fst := by
    intro row hrow
    by_contra hnot
    have hread : row.2 ∈ readOn row.1 (datedBy Prod.mk today batches) :=
      List.mem_map_of_mem (List.mem_filter.mpr ⟨hrow, decide_eq_true rfl⟩)
    exact List.not_mem_nil (hspec.complete row.1 hnot ▸ hread)
  have hperm := (perm_flatMap_filter hspec.nodup hkeys).map (·.2)
  rw [datedBy_rows, List.map_flatMap, List.flatMap_map] at hperm
  exact (List.flatMap_congr fun e he => taggedRows_split he) ▸ hperm

theorem partitionPanics_eq_false : partitionPanics batches = false ↔
    ∀ idx, dateColumn batches = some idx → ∀ b ∈ batches, ∀ row ∈ b.rows, rowPanics idx b.schema row = false := by
  rw [partitionPanics]
  cases dateColumn batches with
  | none => exact iff_of_true rfl fun _ h => by cases h
  | some idx =>
    simp only [Option.elim_some, List.any_eq_false, Bool.not_eq_true, Option.some_inj, forall_eq']

theorem Placeable.written (h : Placeable batches) (env : ArrowEnv) (today : NaiveDate) (target : Nat) :
    ∃ files, writePath env today target batches = some files ∧ Written batches files := by
  have hpanics : partitionPanics batches = false := by
    rw [partitionPanics_eq_false]
    intro idx hidx b hb row hrow
    rw [Placeable, hidx] at h
    exact (h b hb row hrow).1
  have hspec := partitionBatchesByDate_rowsBy Prod.mk today batches
  refine ⟨_, if_neg (Bool.eq_false_iff.mp hpanics), ?_, ?_, fun e he => ?_, fun e he chunk hchunk => ?_, fun e he => ?_⟩
  · rw [List.map_map]
    exact hspec.nodup
  · rw [List.flatMap_map]
    exact writePath_complete
  · obtain ⟨bucket, hbucket, rfl⟩ := List.mem_map.mp he
    rw [taggedRows_split hbucket, ← @datedBy_rows today]
    exact List.filter_sublist.map _
  · obtain ⟨bucket, hbucket, rfl⟩ := List.mem_map.mp he
    refine splitBatchesBySize_nonempty (fun b hb => ?_) chunk hchunk
    cases hidx : dateColumn batches with
    | some idx => exact partitionBatchesByDate_filled hidx bucket hbucket b hb
    | none =>
      rw [Placeable, hidx] at h
      rw [partitionBatchesByDate_none hidx bucket hbucket] at hb
      exact (h b hb).1
  · obtain ⟨bucket, hbucket, rfl⟩ := List.mem_map.mp he
    intro row hrow day hday
    rw [taggedRows_split hbucket, mem_readOn] at hrow
    obtain ⟨hrow, hdate⟩ := hrow
    obtain ⟨b, hb, cells, hcells, rfl⟩ := mem_rowsBy.mp hrow
    rw [← hdate]
    cases hidx : dateColumn batches with
    | some idx =>
      rw [Placeable, hidx] at h
      obtain ⟨hat, hofDays⟩ := (h b hb cells hcells).2 day hday
      rw [bucketDate, Option.elim_some, extractDateFromRow_eq, hat, Option.bind_some, hofDays, Option.getD_some]
    | none =>
      rw [Placeable, hidx] at h
      rw [(h b hb).2 cells hcells] at hday
      cases hday

theorem exists_other_date (day : Int) : ∃ today, NaiveDate.ofDays? today = some today ∧ today ≠ day := by
  by_cases h : day = 0
  · exact ⟨1, rfl, by omega⟩
  · exact ⟨0, rfl, fun heq => h heq.symm⟩

/-- Rows that are written whatever today is and whatever the target size can be placed. -/
theorem placeable_of_written (hmem : ∀ b, b.rows ≠ [] → 0 < env.arrayMemorySize b)
    (h : ∀ today target, NaiveDate.ofDays? today = some today →
      ∃ files, writePath env today target batches = some files ∧ Written batches files) : Placeable batches := by
  have hrun : ∀ today, NaiveDate.ofDays? today = some today → partitionPanics batches = false ∧
      Written batches ((partitionBatchesByDate today batches).map fun e => (e.1, splitBatchesBySize env e.2 0)) := by
    intro today htoday
    obtain ⟨files, hfiles, hwritten⟩ := h today 0 htoday
    rw [writePath] at hfiles
    split at hfiles
    · cases hfiles
    · next hpanics => exact ⟨Bool.eq_false_iff.mpr hpanics, Option.some_inj.mp hfiles ▸ hwritten⟩
  -- A row with a day is put under it.
  have hday : ∀ b ∈ batches, ∀ row ∈ b.rows, ∀ day, ownDay b.schema row = some day →
      ∀ today, NaiveDate.ofDays? today = some today →
        bucketDate today (dateColumn batches) b.schema row = day := by
    intro b hb row hrow day hown today htoday
    have hwritten := (hrun today htoday).2
    have hin : (b.schema, row) ∈ taggedRows batches := mem_rowsBy.mpr ⟨b, hb, row, hrow, rfl⟩
    obtain ⟨e, he, hread⟩ := List.mem_flatMap.mp (hwritten.complete.mem_iff.mpr hin)
    have hdated := hwritten.dated e he _ hread day hown
    obtain ⟨bucket, hbucket, rfl⟩ := List.mem_map.mp he
    rw [taggedRows_split hbucket, mem_readOn] at hread
    exact hread.2.trans hdated
  rw [Placeable]
  cases hidx : dateColumn batches with
  | some idx =>
    intro b hb row hrow
    refine ⟨partitionPanics_eq_false.mp (hrun 0 rfl).1 idx hidx b hb row hrow, fun day hown => ?_⟩
    obtain ⟨today, htoday, hne⟩ := exists_other_date day
    have hbucket := hday b hb row hrow day hown today htoday
    rw [hidx, bucketDate, Option.elim_some, extractDateFromRow_eq] at hbucket
    cases hat : dayAt idx b.schema row with
    | none =>
      rw [hat] at hbucket
      exact absurd hbucket hne
    | some day' =>
      rw [hat, Option.bind_some] at hbucket
      cases hofDays : NaiveDate.ofDays? day' with
      | none =>
        rw [hofDays] at hbucket
        exact absurd hbucket hne
      | some date =>
        rw [hofDays, Option.getD_some] at hbucket
        have hdate := ofDays?_eq_some hofDays
        rw [hdate] at hbucket hofDays
        exact hbucket ▸ ⟨rfl, hofDays⟩
  | none =>
    refine fun b hb => ⟨fun hrows => ?_, fun row hrow => ?_⟩
    · obtain ⟨chunk, hchunk, hempty⟩ := exists_empty_chunk hmem hb hrows
      have hone : (0, batches) ∈ partitionBatchesByDate 0 batches := by
        cases batches with
        | nil => exact absurd hb List.not_mem_nil
        | cons first rest =>
          have hcol : timestampColumn first.schema = none := hidx
          rw [partitionBatchesByDate, hcol]
          exact List.mem_singleton_self _
      exact (hrun 0 rfl).2.nonempty _ (List.mem_map_of_mem hone) chunk hchunk hempty
    · cases hown : ownDay b.schema row with
      | none => rfl
      | some day =>
        obtain ⟨today, htoday, hne⟩ := exists_other_date day
        have hbucket := hday b hb row hrow day hown today htoday
        rw [hidx] at hbucket
        exact absurd hbucket hne

/-- Every row is written once, in order, in a chunk with rows and under the date of its value, exactly if the rows can
    be placed. -/
theorem written_iff_placeable (hmem : ∀ b, b.rows ≠ [] → 0 < env.arrayMemorySize b) :
    (∀ today target, NaiveDate.ofDays? today = some today →
      ∃ files, writePath env today target batches = some files ∧ Written batches files) ↔ Placeable batches :=
  ⟨placeable_of_written hmem, fun h today target _ => h.written env today target⟩

end Rows

/-! ### Columns in another order, and the last day -/

section Examples

def chargedByRows : ArrowEnv := ⟨fun _ _ => none, RecordBatch.numRows, fun rows target size => rows * target / size⟩

def dayField : Field := ⟨"day", .date32, true⟩

def noteField : Field := ⟨"note", .utf8, true⟩

def dayFirst : RecordBatch := ⟨[dayField, noteField], [[some (.int 20000), some (.text "a")]], by decide⟩

def noteFirst : RecordBatch := ⟨[noteField, dayField], [[some (.text "b"), some (.int 20001)]], by decide⟩

def lastDay : RecordBatch := ⟨[dayField], [[some (.int 2147483647)]], by decide⟩

theorem chargedByRows_pos (b : RecordBatch) (h : b.rows ≠ []) : 0 < chargedByRows.arrayMemorySize b :=
  List.length_pos_iff.mpr h

theorem written_iff_placeable_dayFirst :
    (∀ today target, NaiveDate.ofDays? today = some today → ∃ files,
      writePath chargedByRows today target [dayFirst] = some files ∧ Written [dayFirst] files) ↔ Placeable [dayFirst] :=
  written_iff_placeable chargedByRows_pos

/-- A batch with the date column in another place goes under today, and the last day of 32 bits is not read at all. -/
theorem not_written :
    (¬ ∀ today target, NaiveDate.ofDays? today = some today → ∃ files,
      writePath chargedByRows today target [dayFirst, noteFirst] = some files ∧
        Written [dayFirst, noteFirst] files) ∧
      ∀ today target, writePath chargedByRows today target [lastDay] = none := by
  refine ⟨fun h => ?_, fun today target => rfl⟩
  have hplaceable := placeable_of_written chargedByRows_pos h
  have hday := (hplaceable noteFirst (by decide) _ (List.mem_singleton_self _)).2 20001 rfl
  exact absurd hday.1 (by decide)

end Examples

end Reiver.Pond
