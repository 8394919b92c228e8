import Reiver.Pond.Sync.WarmTable

/-! # Compaction

What `compact_partition_inner` of `compaction.rs` makes of the batches it has read. It strips and unifies them and
sorts the rows; no row is added or lost (`compactBatches_ok`). -/

namespace Reiver.Pond

/-- `lexsort_to_indices` gives the rows of a batch in the order of some of its columns, or fails on their types. -/
structure CompactionEnv extends ArrowEnv where
  lexsortToIndices : RecordBatch → List Nat → Option (List Nat)
  lexsort_perm : ∀ b sortCols, ∀ indices ∈ lexsortToIndices b sortCols, indices.Perm (List.range b.numRows)

def compactionTargetFileSize : Nat := 200 * 1024 * 1024

def inferSortColumns (schema : Schema) : List String :=
  let names := schema.map (·.name)
  if "id" ∈ names then ["id"]
  else if "created_at" ∈ names then ["created_at"]
  else if "timestamp" ∈ names then ["timestamp"]
  else []

/-- `concat_batches`. -/
def concatBatches (schema : Schema) (batches : List RecordBatch) : Option RecordBatch :=
  if h : ∀ b ∈ batches, b.schema = schema then
    some {
      schema
      rows := batches.flatMap (·.rows)
      wf := fun row hrow => by
        obtain ⟨b, hb, hrow⟩ := List.mem_flatMap.mp hrow
        exact h b hb ▸ b.wf row hrow }
  else none

/-- `take`. -/
def RecordBatch.take (b : RecordBatch) (indices : List Nat) : RecordBatch where
  schema := b.schema
  rows := indices.filterMap (b.rows[·]?)
  wf row hrow := by
    obtain ⟨i, -, hi⟩ := List.mem_filterMap.mp hrow
    exact b.wf row (List.mem_of_getElem? hi)

def sortBatches (env : CompactionEnv) (schema : Schema) (batches : List RecordBatch) (sortColumns : List String) :
    Option (List RecordBatch) :=
  if batches = [] ∨ sortColumns = [] then some batches
  else do
    let combined ← concatBatches schema batches
    let sortCols := sortColumns.filterMap (Schema.indexOf combined.schema)
    if sortCols = [] then some batches
    else do
      let indices ← env.lexsortToIndices combined sortCols
      some [combined.take indices]

/-- The batches of the new files; an empty list is nothing to do. -/
def compactBatches (env : CompactionEnv) (batches : List RecordBatch) : Option (List RecordBatch) :=
  let cleanBatches := stripMetadataColumns batches
  if cleanBatches = [] then some []
  else do
    let schema ← (unifyBatchSchemas cleanBatches).toOption
    let cleanBatches ← (cleanBatches.mapM fun b =>
      if b.schema = schema then .ok b else projectBatchToSchema b schema).toOption
    let sortColumns := inferSortColumns schema
    if sortColumns = [] then some cleanBatches else sortBatches env schema cleanBatches sortColumns

/-! ### What compaction keeps -/

section Compact
variable {env : CompactionEnv} {schema : Schema} {batches result : List RecordBatch}

theorem concatBatches_views {combined : RecordBatch} (h : concatBatches schema batches = some combined) :
    views [combined] = views batches := by
  unfold concatBatches at h
  split at h
  · next huni =>
    cases h
    rw [views_cons, views_nil, List.append_nil, views, List.map_flatMap]
    exact List.flatMap_congr fun b hb => by rw [huni b hb]
  · cases h

theorem concatBatches_schema {combined : RecordBatch} (h : concatBatches schema batches = some combined) :
    combined.schema = schema := by
  unfold concatBatches at h
  split at h
  · cases h
    rfl
  · cases h

theorem filterMap_getElem?_perm {α : Type} {l : List α} {indices : List Nat} (h : indices.Perm (List.range l.length)) :
    (indices.filterMap (l[·]?)).Perm l := by
  have hmap : (List.range l.length).map (l[·]?) = l.map some := by
    refine List.ext_getElem? fun i => ?_
    by_cases hi : i < l.length
    · simp [hi]
    · simp [hi]
  have hrange : (List.range l.length).filterMap (l[·]?) = l := by
    have hid := congrArg (List.filterMap id) hmap
    rw [List.filterMap_map, List.filterMap_map] at hid
    exact hid.trans (List.filterMap_some)
  exact (h.filterMap (l[·]?)).trans (List.Perm.of_eq hrange)

theorem sortBatches_ok {sortColumns : List String} (huni : Uniform schema batches)
    (h : sortBatches env schema batches sortColumns = some result) :
    Uniform schema result ∧ (views result).Perm (views batches) := by
  unfold sortBatches at h
  split at h
  · cases h
    exact ⟨huni, List.Perm.refl _⟩
  · obtain ⟨combined, hconcat, h⟩ := Option.bind_eq_some_iff.mp h
    dsimp only at h
    split at h
    · cases h
      exact ⟨huni, List.Perm.refl _⟩
    · obtain ⟨indices, hsort, h⟩ := Option.bind_eq_some_iff.mp h
      cases h
      have hrows : (combined.take indices).rows.Perm combined.rows :=
        filterMap_getElem?_perm (env.lexsort_perm combined _ indices hsort)
      refine ⟨fun b hb => ?_, ?_⟩
      · rw [List.mem_singleton.mp hb]
        exact (concatBatches_schema hconcat : combined.schema = schema)
      · rw [← concatBatches_views hconcat, views_cons, views_cons]
        exact (hrows.map (rowView combined.schema)).append_right _

theorem projected_ok {unified : Schema} (hunify : unifyBatchSchemas batches = .ok unified)
    (h : batches.mapM (fun b => if b.schema = unified then .ok b else projectBatchToSchema b unified) = .ok result) :
    Uniform unified result ∧ views result = views batches := by
  have hnames := unify_names hunify
  have hall := mapM_ok h
  clear h hunify
  induction hall with
  | nil => exact ⟨fun b hb => (nomatch hb), rfl⟩
  | @cons b b' batches result hb _ ih =>
    obtain ⟨huni, hviews⟩ := ih fun c hc => hnames c (List.mem_cons_of_mem _ hc)
    have hfirst : b'.schema = unified ∧ b'.rows.map (rowView b'.schema) = b.rows.map (rowView b.schema) := by
      split at hb
      · next hschema =>
        cases hb
        exact ⟨hschema, rfl⟩
      · exact projectBatchToSchema_views hb (hnames b List.mem_cons_self)
    refine ⟨fun c hc => ?_, by rw [views_cons, views_cons, hviews, hfirst.2]⟩
    rcases List.mem_cons.mp hc with rfl | hc
    · exact hfirst.1
    · exact huni c hc

theorem compactBatches_ok (h : compactBatches env batches = some result) :
    (∃ schema, Uniform schema result) ∧ (views result).Perm ((views batches).map eraseMeta) := by
  rw [← stripMetadataColumns_views]
  unfold compactBatches at h
  dsimp only at h
  split at h
  · next hnil =>
    cases h
    rw [hnil]
    exact ⟨⟨[], fun b hb => (nomatch hb)⟩, List.Perm.refl _⟩
  · obtain ⟨unified, hunify, h⟩ := Option.bind_eq_some_iff.mp h
    obtain ⟨clean, hclean, h⟩ := Option.bind_eq_some_iff.mp h
    obtain ⟨huni, hviews⟩ := projected_ok (ok_of_toOption hunify) (ok_of_toOption hclean)
    split at h
    · cases h
      exact ⟨⟨unified, huni⟩, List.Perm.of_eq hviews⟩
    · obtain ⟨hsorted, hperm⟩ := sortBatches_ok huni h
      exact ⟨⟨unified, hsorted⟩, hviews ▸ hperm⟩

end Compact

end Reiver.Pond
