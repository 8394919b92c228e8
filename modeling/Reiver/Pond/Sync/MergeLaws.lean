import Reiver.Pond.Sync.MergeSpec

/-! # Merges compose

Of batches of one schema a merge succeeds exactly if its rows have keys (`mergeBatchesByPk_isOk`), so one merge can be
exchanged for two, and a merge can be repeated. -/

namespace Reiver.Pond

variable {env : ArrowEnv} {pkColumns : List String} {schema : Schema} {existing new result : List RecordBatch}
  {missing : List String → MergeError}

/-! ### When a merge succeeds -/

theorem resolvePk_isOk :
    (∃ indices, resolvePk missing schema pkColumns = .ok indices) ↔
      ∀ name ∈ pkColumns, (schema.indexOf name).isSome = true := by
  constructor
  · rintro ⟨indices, h⟩
    exact (resolvePk_ok h).2
  · intro h
    have hnone : pkColumns.filter (fun name => schema.indexOf name = none) = [] :=
      List.filter_eq_nil_iff.mpr fun name hname hne => by simpa [of_decide_eq_true hne] using h name hname
    exact ⟨_, by rw [resolvePk, if_neg (not_not.mpr hnone)]⟩

theorem batchKeys_isOk {indices : List Nat} {b : RecordBatch} (h : resolvePk missing b.schema pkColumns = .ok indices) :
    (∃ keys, batchKeys env indices b = .ok keys) ↔
      ∀ row ∈ b.rows, (pkKey env pkColumns (rowView b.schema row)).isSome = true := by
  have hrows : (∃ keys, batchKeys env indices b = .ok keys) ↔
      ∃ keys, b.rows.mapM (rowKey env b.schema indices) = .ok keys :=
    exists_congr fun _ => batchKeys_eq_ok.trans (and_iff_right (resolvePk_columns h))
  rw [hrows, exists_mapM_ok]
  refine forall₂_congr fun row _ => ?_
  rw [rowKey_eq h, pkKey]
  cases buildPkKey env (pkColumns.map (rowView b.schema row)) with
  | error e => simp [Except.toOption]
  | ok key => simp [Except.toOption]

theorem forall_views {p : RowView → Prop} {batches : List RecordBatch} :
    (∀ v ∈ views batches, p v) ↔ ∀ b ∈ batches, ∀ row ∈ b.rows, p (rowView b.schema row) := by
  simp only [views, List.mem_flatMap, List.mem_map]
  constructor
  · exact fun h b hb row hrow => h _ ⟨b, hb, row, hrow, rfl⟩
  · rintro h v ⟨b, hb, row, hrow, rfl⟩
    exact h b hb row hrow

theorem mapM_batchKeys_isOk {indices : List Nat} {batches : List RecordBatch}
    (h : resolvePk missing schema pkColumns = .ok indices) (huni : Uniform schema batches) :
    (∃ keys, batches.mapM (batchKeys env indices) = .ok keys) ↔
      ∀ v ∈ views batches, (pkKey env pkColumns v).isSome = true := by
  rw [exists_mapM_ok, forall_views]
  refine forall₂_congr fun b hb => ?_
  rw [← huni b hb] at h
  exact batchKeys_isOk h

theorem reconcileSchemas_uniform (h : Uniform schema existing) : reconcileSchemas existing = .ok existing := by
  cases existing with
  | nil => rfl
  | cons first rest =>
    have hsame : rest.any (·.schema ≠ first.schema) = false := by
      rw [List.any_eq_false]
      intro b hb
      simp [h b (List.mem_cons_of_mem _ hb), h first List.mem_cons_self]
    rw [reconcileSchemas, if_neg (by rw [hsame]; simp)]

def keepByKey (env : ArrowEnv) (indices : List Nat) (p : String → Bool) (b : RecordBatch) :
    Except MergeError RecordBatch := do
  let keys ← batchKeys env indices b
  .ok (b.filterRecordBatch (keys.map p))

theorem keepByKey_isOk {indices : List Nat} {p : String → Bool} {batches : List RecordBatch}
    (h : resolvePk missing schema pkColumns = .ok indices) (huni : Uniform schema batches) :
    (∃ kept, batches.mapM (keepByKey env indices p) = .ok kept) ↔
      ∀ v ∈ views batches, (pkKey env pkColumns v).isSome = true := by
  rw [← mapM_batchKeys_isOk h huni, exists_mapM_ok, exists_mapM_ok]
  refine forall₂_congr fun b _ => ?_
  constructor
  · rintro ⟨kept, hkept⟩
    obtain ⟨keys, hkeys, -⟩ := bind_ok hkept
    exact ⟨keys, hkeys⟩
  · rintro ⟨keys, hkeys⟩
    exact ⟨_, by rw [keepByKey, hkeys]; rfl⟩

theorem keepByKey_uniform {indices : List Nat} {p : String → Bool} {batches kept : List RecordBatch}
    (huni : Uniform schema batches) (h : batches.mapM (keepByKey env indices p) = .ok kept) : Uniform schema kept := by
  intro b' hb'
  obtain ⟨b, hb, hkept⟩ := exists_of_forall₂ (mapM_ok h) hb'
  obtain ⟨keys, -, hb'⟩ := bind_ok hkept
  cases hb'
  exact huni b hb

/-- The batches of a merge, before their schemas are reconciled. -/
def mergedBatches (kept new : List RecordBatch) (newBatchKeys : List (List String)) : List RecordBatch :=
  (kept ++ (new.zip newBatchKeys).zipIdx.map fun e => e.1.1.filterRecordBatch
    (e.1.2.zipIdx.map fun k => (seenPks newBatchKeys).lookup k.1 = some (e.2, k.2))).filter (·.rows ≠ [])

theorem mergedBatches_uniform {kept : List RecordBatch} {newBatchKeys : List (List String)}
    (hkept : Uniform schema kept) (hnew : Uniform schema new) :
    Uniform schema (mergedBatches kept new newBatchKeys) := by
  intro b hb
  rcases List.mem_append.mp (List.mem_filter.mp hb).1 with hb | hb
  · exact hkept b hb
  · obtain ⟨e, he, rfl⟩ := List.mem_map.mp hb
    have hschema : e.1.1.schema = schema := hnew _ (List.of_mem_zip (List.fst_mem_of_mem_zipIdx he)).1
    exact hschema

theorem firstSchema_uniform {batches : List RecordBatch} (hne : batches ≠ []) (huni : Uniform schema batches) :
    firstSchema batches = schema := by
  obtain ⟨first, rest, rfl⟩ := List.exists_cons_of_ne_nil hne
  exact huni first List.mem_cons_self

/-- What a merge that succeeds has computed. -/
theorem mergeBatchesByPk_eq (hpk : pkColumns ≠ []) (hne : new ≠ []) :
    mergeBatchesByPk env existing new pkColumns = .ok result ↔
      ∃ newIndices indices newBatchKeys kept,
        resolvePk .pkMissingFromNew (firstSchema new) pkColumns = .ok newIndices ∧
        (existing ≠ [] → resolvePk .pkMissingFromExisting (firstSchema existing) pkColumns = .ok indices) ∧
        new.mapM (batchKeys env newIndices) = .ok newBatchKeys ∧
        existing.mapM (keepByKey env indices fun key => !((seenPks newBatchKeys).lookup key).isSome) = .ok kept ∧
        reconcileSchemas (mergedBatches kept new newBatchKeys) = .ok result := by
  obtain ⟨firstNew, restNew, rfl⟩ := List.exists_cons_of_ne_nil hne
  rw [mergeBatchesByPk, if_neg hpk]
  dsimp only
  constructor
  · intro h
    obtain ⟨newIndices, hnewRes, h⟩ := bind_ok h
    cases existing with
    | nil =>
      obtain ⟨_, -, h⟩ := bind_ok h
      obtain ⟨newBatchKeys, hnewKeys, h⟩ := bind_ok h
      obtain ⟨kept, hkept, h⟩ := bind_ok h
      exact ⟨newIndices, [], newBatchKeys, kept, hnewRes, fun hnil => absurd rfl hnil, hnewKeys, hkept, h⟩
    | cons firstExisting restExisting =>
      obtain ⟨indices, hres, h⟩ := bind_ok h
      obtain ⟨newBatchKeys, hnewKeys, h⟩ := bind_ok h
      obtain ⟨kept, hkept, h⟩ := bind_ok h
      exact ⟨newIndices, indices, newBatchKeys, kept, hnewRes, fun _ => hres, hnewKeys, hkept, h⟩
  · rintro ⟨newIndices, indices, newBatchKeys, kept, hnewRes, hres, hnewKeys, hkept, h⟩
    have hnewRes : resolvePk .pkMissingFromNew firstNew.schema pkColumns = .ok newIndices := hnewRes
    rw [hnewRes]
    cases existing with
    | nil =>
      cases hkept
      show ((firstNew :: restNew).mapM (batchKeys env newIndices) >>= _) = _
      rw [hnewKeys]
      exact h
    | cons firstExisting restExisting =>
      have hres : resolvePk .pkMissingFromExisting firstExisting.schema pkColumns = .ok indices :=
        hres (List.cons_ne_nil _ _)
      show (resolvePk .pkMissingFromExisting firstExisting.schema pkColumns >>= _) = _
      rw [hres]
      show ((firstNew :: restNew).mapM (batchKeys env newIndices) >>= _) = _
      rw [hnewKeys]
      show ((firstExisting :: restExisting).mapM (keepByKey env indices _) >>= _) = _
      rw [hkept]
      exact h

theorem mergeBatchesByPk_isOk (hpk : pkColumns ≠ []) (hne : new ≠ []) (hnew : Uniform schema new)
    (hexisting : Uniform schema existing) :
    (∃ result, mergeBatchesByPk env existing new pkColumns = .ok result) ↔
      (∀ name ∈ pkColumns, (schema.indexOf name).isSome = true) ∧
        (∀ v ∈ views existing, (pkKey env pkColumns v).isSome = true) ∧
        ∀ v ∈ views new, (pkKey env pkColumns v).isSome = true := by
  have hfirst := firstSchema_uniform hne hnew
  constructor
  · rintro ⟨result, h⟩
    obtain ⟨newIndices, indices, newBatchKeys, kept, hnewRes, hres, hnewKeys, hkept, -⟩ :=
      (mergeBatchesByPk_eq hpk hne).mp h
    rw [hfirst] at hnewRes
    refine ⟨(resolvePk_ok hnewRes).2, ?_, (mapM_batchKeys_isOk hnewRes hnew).mp ⟨_, hnewKeys⟩⟩
    by_cases hnil : existing = []
    · subst hnil
      exact fun v hv => absurd hv List.not_mem_nil
    · have hres := hres hnil
      rw [firstSchema_uniform hnil hexisting] at hres
      exact (keepByKey_isOk hres hexisting).mp ⟨_, hkept⟩
  · rintro ⟨hnames, hold, hnewRows⟩
    obtain ⟨newIndices, hnewRes⟩ : ∃ newIndices, resolvePk .pkMissingFromNew schema pkColumns = .ok newIndices :=
      resolvePk_isOk.mpr hnames
    obtain ⟨indices, hres⟩ : ∃ indices, resolvePk .pkMissingFromExisting schema pkColumns = .ok indices :=
      resolvePk_isOk.mpr hnames
    obtain ⟨newBatchKeys, hnewKeys⟩ := (mapM_batchKeys_isOk hnewRes hnew).mpr hnewRows
    obtain ⟨kept, hkept⟩ : ∃ kept, existing.mapM
        (keepByKey env indices fun key => !((seenPks newBatchKeys).lookup key).isSome) = .ok kept :=
      (keepByKey_isOk hres hexisting).mpr hold
    refine ⟨_, (mergeBatchesByPk_eq hpk hne).mpr ⟨newIndices, indices, newBatchKeys, kept, ?_, fun hnil => ?_, hnewKeys,
      hkept, reconcileSchemas_uniform (mergedBatches_uniform (keepByKey_uniform hexisting hkept) hnew)⟩⟩
    · rw [hfirst, hnewRes]
    · rw [firstSchema_uniform hnil hexisting, hres]

theorem mergeBatchesByPk_uniform (hpk : pkColumns ≠ []) (hne : new ≠ []) (hnew : Uniform schema new)
    (hexisting : Uniform schema existing) (h : mergeBatchesByPk env existing new pkColumns = .ok result) :
    Uniform schema result := by
  obtain ⟨newIndices, indices, newBatchKeys, kept, -, -, -, hkept, hresult⟩ := (mergeBatchesByPk_eq hpk hne).mp h
  have huni : Uniform schema (mergedBatches kept new newBatchKeys) :=
    mergedBatches_uniform (keepByKey_uniform hexisting hkept) hnew
  rw [reconcileSchemas_uniform huni] at hresult
  cases hresult
  exact huni

/-! ### Composition -/

section Compose
variable {first second : List RecordBatch}

theorem forall_mem_upsert {old new : List RowView} {p : RowView → Prop} {key : RowView → Option String}
    (hold : ∀ v ∈ old, p v) (hnew : ∀ v ∈ new, p v) : ∀ v ∈ upsert key old new, p v := by
  intro v hv
  rcases mem_of_mem_upsert hv with hv | hv
  · exact hold v hv
  · exact hnew v hv

/-- Two merges that follow each other succeed exactly if one merge does, with the same rows. -/
theorem merge_merge (hpk : pkColumns ≠ []) (hexisting : Uniform schema existing) (hfirst : Uniform schema first)
    (hsecond : Uniform schema second) :
    (∀ merged result, mergeBatchesByPk env existing first pkColumns = .ok merged →
      mergeBatchesByPk env merged second pkColumns = .ok result →
        ∃ result', mergeBatchesByPk env existing (first ++ second) pkColumns = .ok result' ∧
          (views result).Perm (views result')) ∧
      ∀ result', mergeBatchesByPk env existing (first ++ second) pkColumns = .ok result' →
        ∃ merged result, mergeBatchesByPk env existing first pkColumns = .ok merged ∧
          mergeBatchesByPk env merged second pkColumns = .ok result ∧ (views result).Perm (views result') := by
  have hnil : ∀ existing, mergeBatchesByPk env existing [] pkColumns = .ok existing := fun _ => by
    rw [mergeBatchesByPk, if_neg hpk]
  by_cases hne : first = []
  · subst hne
    refine ⟨fun merged result hmerged hresult => ?_,
      fun result' hresult' => ⟨existing, result', hnil _, hresult', .refl _⟩⟩
    rw [hnil] at hmerged
    cases hmerged
    exact ⟨result, hresult, .refl _⟩
  by_cases hne' : second = []
  · subst hne'
    rw [List.append_nil]
    refine ⟨fun merged result hmerged hresult => ?_,
      fun result' hresult' => ⟨result', result', hresult', hnil _, .refl _⟩⟩
    rw [hnil] at hresult
    cases hresult
    exact ⟨merged, hmerged, .refl _⟩
  have hboth : Uniform schema (first ++ second) := fun b hb => (List.mem_append.mp hb).elim (hfirst b) (hsecond b)
  have hneBoth : first ++ second ≠ [] := List.append_ne_nil_of_left_ne_nil hne _
  have hrows : ∀ merged, mergeBatchesByPk env existing first pkColumns = .ok merged →
      Uniform schema merged ∧ views merged = upsert (pkKey env pkColumns) (views existing) (views first) :=
    fun merged h => ⟨mergeBatchesByPk_uniform hpk hne hfirst hexisting h,
      (mergeBatchesByPk_ok hpk hne (hfirst.aligned _) (hexisting.aligned _) h).2.1⟩
  have hperm : ∀ merged result result', mergeBatchesByPk env existing first pkColumns = .ok merged →
      mergeBatchesByPk env merged second pkColumns = .ok result →
      mergeBatchesByPk env existing (first ++ second) pkColumns = .ok result' →
        (views result).Perm (views result') := by
    intro merged result result' hmerged hresult hresult'
    obtain ⟨huni, hviews⟩ := hrows merged hmerged
    rw [(mergeBatchesByPk_ok hpk hne' (hsecond.aligned _) (huni.aligned _) hresult).2.1, hviews,
      (mergeBatchesByPk_ok hpk hneBoth (hboth.aligned _) (hexisting.aligned _) hresult').2.1, views_append]
    exact upsert_upsert _ _ _
  constructor
  · intro merged result hmerged hresult
    obtain ⟨hnames, hold, hfirstRows⟩ := (mergeBatchesByPk_isOk hpk hne hfirst hexisting).mp ⟨_, hmerged⟩
    obtain ⟨-, -, hsecondRows⟩ := (mergeBatchesByPk_isOk hpk hne' hsecond (hrows merged hmerged).1).mp ⟨_, hresult⟩
    have hrowsBoth : ∀ v ∈ views (first ++ second), (pkKey env pkColumns v).isSome = true := by
      rw [views_append]
      exact fun v hv => (List.mem_append.mp hv).elim (hfirstRows v) (hsecondRows v)
    obtain ⟨result', hresult'⟩ := (mergeBatchesByPk_isOk hpk hneBoth hboth hexisting).mpr ⟨hnames, hold, hrowsBoth⟩
    exact ⟨result', hresult', hperm merged result result' hmerged hresult hresult'⟩
  · intro result' hresult'
    obtain ⟨hnames, hold, hrowsBoth⟩ := (mergeBatchesByPk_isOk hpk hneBoth hboth hexisting).mp ⟨_, hresult'⟩
    rw [views_append] at hrowsBoth
    have hfirstRows := fun v hv => hrowsBoth v (List.mem_append_left _ hv)
    obtain ⟨merged, hmerged⟩ := (mergeBatchesByPk_isOk hpk hne hfirst hexisting).mpr ⟨hnames, hold, hfirstRows⟩
    obtain ⟨huni, hviews⟩ := hrows merged hmerged
    obtain ⟨result, hresult⟩ := (mergeBatchesByPk_isOk hpk hne' hsecond huni).mpr ⟨hnames, by
      rw [hviews]
      exact forall_mem_upsert hold hfirstRows, fun v hv => hrowsBoth v (List.mem_append_right _ hv)⟩
    exact ⟨merged, result, hmerged, hresult, hperm merged result result' hmerged hresult hresult'⟩

theorem merge_again (hpk : pkColumns ≠ []) (hexisting : Uniform schema existing) (hnew : Uniform schema new)
    (h : mergeBatchesByPk env existing new pkColumns = .ok result) :
    ∃ result', mergeBatchesByPk env result new pkColumns = .ok result' ∧ (views result').Perm (views result) := by
  by_cases hne : new = []
  · subst hne
    exact ⟨result, by rw [mergeBatchesByPk, if_neg hpk], .refl _⟩
  obtain ⟨hnames, hold, hrows⟩ := (mergeBatchesByPk_isOk hpk hne hnew hexisting).mp ⟨_, h⟩
  have huni := mergeBatchesByPk_uniform hpk hne hnew hexisting h
  have hviews := (mergeBatchesByPk_ok hpk hne (hnew.aligned _) (hexisting.aligned _) h).2.1
  obtain ⟨result', hresult'⟩ := (mergeBatchesByPk_isOk hpk hne hnew huni).mpr ⟨hnames, by
    rw [hviews]
    exact forall_mem_upsert hold hrows, hrows⟩
  refine ⟨result', hresult', ?_⟩
  rw [(mergeBatchesByPk_ok hpk hne (hnew.aligned _) (huni.aligned _) hresult').2.1, hviews]
  exact upsert_again _ _

/-- Two merges make the rows of one merge of both, and a merge may be repeated. -/
theorem merges_compose (hpk : pkColumns ≠ []) (hexisting : Uniform schema existing) (hfirst : Uniform schema first)
    (hsecond : Uniform schema second) :
    (∀ merged result, mergeBatchesByPk env existing first pkColumns = .ok merged →
      mergeBatchesByPk env merged second pkColumns = .ok result →
        ∃ result', mergeBatchesByPk env existing (first ++ second) pkColumns = .ok result' ∧
          (views result).Perm (views result')) ∧
      (∀ result', mergeBatchesByPk env existing (first ++ second) pkColumns = .ok result' →
        ∃ merged result, mergeBatchesByPk env existing first pkColumns = .ok merged ∧
          mergeBatchesByPk env merged second pkColumns = .ok result ∧ (views result).Perm (views result')) ∧
      ∀ merged, mergeBatchesByPk env existing first pkColumns = .ok merged →
        ∃ result, mergeBatchesByPk env merged first pkColumns = .ok result ∧ (views result).Perm (views merged) := by
  obtain ⟨hboth, hone⟩ := merge_merge hpk hexisting hfirst hsecond
  exact ⟨hboth, hone, fun _ h => merge_again hpk hexisting hfirst h⟩

end Compose

/-- An environment that prints no value: integer keys need none. -/
def bareEnv : ArrowEnv where
  fmt _ _ := none
  arrayMemorySize b := b.numRows
  rowsPerChunk rows _ _ := rows

def intBatch (names : List String) (rows : List (List Int)) (h : ∀ row ∈ rows, row.length = names.length) :
    RecordBatch where
  schema := names.map fun name => ⟨name, .int64, false⟩
  rows := rows.map fun row => row.map fun i => some (.int i)
  wf row hrow := by
    obtain ⟨row', hrow', rfl⟩ := List.mem_map.mp hrow
    rw [List.length_map, List.length_map, h row' hrow']

theorem merges_compose_ints : ∃ merged, mergeBatchesByPk bareEnv [intBatch ["id", "v"] [[1, 10], [2, 20]] (by decide)]
      [intBatch ["id", "v"] [[2, 21]] (by decide)] ["id"] = .ok merged ∧
    ∃ result, mergeBatchesByPk bareEnv merged [intBatch ["id", "v"] [[2, 21]] (by decide)] ["id"] = .ok result ∧
      (views result).Perm (views merged) := by
  have huni : ∀ rows h, Uniform [⟨"id", .int64, false⟩, ⟨"v", .int64, false⟩] [intBatch ["id", "v"] rows h] :=
    fun _ _ b hb => by rw [List.mem_singleton.mp hb]; rfl
  obtain ⟨merged, hmerged⟩ : ∃ merged, mergeBatchesByPk bareEnv
      [intBatch ["id", "v"] [[1, 10], [2, 20]] (by decide)] [intBatch ["id", "v"] [[2, 21]] (by decide)] ["id"] =
        .ok merged := ⟨_, rfl⟩
  exact ⟨merged, hmerged, (merges_compose (List.cons_ne_nil _ _) (huni [[1, 10], [2, 20]] (by decide))
    (huni [[2, 21]] (by decide)) (huni [[3, 30]] (by decide))).2.2 merged hmerged⟩

end Reiver.Pond
