import Reiver.Pond.WalIndex.TwoPhase

/-! # What two-phase queries find

The rows that were put into the indexes against the keys that a query gives. It answers right (`Answers`) exactly if
every matching row is within reach of the indexes and the inverted indexes can answer a predicate at all
(`execute_answers_iff`). -/

namespace Reiver.Pond
open TwoPhaseQueryExecutor

structure WalRow where
  pk : PrimaryKey
  columns : Dict String ColumnValue

/-! ### Building the indexes -/

structure WalIndexes where
  blockManager : BlockManager
  invertedIndexManager : InvertedIndexManager

section Build
variable (hashes : WalHashes) (threshold : Nat) (indexed : String → Bool)

/-- What is added to the inverted indexes for a row. -/
def rowAdds (row : WalRow) : List IndexAdd :=
  (row.columns.pairs.filter (indexed ·.1)).map fun e => ⟨e.1, e.2, row.pk⟩

def insertRow (s : WalIndexes) (row : WalRow) : WalIndexes where
  blockManager := (s.blockManager.assignBlock threshold row.pk).2
  invertedIndexManager :=
    (rowAdds indexed row).foldl (fun m e => (m.add hashes e.column e.value e.pk).2) s.invertedIndexManager

def buildIndexes (rows : List WalRow) : WalIndexes := rows.foldl (insertRow hashes threshold indexed) ⟨.new, .new⟩

end Build

/-! ### What a query should give -/

section Spec
variable (less : ColumnValue → ColumnValue → Prop)

/-- Values are equal as the code compares them; the order of values is arbitrary. -/
def WalRow.Satisfies (row : WalRow) (p : Predicate) : Prop :=
  match p.op with
  | .eq => ∃ v ∈ p.value, row.columns.lookup p.column = some v
  | .inList => ∃ v ∈ p.values, row.columns.lookup p.column = some v
  | .ne => ∃ v ∈ p.value, ∃ w ∈ row.columns.lookup p.column, w ≠ .null ∧ w ≠ v
  | .gt => ∃ v ∈ p.value, ∃ w ∈ row.columns.lookup p.column, less v w
  | .gte => ∃ v ∈ p.value, ∃ w ∈ row.columns.lookup p.column, w = v ∨ less v w
  | .lt => ∃ v ∈ p.value, ∃ w ∈ row.columns.lookup p.column, less w v
  | .lte => ∃ v ∈ p.value, ∃ w ∈ row.columns.lookup p.column, w = v ∨ less w v
  | .isNull => (row.columns.lookup p.column).getD .null = .null
  | .isNotNull => (row.columns.lookup p.column).getD .null ≠ .null

def WalRow.Matching (row : WalRow) (predicates : List Predicate) : Prop := ∀ p ∈ predicates, row.Satisfies less p

/-- No two keys and no two values that occur have the same hash. -/
structure CollisionFree (hashes : WalHashes) (rows : List WalRow) (predicates : List Predicate) : Prop where
  keys : ∀ row ∈ rows, ∀ row' ∈ rows, pkId hashes row.pk = pkId hashes row'.pk → row.pk = row'.pk
  values : ∀ row ∈ rows, ∀ p ∈ predicates, ∀ v ∈ row.columns.lookup p.column, ∀ w ∈ p.values,
    hashes.valueHash v = hashes.valueHash w → v = w

end Spec

/-- Whether the predicate is looked up in the inverted index. -/
def Looked (m : InvertedIndexManager) (p : Predicate) : Prop :=
  p.op.canUseInvertedIndex = true ∧ m.isHighCardinality p.column = false

/-- Whether the inverted index has anything to say about the predicate. -/
def CanAnswer (m : InvertedIndexManager) (p : Predicate) : Prop := Looked m p ∧ m.indexes.lookup p.column ≠ none

section Answers
variable {F : Type} (ops : FloatOps F) (hashes : WalHashes) (less : ColumnValue → ColumnValue → Prop)

/-- Some block is not ruled out by the skip indexes that were loaded. -/
def Survives (e : TwoPhaseQueryExecutor F) (predicates : List Predicate) : Prop :=
  ∃ id ∈ e.blockManager.getAllBlockIds, ∀ p ∈ predicates, e.mightMatch ops hashes p id = true

/-- The keys of the matching rows are found, a result that is called complete has no others, and predicates that the
    indexes cannot answer do not give an empty result. -/
structure Answers (e : TwoPhaseQueryExecutor F) (rows : List WalRow) (predicates : List Predicate)
    (result : List PrimaryKey) : Prop where
  found : ∀ row ∈ rows, row.Matching less predicates → row.pk ∈ result
  exact : ∀ blocks ≠ [], (e.phase2PkResolution hashes predicates blocks).isComplete = true →
    ∀ pk ∈ result, ∃ row ∈ rows, row.Matching less predicates ∧ row.pk = pk
  answered : Survives ops hashes e predicates → (∀ p ∈ predicates, ¬CanAnswer e.invertedIndexManager p) → result ≠ []

/-- A row is within reach: a block with it is not ruled out, its key is one that can be given back, and its values were
    indexed. -/
def Reachable (e : TwoPhaseQueryExecutor F) (indexed : String → Bool) (predicates : List Predicate) (row : WalRow) :
    Prop :=
  Survives ops hashes e predicates ∧ ((∃ n, row.pk.asU32 = some n) ∨ ∃ s, row.pk = .string s) ∧
    ∀ p ∈ predicates, Looked e.invertedIndexManager p → indexed p.column = true

end Answers

/-! ### What the indexes hold -/

section Built
variable {hashes : WalHashes} {threshold : Nat} {indexed : String → Bool} {rows : List WalRow}

theorem indexHolds_foldl (adds : List IndexAdd) {m : InvertedIndexManager} {before : List IndexAdd}
    (h : IndexHolds hashes m before) :
    IndexHolds hashes (adds.foldl (fun m e => (m.add hashes e.column e.value e.pk).2) m) (before ++ adds) := by
  induction adds generalizing m before with
  | nil => rwa [List.append_nil]
  | cons e adds ih =>
    have hadded : IndexHolds hashes (m.add hashes e.column e.value e.pk).2 (before ++ [e]) := h.add
    have hstep := ih hadded
    rwa [List.append_assoc] at hstep

theorem indexHolds_insertRows (rows : List WalRow) {s : WalIndexes} {before : List IndexAdd}
    (h : IndexHolds hashes s.invertedIndexManager before) :
    IndexHolds hashes (rows.foldl (insertRow hashes threshold indexed) s).invertedIndexManager
      (before ++ rows.flatMap (rowAdds indexed)) := by
  induction rows generalizing s before with
  | nil => rwa [List.flatMap_nil, List.append_nil]
  | cons row rows ih =>
    have hrow : IndexHolds hashes (insertRow hashes threshold indexed s row).invertedIndexManager
        (before ++ rowAdds indexed row) := indexHolds_foldl _ h
    rw [List.flatMap_cons, ← List.append_assoc]
    exact ih hrow

theorem indexHolds_build : IndexHolds hashes (buildIndexes hashes threshold indexed rows).invertedIndexManager
    (rows.flatMap (rowAdds indexed)) := by
  rw [buildIndexes, ← List.nil_append (rows.flatMap (rowAdds indexed))]
  exact indexHolds_insertRows rows indexHolds_new

theorem addedUnder_iff {column : String} {hash : Nat} {pk : PrimaryKey} :
    addedUnder hashes (rows.flatMap (rowAdds indexed)) column hash pk ↔
      ∃ row ∈ rows, indexed column = true ∧
        (∃ v ∈ row.columns.lookup column, hashes.valueHash v = hash) ∧ row.pk = pk := by
  constructor
  · rintro ⟨e, he, rfl, rfl, rfl⟩
    obtain ⟨row, hrow, he⟩ := List.mem_flatMap.mp he
    obtain ⟨⟨c, v⟩, hpair, rfl⟩ := List.mem_map.mp he
    obtain ⟨hpair, hindexed⟩ := List.mem_filter.mp hpair
    exact ⟨row, hrow, hindexed, ⟨v, Dict.mem_pairs.mp hpair, rfl⟩, rfl⟩
  · rintro ⟨row, hrow, hindexed, ⟨v, hv, rfl⟩, rfl⟩
    refine ⟨⟨column, v, row.pk⟩, List.mem_flatMap.mpr ⟨row, hrow, ?_⟩, rfl, rfl, rfl⟩
    exact List.mem_map.mpr ⟨(column, v), List.mem_filter.mpr ⟨Dict.mem_pairs.mpr hv, hindexed⟩, rfl⟩

end Built

/-! ### Phase 1 -/

section Phase1
variable {F : Type} {ops : FloatOps F} {hashes : WalHashes} {e e' : TwoPhaseQueryExecutor F}
  {predicates : List Predicate}

theorem ensureSkipIndexesLoaded_managers {ids : List BlockId} (h : e.ensureSkipIndexesLoaded ids = .ok e') :
    e'.blockManager = e.blockManager ∧ e'.invertedIndexManager = e.invertedIndexManager := by
  rw [ensureSkipIndexesLoaded] at h
  split_ifs at h with hmissing
  · obtain rfl := Except.ok.inj h
    exact ⟨rfl, rfl⟩
  · cases hload : e.loadSkipIndexesForBlocks (ids.filter fun id => (e.skipIndexCache.lookup id).isNone) with
    | error error =>
      rw [hload] at h
      cases h
    | ok stored =>
      rw [hload] at h
      obtain rfl := Except.ok.inj h
      exact ⟨rfl, rfl⟩

theorem foldl_eliminateBlocks (found : List BlockId × List String) :
    (predicates.foldl (e.eliminateBlocks ops hashes) found).1 =
      found.1.filter fun id => predicates.all fun p => e.mightMatch ops hashes p id := by
  induction predicates generalizing found with
  | nil => exact (List.filter_true found.1).symm
  | cons p predicates ih =>
    have hstep : (e.eliminateBlocks ops hashes found p).1 = found.1.filter (e.mightMatch ops hashes p) := by
      rw [eliminateBlocks]
      cases hop : p.op.canUseMinMax with
      | true => rfl
      | false =>
        have hall : ∀ id ∈ found.1, e.mightMatch ops hashes p id = true := fun id _ => by simp [mightMatch, hop]
        exact (List.filter_eq_self.mpr hall).symm
    rw [List.foldl_cons, ih, hstep, List.filter_filter]
    simp only [List.all_cons, Bool.and_comm]

theorem phase1_ok {elimination : BlockEliminationResult}
    (h : e.phase1BlockElimination ops hashes predicates = .ok (elimination, e')) :
    e'.blockManager = e.blockManager ∧ e'.invertedIndexManager = e.invertedIndexManager ∧
      (elimination.candidateBlocks ≠ [] ↔ Survives ops hashes e' predicates) := by
  rw [phase1BlockElimination] at h
  split_ifs at h with hall
  · obtain ⟨rfl, rfl⟩ := Prod.mk.inj (Except.ok.inj h)
    refine ⟨rfl, rfl, iff_of_false (fun h => h rfl) ?_⟩
    rintro ⟨id, hid, -⟩
    rw [hall] at hid
    exact List.not_mem_nil hid
  · cases hload : e.ensureSkipIndexesLoaded e.blockManager.getAllBlockIds with
    | error error =>
      rw [hload] at h
      cases h
    | ok loaded =>
      rw [hload] at h
      obtain ⟨helimination, hloaded⟩ := Prod.mk.inj (Except.ok.inj h)
      obtain ⟨hblocks, hindex⟩ := ensureSkipIndexesLoaded_managers hload
      subst helimination hloaded
      refine ⟨hblocks, hindex, ?_⟩
      dsimp only
      rw [foldl_eliminateBlocks, Ne, List.filter_eq_nil_iff, Survives, hblocks]
      simp

end Phase1

/-! ### Phase 2 -/

section Phase2
variable {hashes : WalHashes} {m : InvertedIndexManager}

/-- What the values of the predicates stand for, joined: the numbers under all of them, and the texts under any. -/
structure Resolves (hashes : WalHashes) (m : InvertedIndexManager) (ps : List Predicate) (r : PkResolution) : Prop where
  resolved : r.resultBitmap = none ↔ ∀ p ∈ ps, ¬Looked m p
  bitmap : ∀ bitmap ∈ r.resultBitmap, ∀ id, id ∈ bitmap ↔ ∀ p ∈ ps, Looked m p →
    ∃ v ∈ lookupValues p, id ∈ (m.entry p.column (hashes.valueHash v)).pkBitmap
  complete : r.isComplete = true ↔ ∀ p ∈ ps, Looked m p
  strings : r.hasStringPks = true ↔ ∃ p ∈ ps, Looked m p ∧
    ∃ v ∈ lookupValues p, (m.entry p.column (hashes.valueHash v)).hasStringPks = true
  texts : ∀ e, e ∈ r.allHashMappings ↔ ∃ p ∈ ps, Looked m p ∧
    ∃ v ∈ lookupValues p, (m.entry p.column (hashes.valueHash v)).hasStringPks = true ∧
      e ∈ (m.entry p.column (hashes.valueHash v)).pkHashToOriginal

theorem collectPks_eq {column : String} {found : Finset Nat × Bool × List (Nat × String)} {v : ColumnValue} :
    collectPks hashes m column found v =
      (found.1 ∪ (m.entry column (hashes.valueHash v)).pkBitmap,
        found.2.1 || (m.entry column (hashes.valueHash v)).hasStringPks,
        if (m.entry column (hashes.valueHash v)).hasStringPks then
          found.2.2 ++ (m.entry column (hashes.valueHash v)).pkHashToOriginal
        else found.2.2) := by
  rw [collectPks, InvertedIndexManager.getMatchingPksWithStrings, InvertedIndexManager.entry]
  cases m.indexes.lookup column with
  | none => simp [InvertedIndexEntry.new]
  | some index =>
    cases hentry : index.entries.lookup (hashes.valueHash v) with
    | none => simp [hentry, InvertedIndexEntry.new]
    | some entry => simp [hentry]

theorem foldl_collectPks {column : String} (vs : List ColumnValue) (found : Finset Nat × Bool × List (Nat × String)) :
    (∀ id, id ∈ (vs.foldl (collectPks hashes m column) found).1 ↔
        id ∈ found.1 ∨ ∃ v ∈ vs, id ∈ (m.entry column (hashes.valueHash v)).pkBitmap) ∧
      ((vs.foldl (collectPks hashes m column) found).2.1 = true ↔
        found.2.1 = true ∨ ∃ v ∈ vs, (m.entry column (hashes.valueHash v)).hasStringPks = true) ∧
      ∀ e, e ∈ (vs.foldl (collectPks hashes m column) found).2.2 ↔
        e ∈ found.2.2 ∨ ∃ v ∈ vs, (m.entry column (hashes.valueHash v)).hasStringPks = true ∧
          e ∈ (m.entry column (hashes.valueHash v)).pkHashToOriginal := by
  induction vs generalizing found with
  | nil => simp
  | cons v vs ih =>
    obtain ⟨hbitmap, hstrings, htexts⟩ := ih (collectPks hashes m column found v)
    rw [List.foldl_cons]
    refine ⟨fun id => ?_, ?_, fun e => ?_⟩
    · rw [hbitmap, collectPks_eq, Finset.mem_union, List.exists_mem_cons_iff, or_assoc]
    · rw [hstrings, collectPks_eq, Bool.or_eq_true, List.exists_mem_cons_iff, or_assoc]
    · rw [htexts, collectPks_eq, List.exists_mem_cons_iff, ← or_assoc]
      refine or_congr ?_ Iff.rfl
      split_ifs with hstring <;> simp [hstring]

theorem resolves_nil : Resolves hashes m [] ⟨none, true, 0, false, []⟩ := by
  refine ⟨?_, ?_, ?_, ?_, ?_⟩ <;> simp

/-- One predicate more. -/
theorem Resolves.snoc {ps : List Predicate} {r : PkResolution} (h : Resolves hashes m ps r) (p : Predicate) :
    Resolves hashes m (ps ++ [p]) (resolvePredicate hashes m r p) := by
  have hall : ∀ P : Predicate → Prop, (∀ q ∈ ps ++ [p], P q) ↔ (∀ q ∈ ps, P q) ∧ P p := fun P => by
    rw [List.forall_mem_append, List.forall_mem_singleton]
  have hex : ∀ P : Predicate → Prop, (∃ q ∈ ps ++ [p], P q) ↔ (∃ q ∈ ps, P q) ∨ P p := fun P => by
    simp only [List.mem_append, List.mem_singleton, or_and_right, exists_or, exists_eq_left]
  by_cases hp : Looked m p
  · have hlooked : ¬(!p.op.canUseInvertedIndex || m.isHighCardinality p.column) = true := by simp [hp.1, hp.2]
    obtain ⟨hbitmap, hstrings, htexts⟩ := foldl_collectPks (m := m)
      (lookupValues p) (∅, r.hasStringPks, r.allHashMappings)
    rw [resolvePredicate, if_neg hlooked]
    generalize (lookupValues p).foldl (collectPks hashes m p.column) (∅, r.hasStringPks, r.allHashMappings) = found at *
    obtain ⟨bitmap, hasStringPks, mappings⟩ := found
    have hnew : ∀ id, id ∈ bitmap ↔
        ∃ v ∈ lookupValues p, id ∈ (m.entry p.column (hashes.valueHash v)).pkBitmap := fun id => by
      rw [hbitmap]
      simp
    cases hr : r.resultBitmap with
    | none =>
      have hnone := h.resolved.mp hr
      refine ⟨?_, ?_, ?_, ?_, fun e => ?_⟩ <;> dsimp only
      · exact iff_of_false (Option.some_ne_none _) fun hno => ((hall _).mp hno).2 hp
      · rintro _ ⟨⟩ id
        rw [hall, hnew]
        exact ⟨fun hid => ⟨fun q hq hlook => absurd hlook (hnone q hq), fun _ => hid⟩, fun hid => hid.2 hp⟩
      · rw [hall, h.complete, and_iff_left hp]
      · rw [hex, hstrings, h.strings, and_iff_right hp]
      · rw [hex, htexts, h.texts, and_iff_right hp]
    | some result =>
      have hbefore := h.bitmap result hr
      refine ⟨?_, ?_, ?_, ?_, fun e => ?_⟩ <;> dsimp only
      · exact iff_of_false (Option.some_ne_none _) fun hno => ((hall _).mp hno).2 hp
      · rintro _ ⟨⟩ id
        rw [hall, Finset.mem_inter, hbefore, hnew]
        exact and_congr_right fun _ => ⟨fun hid _ => hid, fun hid => hid hp⟩
      · rw [hall, h.complete, and_iff_left hp]
      · rw [hex, hstrings, h.strings, and_iff_right hp]
      · rw [hex, htexts, h.texts, and_iff_right hp]
  · have hskipped : (!p.op.canUseInvertedIndex || m.isHighCardinality p.column) = true := by
      rw [Looked] at hp
      cases hop : p.op.canUseInvertedIndex <;> cases hhigh : m.isHighCardinality p.column <;> simp_all
    rw [resolvePredicate, if_pos hskipped]
    refine ⟨?_, ?_, ?_, ?_, fun e => ?_⟩ <;> dsimp only
    · rw [hall, h.resolved, and_iff_left hp]
    · intro bitmap hbitmap id
      rw [hall, h.bitmap bitmap hbitmap]
      exact (and_iff_left fun hlook => absurd hlook hp).symm
    · rw [hall]
      exact iff_of_false Bool.false_ne_true fun hboth => hp hboth.2
    · rw [hex, h.strings]
      exact (or_iff_left fun hboth => hp hboth.1).symm
    · rw [hex, h.texts]
      exact (or_iff_left fun hboth => hp hboth.1).symm

theorem Resolves.foldl {before : List Predicate} {r : PkResolution} (h : Resolves hashes m before r)
    (ps : List Predicate) : Resolves hashes m (before ++ ps) (ps.foldl (resolvePredicate hashes m) r) := by
  induction ps generalizing before r with
  | nil => rwa [List.append_nil]
  | cons p ps ih =>
    have hstep := ih (h.snoc p)
    rwa [List.append_assoc] at hstep

end Phase2

/-! ### What is given back -/

/-- The key that is given back for a row with this key. -/
def givenBack (pk : PrimaryKey) : PrimaryKey :=
  match pk.asU32 with
  | some n => .int64 (Int64.ofNat n)
  | none => .string pk.toStringRepr

def GivenBack (pk : PrimaryKey) : Prop := (∃ n, pk.asU32 = some n) ∨ ∃ s, pk = .string s

theorem int64_of_asU32 {pk : PrimaryKey} {n : Nat} (h : pk.asU32 = some n) : pk = .int64 (Int64.ofNat n) := by
  cases pk with
  | int64 v =>
    rw [PrimaryKey.asU32] at h
    split_ifs at h with hrange
    obtain rfl := Option.some.inj h
    have hnat : Int64.ofNat v.toInt.toNat = v := by
      rw [← Int64.ofInt_eq_ofNat, Int.toNat_of_nonneg hrange.1]
      exact Int64.ofInt_toInt v
    rw [hnat]
  | string s => cases h
  | composite parts => cases h

theorem givenBack_eq {pk : PrimaryKey} (h : GivenBack pk) : givenBack pk = pk := by
  rcases h with ⟨n, hn⟩ | ⟨s, rfl⟩
  · rw [givenBack, hn]
    exact (int64_of_asU32 hn).symm
  · rfl

theorem givenBack_givenBack {pk : PrimaryKey} (pk' : PrimaryKey) (h : givenBack pk' = pk) : GivenBack pk := by
  rw [givenBack] at h
  cases hn : pk'.asU32 with
  | some n =>
    rw [hn] at h
    have hpk : pk' = pk := (int64_of_asU32 hn).trans h
    exact .inl ⟨n, hpk ▸ hn⟩
  | none =>
    rw [hn] at h
    exact .inr ⟨_, h.symm⟩

section Result
variable {hashes : WalHashes} {indexed : String → Bool} {rows : List WalRow} {predicates : List Predicate}
  {m : InvertedIndexManager} {less : ColumnValue → ColumnValue → Prop} {p : Predicate} {row : WalRow}

/-- A value of the row was indexed under the predicate. -/
def Posted (indexed : String → Bool) (p : Predicate) (row : WalRow) : Prop :=
  indexed p.column = true ∧ ∃ v ∈ lookupValues p, row.columns.lookup p.column = some v

theorem mem_of_lookupValues {v : ColumnValue} (h : v ∈ lookupValues p) : v ∈ p.values := by
  rw [lookupValues] at h
  split_ifs at h with hop
  · exact List.mem_of_mem_head? (Option.mem_toList.mp h)
  · exact h

theorem satisfies_iff (hlook : Looked m p) :
    row.Satisfies less p ↔ ∃ v ∈ lookupValues p, row.columns.lookup p.column = some v := by
  have hop : p.op = .eq ∨ p.op = .inList := by simpa [PredicateOp.canUseInvertedIndex] using hlook.1
  rcases hop with hop | hop
  · simp [WalRow.Satisfies, lookupValues, hop]
  · simp [WalRow.Satisfies, lookupValues, hop]

theorem exists_added_iff (hfree : CollisionFree hashes rows predicates) (hp : p ∈ predicates) (P : PrimaryKey → Prop) :
    (∃ v ∈ lookupValues p, ∃ pk,
        addedUnder hashes (rows.flatMap (rowAdds indexed)) p.column (hashes.valueHash v) pk ∧ P pk) ↔
      ∃ row ∈ rows, Posted indexed p row ∧ P row.pk := by
  constructor
  · rintro ⟨v, hv, pk, hadded, hP⟩
    obtain ⟨row, hrow, hindexed, ⟨w, hw, hhash⟩, rfl⟩ := addedUnder_iff.mp hadded
    obtain rfl := hfree.values row hrow p hp w hw v (mem_of_lookupValues hv) hhash
    exact ⟨row, hrow, ⟨hindexed, w, hv, hw⟩, hP⟩
  · rintro ⟨row, hrow, ⟨hindexed, v, hv, hlookup⟩, hP⟩
    exact ⟨v, hv, row.pk, addedUnder_iff.mpr ⟨row, hrow, hindexed, ⟨v, hlookup, rfl⟩, rfl⟩, hP⟩

theorem mem_decodePk {r : PkResolution} {id : Nat} {pk : PrimaryKey}
    (hnone : r.hasStringPks = false → r.allHashMappings = []) :
    pk ∈ decodePk r id ↔ (∃ text, (id, text) ∈ r.allHashMappings ∧ .string text = pk) ∨
      (∀ text, (id, text) ∉ r.allHashMappings) ∧ pk = .int64 (Int64.ofNat id) := by
  have htext : ∀ text, text ∈ originals r id ↔ (id, text) ∈ r.allHashMappings := fun text => by
    simp [originals]
  have hempty : (r.hasStringPks && originals r id ≠ []) = true ↔ ∃ text, (id, text) ∈ r.allHashMappings := by
    rw [Bool.and_eq_true, decide_eq_true_eq]
    constructor
    · rintro ⟨-, hne⟩
      obtain ⟨text, h⟩ := List.exists_mem_of_ne_nil _ hne
      exact ⟨text, (htext text).mp h⟩
    · rintro ⟨text, h⟩
      refine ⟨?_, List.ne_nil_of_mem ((htext text).mpr h)⟩
      rw [← Bool.not_eq_false]
      intro hno
      rw [hnone hno] at h
      exact List.not_mem_nil h
  rw [decodePk]
  split_ifs with hif
  · obtain ⟨text, h⟩ := hempty.mp hif
    simp only [List.mem_map, htext]
    exact (or_iff_left fun hboth => hboth.1 text h).symm
  · have hno : ∀ text, (id, text) ∉ r.allHashMappings := fun text h => hif (hempty.mpr ⟨text, h⟩)
    rw [List.mem_singleton, or_iff_right fun ⟨text, h, _⟩ => hno text h, and_iff_right hno]

theorem mem_mappings {r : PkResolution} (hresolves : Resolves hashes m predicates r)
    (hholds : IndexHolds hashes m (rows.flatMap (rowAdds indexed))) (hfree : CollisionFree hashes rows predicates)
    {id : Nat} {text : String} :
    (id, text) ∈ r.allHashMappings ↔ ∃ p ∈ predicates, Looked m p ∧ ∃ row ∈ rows, Posted indexed p row ∧
      row.pk.asU32 = none ∧ pkId hashes row.pk = id ∧ row.pk.toStringRepr = text := by
  rw [hresolves.texts]
  refine exists_congr fun p => and_congr_right fun hp => and_congr_right fun hlook => ?_
  rw [← exists_added_iff hfree hp fun pk => pk.asU32 = none ∧ pkId hashes pk = id ∧ pk.toStringRepr = text]
  refine exists_congr fun v => and_congr_right fun _ => ?_
  have hentry := hholds p.column hlook.2 (hashes.valueHash v)
  rw [hentry.texts, hentry.strings]
  exact and_iff_right_of_imp fun ⟨pk, hadded, hnone, _⟩ => ⟨pk, hadded, hnone⟩

theorem hasStringPks_of_mem {r : PkResolution} (hresolves : Resolves hashes m predicates r)
    (h : r.hasStringPks = false) : r.allHashMappings = [] := by
  rw [List.eq_nil_iff_forall_not_mem]
  intro e he
  obtain ⟨p, hp, hlook, v, hv, hstring, -⟩ := (hresolves.texts e).mp he
  exact Bool.false_ne_true (h.symm.trans (hresolves.strings.mpr ⟨p, hp, hlook, v, hv, hstring⟩))

theorem decodePk_row {r : PkResolution} (hresolves : Resolves hashes m predicates r)
    (hholds : IndexHolds hashes m (rows.flatMap (rowAdds indexed))) (hfree : CollisionFree hashes rows predicates)
    (hp : p ∈ predicates) (hlook : Looked m p) (hrow : row ∈ rows) (hposted : Posted indexed p row) {pk : PrimaryKey} :
    pk ∈ decodePk r (pkId hashes row.pk) ↔ givenBack row.pk = pk := by
  have hmappings : ∀ text, (pkId hashes row.pk, text) ∈ r.allHashMappings ↔
      row.pk.asU32 = none ∧ row.pk.toStringRepr = text := by
    intro text
    rw [mem_mappings hresolves hholds hfree]
    constructor
    · rintro ⟨_, _, _, row', hrow', _, hnone, hid, htext⟩
      have hpk := hfree.keys row' hrow' row hrow hid
      rw [← hpk]
      exact ⟨hnone, htext⟩
    · rintro ⟨hnone, htext⟩
      exact ⟨p, hp, hlook, row, hrow, hposted, hnone, rfl, htext⟩
  rw [mem_decodePk (hasStringPks_of_mem hresolves)]
  simp only [hmappings]
  cases hn : row.pk.asU32 with
  | some n =>
    have hid : pkId hashes row.pk = n := by rw [pkId, hn, Option.getD_some]
    simp [givenBack, hn, hid, eq_comm]
  | none => simp [givenBack, hn]

/-- The keys of the rows that were indexed under all the predicates that are looked up. -/
theorem mem_matchingPks {F : Type} {e : TwoPhaseQueryExecutor F} (hnodup : (rows.map (·.pk)).Nodup)
    (hholds : IndexHolds hashes e.invertedIndexManager (rows.flatMap (rowAdds indexed)))
    (hfree : CollisionFree hashes rows predicates) {blocks : List BlockId} (hblocks : blocks ≠ []) {pk : PrimaryKey} :
    pk ∈ (e.phase2PkResolution hashes predicates blocks).matchingPks ↔
      (∃ p ∈ predicates, Looked e.invertedIndexManager p) ∧
        ∃ row ∈ rows, (∀ p ∈ predicates, Looked e.invertedIndexManager p → Posted indexed p row) ∧
          givenBack row.pk = pk := by
  have hnil : Resolves hashes e.invertedIndexManager [] ⟨none, true, 0, false, []⟩ := resolves_nil
  have hresolves := hnil.foldl predicates
  rw [List.nil_append] at hresolves
  rw [phase2PkResolution, if_neg hblocks]
  dsimp only
  generalize predicates.foldl (resolvePredicate hashes e.invertedIndexManager) ⟨none, true, 0, false, []⟩ = r at *
  cases hr : r.resultBitmap with
  | none =>
    have hnone := hresolves.resolved.mp hr
    refine iff_of_false List.not_mem_nil ?_
    rintro ⟨⟨p, hp, hlook⟩, -⟩
    exact hnone p hp hlook
  | some bitmap =>
    have hsome : ∃ p ∈ predicates, Looked e.invertedIndexManager p := by
      by_contra hno
      have hnone := hresolves.resolved.mpr fun p hp hlook => hno ⟨p, hp, hlook⟩
      rw [hr] at hnone
      cases hnone
    have hbits : ∀ id, id ∈ bitmap ↔ ∀ p ∈ predicates, Looked e.invertedIndexManager p →
        ∃ row ∈ rows, Posted indexed p row ∧ pkId hashes row.pk = id := by
      intro id
      rw [hresolves.bitmap bitmap hr]
      refine forall_congr' fun p => forall_congr' fun hp => forall_congr' fun hlook => ?_
      rw [← exists_added_iff hfree hp fun pk => pkId hashes pk = id]
      refine exists_congr fun v => and_congr_right fun _ => ?_
      exact (hholds p.column hlook.2 (hashes.valueHash v)).bitmap id
    obtain ⟨p, hp, hlook⟩ := hsome
    rw [Option.map_some, Option.getD_some, List.mem_flatMap, and_iff_right ⟨p, hp, hlook⟩]
    simp only [Finset.mem_sort, hbits]
    constructor
    · rintro ⟨id, hid, hpk⟩
      obtain ⟨row, hrow, hposted, rfl⟩ := hid p hp hlook
      refine ⟨row, hrow, fun q hq hlookq => ?_, (decodePk_row hresolves hholds hfree hp hlook hrow hposted).mp hpk⟩
      obtain ⟨row', hrow', hposted', hid'⟩ := hid q hq hlookq
      have hsame : row' = row := List.inj_on_of_nodup_map hnodup hrow' hrow (hfree.keys row' hrow' row hrow hid')
      rwa [hsame] at hposted'
    · rintro ⟨row, hrow, hposted, hpk⟩
      exact ⟨pkId hashes row.pk, fun q hq hlookq => ⟨row, hrow, hposted q hq hlookq, rfl⟩,
        (decodePk_row hresolves hholds hfree hp hlook hrow (hposted p hp hlook)).mpr hpk⟩

theorem isComplete_iff {F : Type} {e : TwoPhaseQueryExecutor F} {blocks : List BlockId} (hblocks : blocks ≠ []) :
    (e.phase2PkResolution hashes predicates blocks).isComplete = true ↔
      ∀ p ∈ predicates, Looked e.invertedIndexManager p := by
  have hnil : Resolves hashes e.invertedIndexManager [] ⟨none, true, 0, false, []⟩ := resolves_nil
  have hresolves := hnil.foldl predicates
  rw [List.nil_append] at hresolves
  rw [phase2PkResolution, if_neg hblocks]
  exact hresolves.complete

end Result

/-! ### Queries -/

section Queries
variable {F : Type} {ops : FloatOps F} {hashes : WalHashes} {less : ColumnValue → ColumnValue → Prop}
  {threshold : Nat} {indexed : String → Bool} {rows : List WalRow} {predicates : List Predicate}
  {e e' : TwoPhaseQueryExecutor F} {result : List PrimaryKey}

theorem execute_ok (h : e.execute ops hashes predicates = .ok (result, e')) :
    e'.invertedIndexManager = e.invertedIndexManager ∧ (¬Survives ops hashes e' predicates → result = []) ∧
      (Survives ops hashes e' predicates →
        ∃ blocks ≠ [], result = (e'.phase2PkResolution hashes predicates blocks).matchingPks) := by
  rw [execute] at h
  split_ifs at h with hpredicates
  cases hphase : e.phase1BlockElimination ops hashes predicates with
  | error error =>
    rw [hphase] at h
    cases h
  | ok eliminated =>
    obtain ⟨elimination, loaded⟩ := eliminated
    obtain ⟨-, hindex, hsurvives⟩ := phase1_ok hphase
    simp only [hphase, bind, Except.bind] at h
    split_ifs at h with hcandidates
    · obtain ⟨rfl, rfl⟩ := Prod.mk.inj (Except.ok.inj h)
      exact ⟨hindex, fun _ => rfl, fun hs => absurd hcandidates (hsurvives.mpr hs)⟩
    · obtain ⟨rfl, rfl⟩ := Prod.mk.inj (Except.ok.inj h)
      exact ⟨hindex, fun hs => absurd (hsurvives.mp hcandidates) hs, fun _ => ⟨_, hcandidates, rfl⟩⟩

theorem canAnswer_of_posted {m : InvertedIndexManager} {p : Predicate} {row : WalRow}
    (hholds : IndexHolds hashes m (rows.flatMap (rowAdds indexed))) (hlook : Looked m p) (hrow : row ∈ rows)
    (hposted : Posted indexed p row) : CanAnswer m p := by
  refine ⟨hlook, fun hnone => ?_⟩
  obtain ⟨hindexed, v, -, hv⟩ := hposted
  have hadded : addedUnder hashes (rows.flatMap (rowAdds indexed)) p.column (hashes.valueHash v) row.pk :=
    addedUnder_iff.mpr ⟨row, hrow, hindexed, ⟨v, hv, rfl⟩, rfl⟩
  have hmem := ((hholds p.column hlook.2 (hashes.valueHash v)).bitmap _).mpr ⟨row.pk, hadded, rfl⟩
  rw [InvertedIndexManager.entry, hnone] at hmem
  exact Finset.notMem_empty _ hmem

/-- A query answers right exactly if the matching rows are within reach and the inverted indexes can answer one of its
    predicates, as long as the skip indexes leave a block. -/
theorem execute_answers_iff (hnodup : (rows.map (·.pk)).Nodup) (hfree : CollisionFree hashes rows predicates)
    (hbuilt : (⟨e.blockManager, e.invertedIndexManager⟩ : WalIndexes) = buildIndexes hashes threshold indexed rows)
    (h : e.execute ops hashes predicates = .ok (result, e')) :
    Answers ops hashes less e' rows predicates result ↔
      (∀ row ∈ rows, row.Matching less predicates → Reachable ops hashes e' indexed predicates row) ∧
        (Survives ops hashes e' predicates → ∃ p ∈ predicates, CanAnswer e'.invertedIndexManager p) := by
  obtain ⟨hindex, hruled, hgiven⟩ := execute_ok h
  have hholds : IndexHolds hashes e'.invertedIndexManager (rows.flatMap (rowAdds indexed)) := by
    rw [hindex, (WalIndexes.mk.inj hbuilt).2]
    exact indexHolds_build
  have hmem : ∀ pk, pk ∈ result ↔ Survives ops hashes e' predicates ∧
      (∃ p ∈ predicates, Looked e'.invertedIndexManager p) ∧
        ∃ row ∈ rows, (∀ p ∈ predicates, Looked e'.invertedIndexManager p → Posted indexed p row) ∧
          givenBack row.pk = pk := by
    intro pk
    by_cases hs : Survives ops hashes e' predicates
    · obtain ⟨blocks, hblocks, rfl⟩ := hgiven hs
      rw [mem_matchingPks hnodup hholds hfree hblocks, and_iff_right hs]
    · rw [hruled hs]
      exact iff_of_false List.not_mem_nil fun hboth => hs hboth.1
  constructor
  · rintro ⟨hfound, -, hanswered⟩
    refine ⟨fun row hrow hmatching => ?_, fun hs => ?_⟩
    · obtain ⟨hs, -, row', -, hposted, hpk⟩ := (hmem row.pk).mp (hfound row hrow hmatching)
      exact ⟨hs, givenBack_givenBack row'.pk hpk, fun p hp hlook => (hposted p hp hlook).1⟩
    · by_contra hno
      have hnone : ∀ p ∈ predicates, ¬CanAnswer e'.invertedIndexManager p := fun p hp hcan => hno ⟨p, hp, hcan⟩
      obtain ⟨pk, hpk⟩ := List.exists_mem_of_ne_nil _ (hanswered hs hnone)
      obtain ⟨-, ⟨p, hp, hlook⟩, row, hrow, hposted, -⟩ := (hmem pk).mp hpk
      exact hnone p hp (canAnswer_of_posted hholds hlook hrow (hposted p hp hlook))
  · rintro ⟨hreach, hcan⟩
    refine ⟨fun row hrow hmatching => ?_, fun blocks hblocks hcomplete pk hpk => ?_, fun hs hnone => ?_⟩
    · obtain ⟨hs, hkind, hindexed⟩ := hreach row hrow hmatching
      obtain ⟨p, hp, hlook, -⟩ := hcan hs
      refine (hmem row.pk).mpr ⟨hs, ⟨p, hp, hlook⟩, row, hrow, fun q hq hlookq => ?_, givenBack_eq hkind⟩
      exact ⟨hindexed q hq hlookq, (satisfies_iff hlookq).mp (hmatching q hq)⟩
    · have hlooked := (isComplete_iff hblocks).mp hcomplete
      obtain ⟨-, -, row, hrow, hposted, hpk⟩ := (hmem pk).mp hpk
      have hmatching : row.Matching less predicates := fun p hp =>
        (satisfies_iff (hlooked p hp)).mpr (hposted p hp (hlooked p hp)).2
      exact ⟨row, hrow, hmatching, (givenBack_eq (hreach row hrow hmatching).2.1).symm.trans hpk⟩
    · obtain ⟨p, hp, hcan⟩ := hcan hs
      exact absurd hcan (hnone p hp)

end Queries

/-! ### Two orders, one of them open -/

def intOps : FloatOps Int := ⟨Int64.toInt, fun bits => bits.toNat, fun _ => false, fun a b => a ≤ b, fun a b => a < b⟩

def lengthHashes : WalHashes where
  valueHash
    | .int64 v => v.toInt.toNat
    | .string s => s.length
    | _ => 0
  pkHash pk := pk.toStringRepr.length

def intLess : ColumnValue → ColumnValue → Prop
  | .int64 a, .int64 b => a < b
  | _, _ => False

def orders : List WalRow :=
  [⟨.int64 1, .ofPairs [("status", .string "open"), ("total", .int64 30)]⟩,
    ⟨.string "a-2", .ofPairs [("status", .string "closed"), ("total", .int64 8)]⟩]

def orderIndexes : WalIndexes := buildIndexes lengthHashes 1000 (fun column => column = "status") orders

def orderExecutor : TwoPhaseQueryExecutor Int :=
  ⟨orderIndexes.blockManager, orderIndexes.invertedIndexManager, fun _ => .ok [], ∅⟩

def statusOpen : List Predicate := [⟨"status", .eq, [.string "open"]⟩]

def totalAbove : List Predicate := [⟨"total", .gt, [.int64 20]⟩]

theorem execute_answers_open : ∃ result e', orderExecutor.execute intOps lengthHashes statusOpen = .ok (result, e') ∧
    Answers intOps lengthHashes intLess e' orders statusOpen result := by
  have hnodup : (orders.map (·.pk)).Nodup := by decide +kernel
  have hfree : CollisionFree lengthHashes orders statusOpen := ⟨by decide +kernel, by decide +kernel⟩
  have hbuilt : (⟨orderExecutor.blockManager, orderExecutor.invertedIndexManager⟩ : WalIndexes) =
      buildIndexes lengthHashes 1000 (fun column => column = "status") orders := rfl
  refine ⟨_, _, rfl, (execute_answers_iff (e := orderExecutor) hnodup hfree hbuilt rfl).mpr ⟨fun row hrow _ => ?_, ?_⟩⟩
  · refine ⟨⟨1, by decide +kernel, by decide +kernel⟩, ?_, fun p hp _ => ?_⟩
    · rcases List.mem_pair.mp hrow with rfl | rfl
      · exact .inl ⟨1, rfl⟩
      · exact .inr ⟨"a-2", rfl⟩
    · obtain rfl := List.mem_singleton.mp hp
      rfl
  · exact fun _ => ⟨_, List.mem_singleton_self _, ⟨rfl, rfl⟩, Option.some_ne_none _⟩

/-- A comparison alone gives no keys at all. -/
theorem comparison_lost : ∃ e', orderExecutor.execute intOps lengthHashes totalAbove = .ok ([], e') ∧
    ¬Answers intOps lengthHashes intLess e' orders totalAbove [] := by
  refine ⟨_, rfl, fun h => ?_⟩
  have hmatching : WalRow.Matching intLess ⟨.int64 1, .ofPairs [("status", .string "open"), ("total", .int64 30)]⟩
      totalAbove := by
    intro p hp
    obtain rfl := List.mem_singleton.mp hp
    have hless : intLess (.int64 20) (.int64 30) := show (20 : Int64) < 30 by decide
    exact ⟨.int64 20, rfl, .int64 30, rfl, hless⟩
  exact List.not_mem_nil (h.found _ List.mem_cons_self hmatching)

end Reiver.Pond
