import Reiver.Pond.Indexes.Summary

/-! # Pruning by partition summaries

A partition is skipped on the evidence of the files that carry an index for a column, for all of its files.
Pruning is sound exactly when no file relies on a column that its own index leaves out while the rest of
the partition answers the question with no (`pruningSound_iff`). -/

namespace Reiver.Pond
variable {builds : String → Bool} {p : SkipPredicates} {h : List AddFile} {k path : String} {f : FileSkipIndex}

/-- The checks of the filter on the file's own index all pass. -/
def KeptAlone (builds : String → Bool) (p : SkipPredicates) (f : FileSkipIndex) : Prop :=
  p.contradicted = false ∧ p.admits builds f.columnValues = true

/-- Pruning by partitions changes nothing for a file that would be kept alone. -/
structure PruningSound (builds : String → Bool) (p : SkipPredicates) (idx : HierarchicalSkipIndex) : Prop where
  keeps : ∀ P ∈ idx.partitions.values, ∀ f ∈ P.files.values, KeptAlone builds p f →
    f.filePath ∈ idx.filterWithSkipPredicates builds p none
  skips : ∀ P ∈ idx.partitions.values, p.admits builds P.summary = false → ∀ f ∈ P.files.values,
    ¬KeptAlone builds p f

/-! ### What the filter returns -/

theorem mem_filter {idx : HierarchicalSkipIndex} {hints : Option (List String)}
    (hpath : ∀ P ∈ idx.partitionsToSearch hints, ∀ path f, P.files.lookup path = some f → f.filePath = path) :
    path ∈ idx.filterWithSkipPredicates builds p hints ↔ ∃ P ∈ idx.partitionsToSearch hints,
      p.admits builds P.summary = true ∧ ∃ f, P.files.lookup path = some f ∧ KeptAlone builds p f := by
  unfold HierarchicalSkipIndex.filterWithSkipPredicates KeptAlone
  cases hc : p.contradicted with
  | true => simp
  | false =>
    rw [if_neg Bool.false_ne_true]
    split
    · next he =>
      have hadmits : ∀ columns, p.admits builds columns = true := fun columns =>
        admits_iff.mpr (by rw [questions_of_isEmpty he]; simp)
      simp only [List.mem_flatMap, hadmits, true_and, and_true, Dict.mem_keys]
    · simp only [List.mem_flatMap, List.mem_filter, List.mem_map, Dict.mem_values, true_and]
      constructor
      · rintro ⟨P, ⟨hP, hsum⟩, f, ⟨⟨path', hf⟩, hadm⟩, rfl⟩
        rw [hpath P hP path' f hf]
        exact ⟨P, hP, hsum, f, hf, hadm⟩
      · rintro ⟨P, hP, hsum, f, hf, hadm⟩
        exact ⟨P, ⟨hP, hsum⟩, f, ⟨⟨path, hf⟩, hadm⟩, hpath P hP path f hf⟩

/-- The partition of `k` is among those a search with these hints looks at. -/
def Hinted (hints : Option (List String)) (k : String) : Prop := ∀ l, hints = some l → k ∈ l

theorem hinted_none (k : String) : Hinted none k := fun l hl => by cases hl

theorem mem_partitionsToSearch {hints : Option (List String)} {P : PartitionIndex} :
    P ∈ (build h).partitionsToSearch hints ↔
      ∃ k, Hinted hints k ∧ (build h).partitions.lookup k = some P ∧ partition h k = P := by
  have hpart : ∀ k, (build h).partitions.lookup k = some P ↔
      (build h).partitions.lookup k = some P ∧ partition h k = P :=
    fun k => ⟨fun hP => ⟨hP, partition_of_lookup hP⟩, fun hP => hP.1⟩
  cases hints with
  | none =>
    simp only [HierarchicalSkipIndex.partitionsToSearch, Dict.mem_values, ← hpart, hinted_none, true_and]
  | some l =>
    have hmem : ∀ k, Hinted (some l) k ↔ k ∈ l :=
      fun k => ⟨fun hk => hk l rfl, fun hk l' hl' => Option.some.inj hl' ▸ hk⟩
    simp only [HierarchicalSkipIndex.partitionsToSearch, List.mem_filterMap, ← hpart, hmem]

theorem mem_partitions_build {P : PartitionIndex} :
    P ∈ (build h).partitions.values ↔ ∃ k, (build h).partitions.lookup k = some P ∧ partition h k = P :=
  (@mem_partitionsToSearch h none P).trans (exists_congr fun k => and_iff_right (hinted_none k))

theorem mem_filter_build {hints : Option (List String)} :
    path ∈ (build h).filterWithSkipPredicates builds p hints ↔ ∃ k f, Hinted hints k ∧
      latest h k path = some f ∧ p.admits builds (partition h k).summary = true ∧ KeptAlone builds p f := by
  rw [mem_filter]
  · constructor
    · rintro ⟨P, hP, hsum, f, hf, hkept⟩
      obtain ⟨k, hk, -, rfl⟩ := mem_partitionsToSearch.mp hP
      exact ⟨k, f, hk, files_build h k path ▸ hf, hsum, hkept⟩
    · rintro ⟨k, f, hk, hf, hsum, hkept⟩
      exact ⟨partition h k, mem_partitionsToSearch.mpr ⟨k, hk, exists_partition hf, rfl⟩, hsum, f,
        files_build h k path ▸ hf, hkept⟩
  · intro P hP path f hf
    obtain ⟨k, -, -, rfl⟩ := mem_partitionsToSearch.mp hP
    exact filePath_of_latest (files_build h k path ▸ hf)

/-! ### What a summary answers -/

/-- The sets added for a column answer a question: there is none, a bound was passed, or one of them does. -/
def Answered (l : List FstSet) (test : FstSet → Bool) : Prop :=
  l = [] ∨ Overflows l ∨ ∃ s ∈ l, test s = true

theorem ask_summary {q : Question} (hq : q.Sound) (habsent : q.absent = true) :
    q.ask (partition h k).summary = true ↔ Answered (evidence h k q.column) q.test := by
  have hi := columnInv_build h k q.column
  unfold Question.ask Answered
  cases hs : (partition h k).summary.lookup q.column with
  | none =>
    rw [hi.lookup_eq_none] at hs
    exact iff_of_true habsent (hs.elim Or.inl fun ho => Or.inr (Or.inl ho))
  | some s =>
    obtain ⟨hno, hl, rfl⟩ := hi.lookup_eq_some hs
    dsimp only
    rw [hq.witnessed.unionAll_iff hl]
    exact ⟨fun hex => Or.inr (Or.inr hex), fun hex => (hex.resolve_left hl).resolve_left hno⟩

theorem admits_summary (hf : p.admits builds f.columnValues = true) :
    p.admits builds (partition h k).summary = true ↔
      ∀ q ∈ p.questions builds, Answered (evidence h k q.column) q.test := by
  rw [admits_iff] at hf ⊢
  exact forall₂_congr fun q hq =>
    ask_summary (sound_of_mem_questions hq) ((sound_of_mem_questions hq).absent_of_ask (hf q hq))

/-! ### Pruning -/

/-- For every file that would be kept alone, and every question, the sets that files of its partition added
    for the column are none, or passed a bound of the summary, or hold an answer. The file's own set holds
    one; a file without the column relies on the others. -/
def Covered (builds : String → Bool) (p : SkipPredicates) (h : List AddFile) : Prop :=
  ∀ k path f, latest h k path = some f → KeptAlone builds p f →
    ∀ q ∈ p.questions builds, f.columnValues.lookup q.column = none → Answered (evidence h k q.column) q.test

theorem mem_evidence {c : String} {s : FstSet} (hf : latest h k path = some f)
    (hs : f.columnValues.lookup c = some s) : s ∈ evidence h k c := by
  obtain ⟨a, ha, hk, rfl, -⟩ := exists_of_latest hf
  rw [evidence, List.mem_flatMap]
  exact ⟨a, ha, by rw [if_pos hk, hs]; exact List.mem_singleton_self s⟩

theorem answered_of_lookup {q : Question} {s : FstSet} (hf : latest h k path = some f)
    (hs : f.columnValues.lookup q.column = some s) (hask : q.ask f.columnValues = true) :
    Answered (evidence h k q.column) q.test := by
  rw [Question.ask, hs] at hask
  exact Or.inr (Or.inr ⟨s, mem_evidence hf hs, hask⟩)

theorem pruningSound_iff (builds : String → Bool) (p : SkipPredicates) (h : List AddFile) :
    PruningSound builds p (build h) ↔ Covered builds p h := by
  constructor
  · rintro ⟨-, hskips⟩ k path f hf hkept
    have hP := Dict.mem_values.mpr ⟨k, exists_partition hf⟩
    have hfile : f ∈ (partition h k).files.values := Dict.mem_values.mpr ⟨path, (files_build h k path).trans hf⟩
    have hadm : p.admits builds (partition h k).summary = true := by
      by_contra hna
      exact hskips _ hP (Bool.eq_false_iff.mpr hna) f hfile hkept
    exact fun q hq _ => (admits_summary hkept.2).mp hadm q hq
  · intro hcov
    have hadm : ∀ k path f, latest h k path = some f → KeptAlone builds p f →
        p.admits builds (partition h k).summary = true := by
      intro k path f hf hkept
      refine (admits_summary hkept.2).mpr fun q hq => ?_
      cases hs : f.columnValues.lookup q.column with
      | none => exact hcov k path f hf hkept q hq hs
      | some s => exact answered_of_lookup hf hs (admits_iff.mp hkept.2 q hq)
    refine ⟨fun P hP f hf hkept => ?_, fun P hP hsum f hf hkept => ?_⟩
    · obtain ⟨k, -, rfl⟩ := mem_partitions_build.mp hP
      obtain ⟨path, hf⟩ := Dict.mem_values.mp hf
      rw [files_build] at hf
      rw [filePath_of_latest hf]
      exact mem_filter_build.mpr ⟨k, f, hinted_none k, hf, hadm k path f hf hkept, hkept⟩
    · obtain ⟨k, -, rfl⟩ := mem_partitions_build.mp hP
      obtain ⟨path, hf⟩ := Dict.mem_values.mp hf
      rw [files_build] at hf
      rw [hadm k path f hf hkept] at hsum
      cases hsum

theorem keptAlone_iff (k : String) (f : FileSkipIndex) (n : Nat) :
    f.filePath ∈ (build [⟨k, f, n⟩]).filterWithSkipPredicates builds p none ↔ KeptAlone builds p f := by
  have hlatest : ∀ {k' path f'}, latest [⟨k, f, n⟩] k' path = some f' → f = f' := fun hf => by
    obtain ⟨a, ha, -, rfl, -⟩ := exists_of_latest hf
    rw [List.mem_singleton.mp ha]
  have hself : latest [⟨k, f, n⟩] k f.filePath = some f := by simp [latest]
  have hcov : Covered builds p [⟨k, f, n⟩] := fun k' path f' hf _ q _ hnone => by
    obtain ⟨a, ha, -, rfl, -⟩ := exists_of_latest hf
    obtain rfl := List.mem_singleton.mp ha
    exact Or.inl (by simp [evidence, hnone])
  constructor
  · intro hmem
    obtain ⟨k', f', -, hf, -, hkept⟩ := mem_filter_build.mp hmem
    exact hlatest hf ▸ hkept
  · intro hkept
    exact ((pruningSound_iff _ _ _).mpr hcov).keeps _ (Dict.mem_values.mpr ⟨k, exists_partition hself⟩) f
      (Dict.mem_values.mpr ⟨f.filePath, (files_build _ _ _).trans hself⟩) hkept

/-! ### A partition of two kinds of files -/

/-- One file with an index on `status` and one without any. -/
def mixedPartition : List AddFile :=
  [⟨"date=2024-01-01", .build "a.parquet" (AList.singleton "status" ["active"]), 10⟩,
   ⟨"date=2024-01-01", .newEmpty "b.parquet", 10⟩]

def statusClosed : SkipPredicates := { equality := AList.singleton "status" "closed" }

set_option maxRecDepth 10000 in
/-- `b.parquet` might hold closed rows, but its partition is skipped. -/
theorem mixedPartition_not_pruningSound : ¬PruningSound (fun _ => true) statusClosed (build mixedPartition) := by
  intro hsound
  have hf : latest mixedPartition "date=2024-01-01" "b.parquet" = some (.newEmpty "b.parquet") := rfl
  have hempty : (build mixedPartition).filterWithSkipPredicates (fun _ => true) statusClosed none = [] := by decide
  have hkept : KeptAlone (fun _ => true) statusClosed (.newEmpty "b.parquet") := ⟨rfl, by decide⟩
  have hmem := hsound.keeps _ (Dict.mem_values.mpr ⟨_, exists_partition hf⟩) _
    (Dict.mem_values.mpr ⟨_, (files_build _ _ _).trans hf⟩) hkept
  rw [hempty] at hmem
  exact List.not_mem_nil hmem

end Reiver.Pond
