import Mathlib.Data.List.Induction
import Reiver.Pond.Indexes.Questions

/-! # What a partition summary knows

A history of `add_file` calls leaves in the summary of each column the union of every set ever added for
it, unless a bound was passed on the way (`columnInv_build`). A partition is therefore skipped on the
evidence of the files that carry an index, for all of its files (`filter_keeps_iff_covered`). -/

namespace Reiver.Pond

/-! ## Histories -/

/-- A call of `add_file`. -/
structure AddFile where
  partitionKey : String
  file : FileSkipIndex
  rowCount : Nat

def build (h : List AddFile) : HierarchicalSkipIndex :=
  h.foldl (fun idx a => idx.addFile a.partitionKey a.file a.rowCount) .new

/-- The sets added for a column of a partition, in order. -/
def evidence (h : List AddFile) (k c : String) : List FstSet :=
  h.flatMap fun a => if a.partitionKey = k then (a.file.columnValues.lookup c).toList else []

/-- The file last added under a path of a partition. -/
def latest (h : List AddFile) (k path : String) : Option FileSkipIndex :=
  (h.reverse.find? fun a => a.partitionKey = k ∧ a.file.filePath = path).map (·.file)

/-- Adding `s` to a summary of the sets `l` passes a bound. -/
def Overflow (l : List FstSet) (s : FstSet) : Prop :=
  (unionAll l).card + s.card > maxSummaryCardinality ∨
    l ≠ [] ∧ summaryMemory (unionAll (l ++ [s])) > maxSummaryMemoryBytes

/-- Adding the sets one by one passes a bound at some point. -/
def Overflows (l : List FstSet) : Prop := ∃ pre s, pre ++ [s] <+: l ∧ Overflow pre s

@[simp] theorem overflows_nil : ¬Overflows [] := by
  rintro ⟨pre, s, hp, -⟩
  simp at hp

theorem overflows_concat {l : List FstSet} {s : FstSet} : Overflows (l ++ [s]) ↔ Overflows l ∨ Overflow l s := by
  simp only [Overflows, List.prefix_concat_iff]
  constructor
  · rintro ⟨pre, t, heq | hp, ho⟩
    · obtain ⟨rfl, ht⟩ := List.append_inj' heq rfl
      cases ht
      exact Or.inr ho
    · exact Or.inl ⟨pre, t, hp, ho⟩
  · rintro (⟨pre, t, hp, ho⟩ | ho)
    · exact ⟨pre, t, Or.inr hp, ho⟩
    · exact ⟨l, s, Or.inl rfl, ho⟩

theorem evidence_concat (h : List AddFile) (a : AddFile) (k c : String) : evidence (h ++ [a]) k c =
    evidence h k c ++ if a.partitionKey = k then (a.file.columnValues.lookup c).toList else [] := by
  simp [evidence]

theorem build_concat (h : List AddFile) (a : AddFile) :
    build (h ++ [a]) = (build h).addFile a.partitionKey a.file a.rowCount := by
  simp [build]

theorem latest_concat (h : List AddFile) (a : AddFile) (k path : String) : latest (h ++ [a]) k path =
    if a.partitionKey = k ∧ a.file.filePath = path then some a.file else latest h k path := by
  unfold latest
  rw [List.reverse_append, List.reverse_singleton, List.singleton_append, List.find?_cons]
  split <;> simp_all

theorem exists_of_latest {h : List AddFile} {k path : String} {f : FileSkipIndex} (hf : latest h k path = some f) :
    ∃ a ∈ h, a.partitionKey = k ∧ a.file = f ∧ f.filePath = path := by
  obtain ⟨a, ha, rfl⟩ := Option.map_eq_some_iff.mp hf
  have hprop := List.find?_some ha
  obtain ⟨hk, hp⟩ := of_decide_eq_true hprop
  exact ⟨a, List.mem_reverse.mp (List.mem_of_find?_eq_some ha), hk, rfl, hp⟩

theorem filePath_of_latest {h : List AddFile} {k path : String} {f : FileSkipIndex} (hf : latest h k path = some f) :
    f.filePath = path := by
  obtain ⟨-, -, -, -, hp⟩ := exists_of_latest hf
  exact hp

/-! ## One column of one partition -/

/-- What a partition knows about a column after the sets `l` were added for it. -/
structure ColumnInv (p : PartitionIndex) (c : String) (l : List FstSet) : Prop where
  high : c ∈ p.highCardinalityColumns ↔ Overflows l
  summary : Overflows l ∨ p.summary.lookup c = if l = [] then none else some (unionAll l)
  gone : Overflows l → p.summary.lookup c = none
  cardinality : ∀ s, p.summary.lookup c = some s → p.columnCardinality.lookup c = some s.card

namespace ColumnInv
variable {p p' : PartitionIndex} {c : String} {l : List FstSet}

theorem congr (hi : ColumnInv p c l) (hh : c ∈ p'.highCardinalityColumns ↔ c ∈ p.highCardinalityColumns)
    (hs : p'.summary.lookup c = p.summary.lookup c)
    (hc : p'.columnCardinality.lookup c = p.columnCardinality.lookup c) : ColumnInv p' c l where
  high := hh.trans hi.high
  summary := hs ▸ hi.summary
  gone := hs ▸ hi.gone
  cardinality s := by rw [hs, hc]; exact hi.cardinality s

theorem new (k c : String) : ColumnInv (PartitionIndex.new k) c [] where
  high := by simp [PartitionIndex.new]
  summary := Or.inr rfl
  gone h := absurd h overflows_nil
  cardinality s hs := by cases hs

theorem lookup_eq_some (hi : ColumnInv p c l) {s : FstSet} (hs : p.summary.lookup c = some s) :
    ¬Overflows l ∧ l ≠ [] ∧ s = unionAll l := by
  have hno : ¬Overflows l := fun ho => by
    rw [hi.gone ho] at hs
    cases hs
  have hsum := hi.summary.resolve_left hno
  rw [hs] at hsum
  split at hsum
  · cases hsum
  · next hl => exact ⟨hno, hl, Option.some.inj hsum⟩

theorem lookup_eq_none (hi : ColumnInv p c l) : p.summary.lookup c = none ↔ l = [] ∨ Overflows l := by
  constructor
  · intro hn
    rcases hi.summary with ho | hsum
    · exact Or.inr ho
    · rw [hn] at hsum
      split at hsum
      · next hl => exact Or.inl hl
      · cases hsum
  · rintro (rfl | ho)
    · simpa using hi.summary
    · exact hi.gone ho

end ColumnInv

section AddColumn
variable {p : PartitionIndex} {c : String} {l : List FstSet} {s : FstSet}

theorem columnInv_out {p' : PartitionIndex} (ho : Overflows (l ++ [s])) (hh : c ∈ p'.highCardinalityColumns)
    (hs : p'.summary.lookup c = none) : ColumnInv p' c (l ++ [s]) where
  high := iff_of_true hh ho
  summary := Or.inl ho
  gone _ := hs
  cardinality s hs' := by rw [hs] at hs'; cases hs'

theorem columnInv_in {p' : PartitionIndex} (ho : ¬Overflows (l ++ [s])) (hh : c ∉ p'.highCardinalityColumns)
    (hs : p'.summary.lookup c = some (unionAll (l ++ [s])))
    (hc : p'.columnCardinality.lookup c = some (unionAll (l ++ [s])).card) : ColumnInv p' c (l ++ [s]) where
  high := iff_of_false hh ho
  summary := Or.inr (by rw [hs, if_neg (by simp)])
  gone h := absurd h ho
  cardinality t ht := by
    rw [hs] at ht
    cases ht
    exact hc

/-- Whether a bound is passed now is what the code tests: the early test on the cardinalities, then the
    test on the union. -/
theorem unionWithinBudget_eq (hl : l ≠ []) (hcard : ¬(unionAll l).card + s.card > maxSummaryCardinality) :
    (Overflow l s → unionWithinBudget (unionAll l) s = none) ∧ (¬Overflow l s →
      unionWithinBudget (unionAll l) s = some (unionAll (l ++ [s]), (unionAll (l ++ [s])).card)) := by
  have hle : ¬(unionAll l ∪ s).card > maxSummaryCardinality := fun h =>
    hcard (lt_of_lt_of_le h (Finset.card_union_le _ _))
  simp only [unionWithinBudget, Overflow, unionAll_concat]
  refine ⟨fun h => if_pos (Or.inr ?_), fun h => if_neg ?_⟩
  · exact (h.resolve_left hcard).2
  · rintro (h' | h')
    · exact hle h'
    · exact h (Or.inr ⟨hl, h'⟩)

theorem columnInv_addColumn (hi : ColumnInv p c l) : ColumnInv (p.addColumn c s) c (l ++ [s]) := by
  unfold PartitionIndex.addColumn
  by_cases hhigh : c ∈ p.highCardinalityColumns
  · rw [if_pos hhigh]
    have ho := hi.high.mp hhigh
    exact columnInv_out (overflows_concat.mpr (Or.inl ho)) hhigh (hi.gone ho)
  rw [if_neg hhigh]
  have hno : ¬Overflows l := fun ho => hhigh (hi.high.mpr ho)
  cases hs : p.summary.lookup c with
  | none =>
    obtain rfl := ((hi.lookup_eq_none).mp hs).resolve_right hno
    have hone : Overflow [] s ↔ s.card > maxSummaryCardinality := by simp [Overflow]
    dsimp only
    split
    · next hc =>
      exact columnInv_out (overflows_concat.mpr (Or.inr (hone.mpr hc))) (Finset.mem_insert_self _ _) hs
    · next hc =>
      have hno' : ¬Overflows ([] ++ [s]) := fun ho => (overflows_concat.mp ho).elim hno fun h => hc (hone.mp h)
      have hu : unionAll ([] ++ [s]) = s := by rw [unionAll_concat, unionAll_nil, Finset.empty_union]
      exact columnInv_in hno' hhigh (by rw [hu, AList.lookup_insert]) (by rw [hu, AList.lookup_insert])
  | some existing =>
    obtain ⟨-, hl, rfl⟩ := hi.lookup_eq_some hs
    have hexcl : Overflow l s → ColumnInv (p.exclude c) c (l ++ [s]) := fun ho =>
      columnInv_out (overflows_concat.mpr (Or.inr ho)) (Finset.mem_insert_self _ _) (AList.lookup_erase _ _)
    simp only [hi.cardinality _ hs, Option.getD_some]
    split
    · next hc => exact hexcl (Or.inl hc)
    · next hc =>
      obtain ⟨hover, hfits⟩ := unionWithinBudget_eq (s := s) hl hc
      by_cases ho : Overflow l s
      · rw [hover ho]
        exact hexcl ho
      · rw [hfits ho]
        have hno' : ¬Overflows (l ++ [s]) := fun h => (overflows_concat.mp h).elim hno ho
        exact columnInv_in hno' hhigh (AList.lookup_insert _) (AList.lookup_insert _)

theorem addColumn_cases (p : PartitionIndex) (c : String) (s : FstSet) :
    p.addColumn c s = p ∨ p.addColumn c s = p.exclude c ∨
      p.addColumn c s = { p with highCardinalityColumns := insert c p.highCardinalityColumns } ∨
      ∃ t n, p.addColumn c s = { p with
        summary := p.summary.insert c t, columnCardinality := p.columnCardinality.insert c n } := by
  unfold PartitionIndex.addColumn
  by_cases hhigh : c ∈ p.highCardinalityColumns
  · exact Or.inl (if_pos hhigh)
  rw [if_neg hhigh]
  cases p.summary.lookup c with
  | none =>
    by_cases hc : s.card > maxSummaryCardinality
    · exact Or.inr (Or.inr (Or.inl (if_pos hc)))
    · exact Or.inr (Or.inr (Or.inr ⟨s, s.card, if_neg hc⟩))
  | some existing =>
    dsimp only
    split
    · exact Or.inr (Or.inl rfl)
    · cases unionWithinBudget existing s with
      | none => exact Or.inr (Or.inl rfl)
      | some r => exact Or.inr (Or.inr (Or.inr ⟨r.1, r.2, rfl⟩))

theorem columnInv_addColumn_ne {c' : String} (hne : c ≠ c') (hi : ColumnInv p c l) :
    ColumnInv (p.addColumn c' s) c l := by
  rcases addColumn_cases p c' s with h | h | h | ⟨t, n, h⟩ <;> rw [h]
  · exact hi
  · exact hi.congr (by simp [PartitionIndex.exclude, hne]) (AList.lookup_erase_ne hne) (AList.lookup_erase_ne hne)
  · exact hi.congr (by simp [hne]) rfl rfl
  · exact hi.congr Iff.rfl (AList.lookup_insert_ne hne) (AList.lookup_insert_ne hne)

@[simp] theorem addColumn_files : (p.addColumn c s).files = p.files := by
  rcases addColumn_cases p c s with h | h | h | ⟨t, n, h⟩ <;>
    exact (congrArg PartitionIndex.files h).trans rfl

end AddColumn

/-! ## The partition of a history -/

section Fold
variable {p : PartitionIndex} {c : String} {l : List FstSet}

theorem columnInv_addColumns (columns : List (String × FstSet)) (hi : ColumnInv p c l) :
    ColumnInv (columns.foldl (fun p e => p.addColumn e.1 e.2) p) c
      (l ++ (columns.filter (·.1 = c)).map Prod.snd) := by
  induction columns generalizing p l with
  | nil => simpa using hi
  | cons e columns ih =>
    obtain ⟨c', s⟩ := e
    by_cases h : c' = c
    · subst h
      simpa using ih (columnInv_addColumn (s := s) hi)
    · simpa [h] using ih (columnInv_addColumn_ne (s := s) (Ne.symm h) hi)

theorem addColumns_files (columns : List (String × FstSet)) (p : PartitionIndex) :
    (columns.foldl (fun p e => p.addColumn e.1 e.2) p).files = p.files := by
  induction columns generalizing p with
  | nil => rfl
  | cons e columns ih => rw [List.foldl_cons, ih, addColumn_files]

theorem columnInv_addFile (file : FileSkipIndex) (rowCount : Nat) (hi : ColumnInv p c l) :
    ColumnInv (p.addFile file rowCount) c (l ++ (file.columnValues.lookup c).toList) := by
  have hfold := columnInv_addColumns file.columnValues.pairs hi
  rw [Dict.pairs_filter] at hfold
  exact hfold.congr Iff.rfl rfl rfl

theorem addFile_files (p : PartitionIndex) (file : FileSkipIndex) (rowCount : Nat) :
    (p.addFile file rowCount).files = p.files.insert file.filePath file := by
  show AList.insert file.filePath file (List.foldl _ p _).files = _
  rw [addColumns_files]

end Fold

/-- The partition of a key, fresh when no file was added under the key. -/
def partition (h : List AddFile) (k : String) : PartitionIndex :=
  ((build h).partitions.lookup k).getD (PartitionIndex.new k)

section Partition
variable {h : List AddFile} {k c path : String}

theorem addGlobalColumn_partitions (idx : HierarchicalSkipIndex) (c : String) (s : FstSet) :
    (idx.addGlobalColumn c s).partitions = idx.partitions := by
  unfold HierarchicalSkipIndex.addGlobalColumn
  split
  · split <;> rfl
  · split <;> rfl

theorem addFile_partitions (idx : HierarchicalSkipIndex) (k : String) (file : FileSkipIndex) (rowCount : Nat) :
    (idx.addFile k file rowCount).partitions = idx.partitions.insert k
      (((idx.partitions.lookup k).getD (PartitionIndex.new k)).addFile file rowCount) := by
  have hfold : ∀ (columns : List (String × FstSet)) (idx : HierarchicalSkipIndex),
      (columns.foldl (fun idx e => idx.addGlobalColumn e.1 e.2) idx).partitions = idx.partitions := by
    intro columns
    induction columns with
    | nil => exact fun _ => rfl
    | cons e columns ih => exact fun idx => by rw [List.foldl_cons, ih, addGlobalColumn_partitions]
  exact hfold _ _

theorem lookup_build_concat (h : List AddFile) (a : AddFile) (k : String) :
    (build (h ++ [a])).partitions.lookup k =
      if k = a.partitionKey then some ((partition h k).addFile a.file a.rowCount)
      else (build h).partitions.lookup k := by
  rw [build_concat, addFile_partitions, Dict.lookup_insert']
  split
  · next hk => rw [hk]; rfl
  · rfl

theorem partition_concat (h : List AddFile) (a : AddFile) (k : String) : partition (h ++ [a]) k =
    if k = a.partitionKey then (partition h k).addFile a.file a.rowCount else partition h k := by
  unfold partition
  rw [lookup_build_concat]
  split <;> rfl

theorem partition_of_lookup {P : PartitionIndex} (hP : (build h).partitions.lookup k = some P) :
    partition h k = P := by
  rw [partition, hP, Option.getD_some]

theorem columnInv_build (h : List AddFile) (k c : String) : ColumnInv (partition h k) c (evidence h k c) := by
  induction h using List.reverseRecOn with
  | nil => exact ColumnInv.new k c
  | append_singleton h a ih =>
    rw [partition_concat, evidence_concat]
    by_cases hk : k = a.partitionKey
    · rw [if_pos hk, if_pos hk.symm]
      exact columnInv_addFile a.file a.rowCount ih
    · rw [if_neg hk, if_neg (Ne.symm hk), List.append_nil]
      exact ih

theorem files_build (h : List AddFile) (k path : String) :
    (partition h k).files.lookup path = latest h k path := by
  induction h using List.reverseRecOn with
  | nil => rfl
  | append_singleton h a ih =>
    rw [partition_concat, latest_concat]
    by_cases hk : k = a.partitionKey
    · subst hk
      rw [if_pos rfl, addFile_files, Dict.lookup_insert', ih]
      by_cases hp : path = a.file.filePath
      · rw [if_pos hp, if_pos ⟨rfl, hp.symm⟩]
      · rw [if_neg hp, if_neg fun hc => hp hc.2.symm]
    · rw [if_neg hk, if_neg fun hc => hk hc.1.symm, ih]

theorem exists_partition {f : FileSkipIndex} (hf : latest h k path = some f) :
    (build h).partitions.lookup k = some (partition h k) := by
  rw [← files_build] at hf
  cases hP : (build h).partitions.lookup k with
  | some P => rw [partition_of_lookup hP]
  | none =>
    rw [partition, hP, Option.getD_none] at hf
    cases hf

end Partition

end Reiver.Pond
