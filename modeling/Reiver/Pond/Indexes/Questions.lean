import Reiver.Lib.Witnessed
import Reiver.Pond.Indexes.SkipIndex

/-! # The questions of a predicate set

`filter_with_skip_predicates` asks the same conjunction of a partition summary and of each file. It is a
list of questions about one column each (`admits_iff`), and every question is answered by single values of
the column's set (`sound_of_mem_questions`). -/

namespace Reiver.Pond

/-- A question of a predicate set about one column: the answer without a set, and the answer for a set. -/
structure Question where
  column : String
  absent : Bool
  test : FstSet → Bool

namespace Question

def ask (q : Question) (columns : Dict String FstSet) : Bool :=
  match columns.lookup q.column with
  | some fst => q.test fst
  | none => q.absent

/-- A check of the source that reads the set of `column` only, as a question. -/
def of (column : String) (check : Dict String FstSet → Bool) : Question :=
  { column, absent := check ∅, test := fun s => check (AList.singleton column s) }

/-- A check that reads the set of `column` only. -/
def Reads (column : String) (check : Dict String FstSet → Bool) : Prop :=
  ∀ d d' : Dict String FstSet, d.lookup column = d'.lookup column → check d = check d'

theorem ask_of {column : String} {check : Dict String FstSet → Bool} (h : Reads column check)
    (columns : Dict String FstSet) : (of column check).ask columns = check columns := by
  unfold ask
  show (match columns.lookup column with | some s => check (AList.singleton column s) | none => check ∅) = check columns
  cases hc : columns.lookup column with
  | none => exact h _ _ (by rw [hc, AList.lookup_empty])
  | some s => exact h _ _ (by rw [hc, ← AList.insert_empty, AList.lookup_insert])

/-- What the filter relies on: sets answer by their members, and a question that an absent set fails is
    failed by every set. -/
structure Sound (q : Question) : Prop where
  witnessed : Witnessed q.test
  absent : q.absent = false → ∀ s, q.test s = false

theorem Sound.absent_of_test {q : Question} (h : Sound q) {s : FstSet} (hs : q.test s = true) : q.absent = true := by
  by_contra hq
  rw [h.absent (Bool.eq_false_iff.mpr hq) s] at hs
  cases hs

theorem Sound.absent_of_ask {q : Question} (h : Sound q) {columns : Dict String FstSet} (hq : q.ask columns = true) :
    q.absent = true := by
  unfold ask at hq
  split at hq
  · exact h.absent_of_test hq
  · exact hq

end Question

section Checks
variable (column : String)

@[simp] theorem lookup_singleton (s : FstSet) :
    AList.lookup column (AList.singleton column s : Dict String FstSet) = some s := by
  rw [← AList.insert_empty, AList.lookup_insert]

theorem reads_mightContain (value : String) : Question.Reads column (mightContain · column value) :=
  fun d d' h => by simp only [mightContain, h]

theorem reads_mightContainPrefix (pfx : String) : Question.Reads column (mightContainPrefix · column pfx) :=
  fun d d' h => by simp only [mightContainPrefix, h]

theorem reads_mightContainSubstring (aut : SubstringAutomaton) :
    Question.Reads column (mightContainSubstringWithAutomaton · column aut) :=
  fun d d' h => by simp only [mightContainSubstringWithAutomaton, h]

theorem reads_mightContainRange (r : RangePredicate) :
    Question.Reads column (mightContainRangeEx · column r.minValue r.minExclusive r.maxValue r.maxExclusive) :=
  fun d d' h => by simp only [mightContainRangeEx, h]

theorem reads_mightContainAny (values : List String) : Question.Reads column (mightContainAny · column values) :=
  fun d d' h => by simp only [mightContainAny, h]

theorem sound_mightContain (value : String) : (Question.of column (mightContain · column value)).Sound where
  witnessed := .of_exists (fun key => value = key) fun s => by
    simp [Question.of, mightContain]
  absent h := by simp [Question.of, mightContain] at h

theorem sound_mightContainPrefix (pfx : String) :
    (Question.of column (mightContainPrefix · column pfx)).Sound where
  witnessed := by
    by_cases hp : pfx = ""
    · exact .of_outright fun s => by simp [Question.of, mightContainPrefix, hp]
    · by_cases hu : incrementLastByte pfx = pfx
      · exact .of_exists (fun key => pfx ≤ key) fun s => by
          simp only [Question.of, mightContainPrefix, hp, lookup_singleton, hu, if_false, if_true, decide_eq_true_eq]
      · exact .of_exists (fun key => pfx ≤ key ∧ key < incrementLastByte pfx) fun s => by
          simp only [Question.of, mightContainPrefix, hp, lookup_singleton, hu, if_false, decide_eq_true_eq]
  absent h := by
    by_cases hp : pfx = "" <;> simp [Question.of, mightContainPrefix, hp] at h

theorem sound_mightContainSubstring (aut : SubstringAutomaton) :
    (Question.of column (mightContainSubstringWithAutomaton · column aut)).Sound where
  witnessed := .of_exists (fun key => aut.accepts key = true) fun s => by
    simp only [Question.of, mightContainSubstringWithAutomaton, lookup_singleton, decide_eq_true_eq]
  absent h := by simp [Question.of, mightContainSubstringWithAutomaton] at h

theorem sound_mightContainRange (r : RangePredicate) : (Question.of column
    (mightContainRangeEx · column r.minValue r.minExclusive r.maxValue r.maxExclusive)).Sound where
  witnessed := by
    by_cases hb : r.minValue = none ∧ r.maxValue = none
    · exact .of_outright fun s => by simp [Question.of, mightContainRangeEx, hb]
    · exact .of_exists (fun key => aboveMin r.minValue r.minExclusive key = true ∧
          belowMax r.maxValue r.maxExclusive key = true) fun s => by
        simp only [Question.of, mightContainRangeEx, lookup_singleton, hb, if_false, decide_eq_true_eq]
  absent h := by simp [Question.of, mightContainRangeEx] at h

theorem sound_mightContainAny (values : List String) :
    (Question.of column (mightContainAny · column values)).Sound where
  witnessed := .of_exists (fun key => key ∈ values) fun s => by
    by_cases hv : values = []
    · simp [Question.of, mightContainAny, hv]
    · simp only [Question.of, mightContainAny, hv, if_false, lookup_singleton, List.any_eq_true, decide_eq_true_eq]
      exact exists_congr fun _ => and_comm
  absent h s := by
    by_cases hv : values = []
    · simp [Question.of, mightContainAny, hv]
    · simp [Question.of, mightContainAny, hv] at h

end Checks

def SkipPredicates.questions (builds : String → Bool) (p : SkipPredicates) : List Question :=
  p.equality.pairs.map (fun e => .of e.1 (mightContain · e.1 e.2)) ++
  p.prefixes.pairs.map (fun e => .of e.1 (mightContainPrefix · e.1 e.2)) ++
  p.ranges.pairs.map (fun e =>
    .of e.1 (mightContainRangeEx · e.1 e.2.minValue e.2.minExclusive e.2.maxValue e.2.maxExclusive)) ++
  p.inLists.pairs.map (fun e => .of e.1 (mightContainAny · e.1 e.2)) ++
  p.substring.pairs.flatMap (fun e => (e.2.filterMap (SubstringAutomaton.new builds)).map fun aut =>
    .of e.1 (mightContainSubstringWithAutomaton · e.1 aut)) ++
  p.tokenSearch.pairs.flatMap (fun e => e.2.map fun tok =>
    .of (ftsColumnPrefix ++ e.1) (mightContain · (ftsColumnPrefix ++ e.1) tok))

section Questions
variable {builds : String → Bool} {p : SkipPredicates}

theorem sound_of_mem_questions {q : Question} (hq : q ∈ p.questions builds) : q.Sound := by
  simp only [SkipPredicates.questions, List.mem_append, List.mem_map, List.mem_flatMap] at hq
  rcases hq with
    ((((⟨e, -, rfl⟩ | ⟨e, -, rfl⟩) | ⟨e, -, rfl⟩) | ⟨e, -, rfl⟩) | ⟨e, -, aut, -, rfl⟩) | ⟨e, -, tok, -, rfl⟩
  · exact sound_mightContain e.1 e.2
  · exact sound_mightContainPrefix e.1 e.2
  · exact sound_mightContainRange e.1 e.2
  · exact sound_mightContainAny e.1 e.2
  · exact sound_mightContainSubstring e.1 aut
  · exact sound_mightContain _ tok

theorem admits_iff {columns : Dict String FstSet} :
    p.admits builds columns = true ↔ ∀ q ∈ p.questions builds, q.ask columns = true := by
  simp only [SkipPredicates.admits, SkipPredicates.questions, Bool.and_eq_true, List.all_eq_true,
    List.forall_mem_append, List.forall_mem_map, List.forall_mem_flatMap,
    Question.ask_of (reads_mightContain _ _), Question.ask_of (reads_mightContainPrefix _ _),
    Question.ask_of (reads_mightContainRange _ _), Question.ask_of (reads_mightContainAny _ _),
    Question.ask_of (reads_mightContainSubstring _ _)]

theorem questions_of_isEmpty (h : p.isEmpty = true) : p.questions builds = [] := by
  simp only [SkipPredicates.isEmpty, Bool.and_eq_true, List.isEmpty_iff] at h
  obtain ⟨⟨⟨⟨⟨⟨-, h1⟩, h2⟩, h3⟩, h4⟩, h5⟩, h6⟩ := h
  simp [SkipPredicates.questions, Dict.pairs, h1, h2, h3, h4, h5, h6]

end Questions

end Reiver.Pond
