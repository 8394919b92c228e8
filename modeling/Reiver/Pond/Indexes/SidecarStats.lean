import Mathlib.Order.Compare
import Reiver.Lib.Binary64
import Reiver.Pond.Indexes.SkipIndex
import Reiver.Pond.Query.Literals
import Reiver.Pond.Query.SkipSatisfied

/-! # Sidecar statistics

The model of `indexes/sidecar_stats_cache.rs`: the minimum and the maximum that the sidecar of a file keeps of its
columns, and the files that skip predicates leave. -/

namespace Reiver.Pond

/-! ### Doubles -/

/-- A double; NaN is `none`. -/
abbrev F64 := Option ExtRat

def F64.partialCmp (x y : F64) : Option Ordering := x.bind fun x => y.map fun y => cmp x y

def FloatText.toRat (f : FloatText) : ℚ := ofDigits (f.int ++ f.frac) * 10 ^ (f.exponent - f.frac.length)

/-- The number that a text denotes, `none` for NaN. -/
def floatLiteral (text : String) : Option (Option ExtRat) :=
  let cs := text.toList
  let negative : Bool := cs.head? = some '-'
  let word := String.ofList ((dropSign cs).map Char.toLower)
  if word = "nan" then some none
  else if word = "inf" ∨ word = "infinity" then some (some (if negative then ⊥ else ⊤))
  else (parseFloatText cs).map fun f =>
    some (((if negative then -f.toRat else f.toRat : ℚ) : WithTop ℚ) : ExtRat)

/-- `str::parse::<f64>`. -/
def parseF64 (text : String) : Option F64 := (floatLiteral text).map (·.map ExtRat.round)

/-! ### Statistics -/

/-- A `serde_json::Value`, as far as it is told apart. -/
inductive StatValue where
  | string (s : String)
  | int (n : Int)
  | float (d : Double)
  | other

def StatValue.number : StatValue → Option ℚ
  | .int n => some n
  | .float d => some d.value
  | _ => none

def StatValue.asF64 (v : StatValue) : Option ExtRat := v.number.map toBinary64

structure ColumnSidecarStats where
  name : String
  min : Option StatValue
  max : Option StatValue

structure FileColumnStats where
  columns : List ColumnSidecarStats

/-! ### Comparison -/

def compareValue (predicateValue : String) (statsValue : StatValue) : Option Ordering :=
  match statsValue with
  | .string s => some (cmp predicateValue s)
  | .other => none
  | number => (parseF64 predicateValue).bind fun predNum => number.asF64.bind fun statNum =>
      predNum.partialCmp (some statNum)

section Column
variable (colStats : ColumnSidecarStats)

def columnMatchesEquality (value : String) : Bool :=
  colStats.min.all (fun min => (compareValue value min).all (· ≠ .lt)) &&
  colStats.max.all (fun max => (compareValue value max).all (· ≠ .gt))

def columnMatchesRange (range : RangePredicate) : Bool :=
  range.minValue.all (fun rangeMin => colStats.max.all fun colMax =>
    (compareValue rangeMin colMax).all fun ord => if range.minExclusive then ord = .lt else ord ≠ .gt) &&
  range.maxValue.all (fun rangeMax => colStats.min.all fun colMin =>
    (compareValue rangeMax colMin).all fun ord => if range.maxExclusive then ord = .gt else ord ≠ .lt)

def columnMatchesInList (values : List String) : Bool := values.any (columnMatchesEquality colStats)

end Column

/-! ### Files -/

/-- The statistics of the first column of a name. -/
def FileColumnStats.column (stats : FileColumnStats) (name : String) : Option ColumnSidecarStats :=
  stats.columns.find? (·.name = name)

def fileMatchesPredicates (stats : FileColumnStats) (predicates : SkipPredicates) : Bool :=
  predicates.equality.pairs.all (fun e => (stats.column e.1).all (columnMatchesEquality · e.2)) &&
  predicates.ranges.pairs.all (fun e => (stats.column e.1).all (columnMatchesRange · e.2)) &&
  predicates.inLists.pairs.all (fun e => (stats.column e.1).all (columnMatchesInList · e.2))

/-- A file whose statistics are not cached is kept. -/
def filterFilesByCachedStats (files : List String) (predicates : SkipPredicates)
    (getCached : String → Option FileColumnStats) : List String :=
  if predicates.contradicted then []
  else if predicates.isEmpty ∨ files = [] then files
  else files.filter fun path => (getCached path).all (fileMatchesPredicates · predicates)

end Reiver.Pond

/-! # True bounds

What the engine compares as numbers or as texts is compared with the bounds of a column after rounding, which keeps
the order: a value of a row is never found outside of true bounds, and a bound that the row meets only where it is
excluded and rounds to the column's own. -/

namespace Reiver.Pond

/-! ### Rows -/

/-- A value of a column; a number with the text it is matched as. -/
inductive StatCell where
  | null
  | text (s : String)
  | number (v : ExtRat) (printed : String)

def StatCell.printed : StatCell → String
  | .null => ""
  | .text s => s
  | .number _ printed => printed

/-- How the engine reads the text of a literal for a numeric column: as a number that is rounded to the double that
    the text is parsed as. -/
structure NumberReading where
  numberOf : String → String → Option ExtRat
  rounds : ∀ column text x, parseF64 text = some (some x) → ∃ y, numberOf column text = some y ∧ y.round = x

section Holds
variable (R : NumberReading) (row : String → StatCell)

def SkipAtom.MeetsNumber (numberOf : String → Option ExtRat) (v : ExtRat) (printed : String) : SkipAtom → Prop
  | .equals value => numberOf value = some v
  | .oneOf values => ∃ value ∈ values, numberOf value = some v
  | .gte value => ∃ x, numberOf value = some x ∧ x ≤ v
  | .gt value => ∃ x, numberOf value = some x ∧ x < v
  | .lte value => ∃ x, numberOf value = some x ∧ v ≤ x
  | .lt value => ∃ x, numberOf value = some x ∧ v < x
  | .startsWith pfx => (SkipAtom.startsWith pfx).Meets printed
  | .contains substring => (SkipAtom.contains substring).Meets printed
  | .token tok => (SkipAtom.token tok).Meets printed

/-- The row satisfies what is asked of a column: numbers as numbers, texts as texts. -/
def SkipAtom.HoldsOf (column : String) (a : SkipAtom) : Prop :=
  match row column with
  | .null => False
  | .text s => a.Meets s
  | .number v printed => a.MeetsNumber (R.numberOf column) v printed

def SkipCall.HoldsOf : SkipCall → Prop
  | .add column a => a.HoldsOf R row column
  | .addRange column min max => (SkipAtom.gte min).HoldsOf R row column ∧ (SkipAtom.lte max).HoldsOf R row column

end Holds

/-! ### True bounds -/

def StatValue.AtMost : StatValue → StatCell → Prop
  | _, .null => True
  | .other, _ => True
  | .string m, .text s => m ≤ s
  | .string _, .number _ _ => False
  | _, .text _ => False
  | m, .number v _ => ∀ x, m.number = some x → ((x : WithTop ℚ) : ExtRat) ≤ v

def StatValue.AtLeast : StatValue → StatCell → Prop
  | _, .null => True
  | .other, _ => True
  | .string m, .text s => s ≤ m
  | .string _, .number _ _ => False
  | _, .text _ => False
  | m, .number v _ => ∀ x, m.number = some x → v ≤ ((x : WithTop ℚ) : ExtRat)

def FileColumnStats.Bounds (stats : FileColumnStats) (row : String → StatCell) : Prop :=
  ∀ c ∈ stats.columns, (∀ m ∈ c.min, m.AtMost (row c.name)) ∧ ∀ m ∈ c.max, m.AtLeast (row c.name)

/-! ### Values within bounds -/

def SameDouble (text : String) (m : StatValue) : Prop := ∃ x, parseF64 text = some (some x) ∧ m.asF64 = some x

/-- The value lies between the bounds, as texts or after rounding. -/
structure ColumnSidecarStats.Spans (c : ColumnSidecarStats) (value : String) : Prop where
  string : (∀ m, c.min = some (.string m) → m ≤ value) ∧ ∀ m, c.max = some (.string m) → value ≤ m
  number : ∀ x, parseF64 value = some (some x) →
    (∀ m ∈ c.min, ∀ y, m.asF64 = some y → y ≤ x) ∧ ∀ m ∈ c.max, ∀ y, m.asF64 = some y → x ≤ y

/-! ### Comparison with a bound -/

section Compare
variable {R : NumberReading} {row : String → StatCell} {column v : String} {m : StatValue} {ord : Ordering}

theorem compareValue_eq_some_iff : compareValue v m = some ord ↔
    (∃ s, m = .string s ∧ cmp v s = ord) ∨ ∃ x y, parseF64 v = some (some x) ∧ m.asF64 = some y ∧ cmp x y = ord := by
  have hnumber : ((parseF64 v).bind fun predNum => m.asF64.bind fun statNum => predNum.partialCmp (some statNum)) =
      some ord ↔ ∃ x y, parseF64 v = some (some x) ∧ m.asF64 = some y ∧ cmp x y = ord := by
    constructor
    · intro h
      obtain ⟨predNum, hx, h⟩ := Option.bind_eq_some_iff.mp h
      obtain ⟨y, hy, h⟩ := Option.bind_eq_some_iff.mp h
      obtain ⟨x, rfl, h⟩ := Option.bind_eq_some_iff.mp h
      exact ⟨x, y, hx, hy, Option.some.inj h⟩
    · rintro ⟨x, y, hx, hy, hcmp⟩
      rw [hx, hy]
      exact congrArg some hcmp
  cases m with
  | string s =>
    rw [compareValue, Option.some.injEq]
    constructor
    · exact fun h => Or.inl ⟨s, rfl, h⟩
    · rintro (⟨s', h, hcmp⟩ | ⟨_, _, _, h, _⟩)
      · cases h
        exact hcmp
      · cases h
  | other =>
    refine iff_of_false (fun h => ?_) ?_
    · rw [compareValue] at h
      cases h
    · rintro (⟨_, h, _⟩ | ⟨_, _, _, h, _⟩) <;> cases h
  | int n =>
    refine hnumber.trans (or_iff_right ?_).symm
    rintro ⟨_, h, _⟩
    cases h
  | float d =>
    refine hnumber.trans (or_iff_right ?_).symm
    rintro ⟨_, h, _⟩
    cases h

theorem NumberReading.round_eq {x y : ExtRat} (hx : parseF64 v = some (some x)) (hy : R.numberOf column v = some y) :
    y.round = x := by
  obtain ⟨y', hy', hround⟩ := R.rounds column v x hx
  cases hy.symm.trans hy'
  exact hround

theorem asF64_eq_round {y : ExtRat} (h : m.asF64 = some y) : ∃ q, m.number = some q ∧
    ExtRat.round ((q : WithTop ℚ) : ExtRat) = y := by
  obtain ⟨q, hq, rfl⟩ := Option.map_eq_some_iff.mp h
  exact ⟨q, hq, rfl⟩

theorem atMost_number {cell : StatCell} {q : ℚ} (hq : m.number = some q) (h : m.AtMost cell) :
    cell = .null ∨ ∃ w printed, cell = .number w printed ∧ ((q : WithTop ℚ) : ExtRat) ≤ w := by
  cases cell with
  | null => exact Or.inl rfl
  | text s => cases m <;> first | exact h.elim | cases hq
  | number w printed => cases m <;> first | exact Or.inr ⟨w, printed, rfl, h q hq⟩ | cases hq

theorem atLeast_number {cell : StatCell} {q : ℚ} (hq : m.number = some q) (h : m.AtLeast cell) :
    cell = .null ∨ ∃ w printed, cell = .number w printed ∧ w ≤ ((q : WithTop ℚ) : ExtRat) := by
  cases cell with
  | null => exact Or.inl rfl
  | text s => cases m <;> first | exact h.elim | cases hq
  | number w printed => cases m <;> first | exact Or.inr ⟨w, printed, rfl, h q hq⟩ | cases hq

theorem compareValue_min (hmin : m.AtMost (row column)) (hasked : (SkipAtom.lte v).HoldsOf R row column)
    (hord : compareValue v m = some ord) :
    ord ≠ .lt ∧ ((SkipAtom.lt v).HoldsOf R row column → ord = .eq → SameDouble v m) := by
  rw [SkipAtom.HoldsOf] at hasked ⊢
  rcases compareValue_eq_some_iff.mp hord with ⟨s, rfl, rfl⟩ | ⟨x, y, hx, hy, rfl⟩
  · cases hcell : row column with
    | null => rw [hcell] at hasked; exact hasked.elim
    | number w printed => rw [hcell] at hmin; exact hmin.elim
    | text t =>
      rw [hcell] at hasked hmin
      have hst : s ≤ t := hmin
      have htv : t ≤ v := hasked
      refine ⟨fun hlt => absurd ((cmp_eq_lt_iff v s).mp hlt) (not_lt_of_ge (hst.trans htv)), fun hlt heq => ?_⟩
      rw [← (cmp_eq_eq_iff v s).mp heq] at hst
      exact absurd (show t < v from hlt) (not_lt_of_ge hst)
  · refine ⟨fun hlt => ?_, fun _ heq => ⟨x, hx, (cmp_eq_eq_iff x y).mp heq ▸ hy⟩⟩
    obtain ⟨q, hq, rfl⟩ := asF64_eq_round hy
    rcases atMost_number hq hmin with hcell | ⟨w, printed, hcell, hqw⟩
    · rw [hcell] at hasked
      exact hasked
    · rw [hcell] at hasked
      obtain ⟨z, hz, hwz⟩ : ∃ z, R.numberOf column v = some z ∧ w ≤ z := hasked
      have hle := ExtRat.round_mono (hqw.trans hwz)
      rw [R.round_eq hx hz] at hle
      exact absurd ((cmp_eq_lt_iff _ _).mp hlt) (not_lt_of_ge hle)

theorem compareValue_max (hmax : m.AtLeast (row column)) (hasked : (SkipAtom.gte v).HoldsOf R row column)
    (hord : compareValue v m = some ord) :
    ord ≠ .gt ∧ ((SkipAtom.gt v).HoldsOf R row column → ord = .eq → SameDouble v m) := by
  rw [SkipAtom.HoldsOf] at hasked ⊢
  rcases compareValue_eq_some_iff.mp hord with ⟨s, rfl, rfl⟩ | ⟨x, y, hx, hy, rfl⟩
  · cases hcell : row column with
    | null => rw [hcell] at hasked; exact hasked.elim
    | number w printed => rw [hcell] at hmax; exact hmax.elim
    | text t =>
      rw [hcell] at hasked hmax
      have hts : t ≤ s := hmax
      have hvt : v ≤ t := hasked
      refine ⟨fun hgt => absurd ((cmp_eq_gt_iff v s).mp hgt) (not_lt_of_ge (hvt.trans hts)), fun hgt heq => ?_⟩
      rw [← (cmp_eq_eq_iff v s).mp heq] at hts
      exact absurd (show v < t from hgt) (not_lt_of_ge hts)
  · refine ⟨fun hgt => ?_, fun _ heq => ⟨x, hx, (cmp_eq_eq_iff x y).mp heq ▸ hy⟩⟩
    obtain ⟨q, hq, rfl⟩ := asF64_eq_round hy
    rcases atLeast_number hq hmax with hcell | ⟨w, printed, hcell, hwq⟩
    · rw [hcell] at hasked
      exact hasked
    · rw [hcell] at hasked
      obtain ⟨z, hz, hzw⟩ : ∃ z, R.numberOf column v = some z ∧ z ≤ w := hasked
      have hle := ExtRat.round_mono (hzw.trans hwq)
      rw [R.round_eq hx hz] at hle
      exact absurd ((cmp_eq_gt_iff _ _).mp hgt) (not_lt_of_ge hle)

theorem compareValue_of_sameDouble (h : SameDouble v m) : compareValue v m = some .eq := by
  obtain ⟨x, hx, hm⟩ := h
  exact compareValue_eq_some_iff.mpr (Or.inr ⟨x, x, hx, hm, cmp_self_eq_eq x⟩)

theorem holdsOf_equals (h : (SkipAtom.equals v).HoldsOf R row column) :
    (SkipAtom.gte v).HoldsOf R row column ∧ (SkipAtom.lte v).HoldsOf R row column := by
  rw [SkipAtom.HoldsOf] at h
  unfold SkipAtom.HoldsOf
  cases hcell : row column with
  | null => rw [hcell] at h; exact h.elim
  | text t =>
    rw [hcell] at h
    cases (show t = v from h)
    exact ⟨le_refl _, le_refl _⟩
  | number w printed =>
    rw [hcell] at h
    exact ⟨⟨w, h, le_refl _⟩, w, h, le_refl _⟩

end Compare

/-! ### One column -/

section Column
variable {R : NumberReading} {row : String → StatCell} {c : ColumnSidecarStats} {v : String} {r : RangePredicate}

theorem columnMatchesEquality_iff : columnMatchesEquality c v = true ↔ c.Spans v := by
  simp only [columnMatchesEquality, Bool.and_eq_true, Option.all_eq_true, decide_eq_true_eq]
  constructor
  · rintro ⟨hmin, hmax⟩
    refine ⟨⟨fun m hm => ?_, fun m hm => ?_⟩, fun x hx => ⟨fun m hm y hy => ?_, fun m hm y hy => ?_⟩⟩
    · exact not_lt.mp fun hlt => hmin _ hm _ rfl ((cmp_eq_lt_iff v m).mpr hlt)
    · exact not_lt.mp fun hgt => hmax _ hm _ rfl ((cmp_eq_gt_iff v m).mpr hgt)
    · refine not_lt.mp fun hlt => hmin m hm _ ?_ ((cmp_eq_lt_iff x y).mpr hlt)
      exact compareValue_eq_some_iff.mpr (Or.inr ⟨x, y, hx, hy, rfl⟩)
    · refine not_lt.mp fun hgt => hmax m hm _ ?_ ((cmp_eq_gt_iff x y).mpr hgt)
      exact compareValue_eq_some_iff.mpr (Or.inr ⟨x, y, hx, hy, rfl⟩)
  · rintro ⟨⟨hmin, hmax⟩, hnumber⟩
    constructor
    · rintro m hm ord hord rfl
      rcases compareValue_eq_some_iff.mp hord with ⟨s, rfl, hcmp⟩ | ⟨x, y, hx, hy, hcmp⟩
      · exact not_lt_of_ge (hmin s hm) ((cmp_eq_lt_iff v s).mp hcmp)
      · exact not_lt_of_ge ((hnumber x hx).1 m hm y hy) ((cmp_eq_lt_iff x y).mp hcmp)
    · rintro m hm ord hord rfl
      rcases compareValue_eq_some_iff.mp hord with ⟨s, rfl, hcmp⟩ | ⟨x, y, hx, hy, hcmp⟩
      · exact not_lt_of_ge (hmax s hm) ((cmp_eq_gt_iff v s).mp hcmp)
      · exact not_lt_of_ge ((hnumber x hx).2 m hm y hy) ((cmp_eq_gt_iff x y).mp hcmp)

variable (hmin : ∀ m ∈ c.min, m.AtMost (row c.name)) (hmax : ∀ m ∈ c.max, m.AtLeast (row c.name))
include hmin hmax

theorem columnMatchesEquality_of_holds (h : (SkipAtom.equals v).HoldsOf R row c.name) :
    columnMatchesEquality c v = true := by
  simp only [columnMatchesEquality, Bool.and_eq_true, Option.all_eq_true, decide_eq_true_eq]
  obtain ⟨hgte, hlte⟩ := holdsOf_equals h
  exact ⟨fun m hm ord hord => (compareValue_min (hmin m hm) hlte hord).1,
    fun m hm ord hord => (compareValue_max (hmax m hm) hgte hord).1⟩

theorem columnMatchesRange_iff
    (hlow : ∀ v, r.minValue = some v → (SkipAtom.gte v).HoldsOf R row c.name ∧
      (r.minExclusive = true → (SkipAtom.gt v).HoldsOf R row c.name))
    (hhigh : ∀ v, r.maxValue = some v → (SkipAtom.lte v).HoldsOf R row c.name ∧
      (r.maxExclusive = true → (SkipAtom.lt v).HoldsOf R row c.name)) :
    columnMatchesRange c r = true ↔
      (r.minExclusive = true → ∀ v ∈ r.minValue, ∀ m ∈ c.max, ¬SameDouble v m) ∧
        (r.maxExclusive = true → ∀ v ∈ r.maxValue, ∀ m ∈ c.min, ¬SameDouble v m) := by
  simp only [columnMatchesRange, Bool.and_eq_true, Option.all_eq_true]
  refine and_congr ⟨fun h hex v hv m hm hsame => ?_, fun h v hv m hm ord hord => ?_⟩
    ⟨fun h hex v hv m hm hsame => ?_, fun h v hv m hm ord hord => ?_⟩
  · have hlt := h v hv m hm _ (compareValue_of_sameDouble hsame)
    rw [if_pos hex] at hlt
    cases of_decide_eq_true hlt
  · obtain ⟨hne, hsame⟩ := compareValue_max (hmax m hm) (hlow v hv).1 hord
    split
    · next hex =>
      have hneq : ord ≠ .eq := fun heq => h hex v hv m hm (hsame ((hlow v hv).2 hex) heq)
      cases ord
      · rfl
      · exact absurd rfl hneq
      · exact absurd rfl hne
    · exact decide_eq_true hne
  · have hgt := h v hv m hm _ (compareValue_of_sameDouble hsame)
    rw [if_pos hex] at hgt
    cases of_decide_eq_true hgt
  · obtain ⟨hne, hsame⟩ := compareValue_min (hmin m hm) (hhigh v hv).1 hord
    split
    · next hex =>
      have hneq : ord ≠ .eq := fun heq => h hex v hv m hm (hsame ((hhigh v hv).2 hex) heq)
      cases ord
      · exact absurd rfl hne
      · exact absurd rfl hneq
      · rfl
    · exact decide_eq_true hne

end Column

end Reiver.Pond
