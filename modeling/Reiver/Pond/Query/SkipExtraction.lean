import Reiver.Pond.Query.WhereExpr

/-! # Skip predicates of a condition

The model of `extract_predicates_from_expr` of `query/rewriter.rs` and of the `add_*` operations of `SkipPredicates` in
`indexes/skip_index.rs`. What is read off one part of a condition is a list of atoms for its column; an atom is added by
the operation of its kind. -/

namespace Reiver.Pond

/-! ### Adding predicates -/

namespace RangePredicate

def gte (min : String) : RangePredicate := ⟨some min, none, false, false⟩

def gt (min : String) : RangePredicate := ⟨some min, none, true, false⟩

def lte (max : String) : RangePredicate := ⟨none, some max, false, false⟩

def lt (max : String) : RangePredicate := ⟨none, some max, false, true⟩

/-- The lower bound is replaced by a tighter one. -/
def tightenMin (r : RangePredicate) (newVal : String) (newExclusive : Bool) : RangePredicate :=
  let dominated : Bool :=
    match r.minValue with
    | none => true
    | some existing => existing < newVal || (newVal = existing && newExclusive && !r.minExclusive)
  if dominated then { r with minValue := some newVal, minExclusive := newExclusive } else r

/-- The upper bound is replaced by a tighter one. -/
def tightenMax (r : RangePredicate) (newVal : String) (newExclusive : Bool) : RangePredicate :=
  let dominated : Bool :=
    match r.maxValue with
    | none => true
    | some existing => newVal < existing || (newVal = existing && newExclusive && !r.maxExclusive)
  if dominated then { r with maxValue := some newVal, maxExclusive := newExclusive } else r

end RangePredicate

namespace SkipPredicates

def addEquals (p : SkipPredicates) (column value : String) : SkipPredicates :=
  match p.equality.lookup column with
  | some existing => if existing ≠ value then { p with contradicted := true } else p
  | none =>
    match p.inLists.lookup column with
    | some inList =>
      if value ∉ inList then { p with contradicted := true }
      else { p with equality := p.equality.insert column value }
    | none => { p with equality := p.equality.insert column value }

def addPrefix (p : SkipPredicates) (column pfx : String) : SkipPredicates :=
  match p.prefixes.lookup column with
  | some existing =>
    if existing.toList <+: pfx.toList then { p with prefixes := p.prefixes.insert column pfx }
    else if ¬pfx.toList <+: existing.toList then { p with contradicted := true }
    else p
  | none => { p with prefixes := p.prefixes.insert column pfx }

def addIn (p : SkipPredicates) (column : String) (values : List String) : SkipPredicates :=
  if values = [] then { p with contradicted := true }
  else if ((p.equality.lookup column).any (· ∉ values)) then { p with contradicted := true }
  else
    match p.inLists.lookup column with
    | some existing =>
      let kept := existing.filter (· ∈ values)
      { p with inLists := p.inLists.insert column kept, contradicted := p.contradicted || kept.isEmpty }
    | none => { p with inLists := p.inLists.insert column values }

def modifyRange (p : SkipPredicates) (column : String) (modify : RangePredicate → RangePredicate)
    (new : RangePredicate) : SkipPredicates :=
  { p with
    ranges := p.ranges.insert column
      (match p.ranges.lookup column with
      | some r => modify r
      | none => new) }

def addGte (p : SkipPredicates) (column value : String) : SkipPredicates :=
  p.modifyRange column (·.tightenMin value false) (.gte value)

def addGt (p : SkipPredicates) (column value : String) : SkipPredicates :=
  p.modifyRange column (·.tightenMin value true) (.gt value)

def addLte (p : SkipPredicates) (column value : String) : SkipPredicates :=
  p.modifyRange column (·.tightenMax value false) (.lte value)

def addLt (p : SkipPredicates) (column value : String) : SkipPredicates :=
  p.modifyRange column (·.tightenMax value true) (.lt value)

def addRange (p : SkipPredicates) (column min max : String) : SkipPredicates := (p.addGte column min).addLte column max

def addSubstring (p : SkipPredicates) (column substring : String) : SkipPredicates :=
  { p with substring := p.substring.insert column ((p.substring.lookup column).getD [] ++ [substring]) }

end SkipPredicates

/-- What one part of a condition says of its column. -/
inductive SkipAtom where
  | equals (value : String)
  | startsWith (pfx : String)
  | oneOf (values : List String)
  | gte (value : String)
  | gt (value : String)
  | lte (value : String)
  | lt (value : String)
  | contains (substring : String)
  | token (tok : String)
deriving DecidableEq

def SkipAtom.addTo (column : String) (p : SkipPredicates) : SkipAtom → SkipPredicates
  | .equals value => p.addEquals column value
  | .startsWith pfx => p.addPrefix column pfx
  | .oneOf values => p.addIn column values
  | .gte value => p.addGte column value
  | .gt value => p.addGt column value
  | .lte value => p.addLte column value
  | .lt value => p.addLt column value
  | .contains substring => p.addSubstring column substring
  | .token tok => p.addToken column tok

/-! ### Reading one part -/

/-- `trim_end_matches('%')`. -/
def trimPercents (s : String) : String := String.ofList (s.toList.reverse.dropWhile (· = '%')).reverse

def hasWildcard (s : String) : Bool := '%' ∈ s.toList || '_' ∈ s.toList

/-- A percent sign at both ends asks for a substring, one at the end only for a prefix. -/
def likeAtoms (pattern : String) : List SkipAtom :=
  let starts : Bool := pattern.toList.head? = some '%'
  let ends : Bool := pattern.toList.getLast? = some '%'
  if starts ∧ ends ∧ 2 < pattern.utf8ByteSize then
    let substring := String.ofList pattern.toList.tail.dropLast
    if hasWildcard substring then [] else [.contains substring]
  else if ends ∧ ¬starts then
    let pfx := trimPercents pattern
    if hasWildcard pfx then [] else [.startsWith pfx]
  else []

/-- Members that are no literals are dropped. -/
def inAtoms (list : List WhereExpr) : List SkipAtom :=
  let values := list.filterMap WhereExpr.stringValue
  if values = [] then [] else [.oneOf values]

def betweenAtoms (low high : WhereExpr) : List SkipAtom :=
  match low.stringValue, high.stringValue with
  | some low, some high => [.gte low, .lte high]
  | _, _ => []

abbrev SkipReading := (Option String × String) × List SkipAtom

/-- A column on the left, or else one on the right. -/
def comparisonReading (left right : WhereExpr) (onLeft onRight : String → SkipAtom) : Option SkipReading :=
  match left.columnNameForSkip with
  | some col => some (col, (right.stringValue.map onLeft).toList)
  | none => right.columnNameForSkip.map fun col => (col, (left.stringValue.map onRight).toList)

/-- The arms of the match but for AND and nested expressions. -/
def skipReading (U : Unicode) (P : SqlParser) : WhereExpr → Option SkipReading
  | .binaryOp left op right =>
    match op with
    | .eq => comparisonReading left right .equals .equals
    | .gt => comparisonReading left right .gt .lt
    | .gtEq => comparisonReading left right .gte .lte
    | .lt => comparisonReading left right .lt .gt
    | .ltEq => comparisonReading left right .lte .gte
    -- A row might match the other branch of an OR.
    | _ => none
  | .like negated expr pattern =>
    if negated then none
    else expr.columnNameForSkip.map fun col => (col, (pattern.stringValue.map likeAtoms).getD [])
  | .inList expr list negated =>
    if negated then none else expr.columnNameForSkip.map fun col => (col, inAtoms list)
  | .between expr negated low high =>
    if negated then none else expr.columnNameForSkip.map fun col => (col, betweenAtoms low high)
  | .function name args =>
    (extractHasToken U P (WhereExpr.function name args).toAst).map fun read => (read.1, [.token read.2])
  | _ => none

/-! ### Extraction -/

/-- How the columns have been qualified so far. -/
structure ColumnQualifiers where
  columnQualifiers : Dict String (Option String) := ∅
  conflicted : Finset String := ∅

/-- `is_skip_column_conflicted`: its answer, and what is remembered. -/
def ColumnQualifiers.isConflicted (q : ColumnQualifiers) (bareCol : String) (qualifier : Option String) :
    Bool × ColumnQualifiers :=
  if bareCol ∈ q.conflicted then (true, q)
  else
    match q.columnQualifiers.lookup bareCol with
    | some prevQualifier =>
      if prevQualifier ≠ qualifier then (true, { q with conflicted := insert bareCol q.conflicted }) else (false, q)
    | none => (false, { q with columnQualifiers := q.columnQualifiers.insert bareCol qualifier })

structure SkipExtraction where
  predicates : SkipPredicates := {}
  qualifiers : ColumnQualifiers := {}

/-- Nothing is added for a column that is qualified in two ways. -/
def SkipExtraction.record (x : SkipExtraction) (reading : SkipReading) : SkipExtraction :=
  let check := x.qualifiers.isConflicted reading.1.2 reading.1.1
  { predicates := if check.1 then x.predicates else reading.2.foldl (SkipAtom.addTo reading.1.2) x.predicates
    qualifiers := check.2 }

def extractPredicatesFromExpr (U : Unicode) (P : SqlParser) : WhereExpr → SkipExtraction → SkipExtraction
  | .binaryOp left .and right, x => extractPredicatesFromExpr U P right (extractPredicatesFromExpr U P left x)
  | .nested inner, x => extractPredicatesFromExpr U P inner x
  | e, x =>
    match skipReading U P e with
    | some reading => x.record reading
    | none => x

/-! ### What is taken over -/

section Taken
variable (U : Unicode) (P : SqlParser)

def SkipExtraction.readPart (x : SkipExtraction) (e : WhereExpr) : SkipExtraction :=
  match skipReading U P e with
  | some reading => x.record reading
  | none => x

/-- The parts whose reading is added, in order. -/
def takenParts (q : ColumnQualifiers) : List WhereExpr → List (WhereExpr × SkipReading)
  | [] => []
  | e :: rest =>
    match skipReading U P e with
    | none => takenParts q rest
    | some reading =>
      let check := q.isConflicted reading.1.2 reading.1.1
      if check.1 then takenParts check.2 rest else (e, reading) :: takenParts check.2 rest

theorem extractPredicatesFromExpr_eq (e : WhereExpr) (x : SkipExtraction) :
    extractPredicatesFromExpr U P e x = e.conjuncts.foldl (SkipExtraction.readPart U P) x := by
  induction e, x using extractPredicatesFromExpr.induct U P with
  | case1 x left right ihleft ihright =>
    rw [extractPredicatesFromExpr, WhereExpr.conjuncts, List.foldl_append, ← ihleft, ← ihright]
  | case2 x inner ih => rw [extractPredicatesFromExpr, WhereExpr.conjuncts, ih]
  | case3 e x hand hnested reading hread =>
    have hleaf : e.conjuncts = [e] := by rw [WhereExpr.conjuncts] <;> assumption
    rw [extractPredicatesFromExpr, hread, hleaf, List.foldl_cons, List.foldl_nil, SkipExtraction.readPart, hread]
    · exact hand
    · exact hnested
  | case4 e x hand hnested hread =>
    have hleaf : e.conjuncts = [e] := by rw [WhereExpr.conjuncts] <;> assumption
    rw [extractPredicatesFromExpr, hread, hleaf, List.foldl_cons, List.foldl_nil, SkipExtraction.readPart, hread]
    · exact hand
    · exact hnested

theorem takenParts_subset {q : ColumnQualifiers} {l : List WhereExpr} {part : WhereExpr × SkipReading}
    (h : part ∈ takenParts U P q l) : part.1 ∈ l ∧ skipReading U P part.1 = some part.2 := by
  induction l generalizing q with
  | nil => cases h
  | cons e rest ih =>
    rw [takenParts] at h
    cases hread : skipReading U P e with
    | none =>
      rw [hread] at h
      exact ⟨List.mem_cons_of_mem _ (ih h).1, (ih h).2⟩
    | some reading =>
      rw [hread] at h
      dsimp only at h
      split_ifs at h
      · exact ⟨List.mem_cons_of_mem _ (ih h).1, (ih h).2⟩
      · rcases List.mem_cons.mp h with rfl | h
        · exact ⟨List.mem_cons_self, hread⟩
        · exact ⟨List.mem_cons_of_mem _ (ih h).1, (ih h).2⟩

end Taken

end Reiver.Pond
