import Reiver.Pond.Query.DateRange
import Reiver.Pond.Query.DateValues
import Reiver.Pond.Query.SkipExtraction

/-! # Date ranges of a condition

The model of `extract_date_predicates_from_expr`, `extract_column_name_qualified`, `is_date_column_conflicted` and
`update_date_range` of `query/rewriter.rs`. What one part of a condition says of its column is a list of bounds. -/

namespace Reiver.Pond

namespace WhereExpr

mutual

/-- Casts and functions of one argument are peeled off. -/
def columnNameQualified : WhereExpr → Option (Option String × String)
  | .identifier ident => some (none, ident.value)
  | .compoundIdentifier idents =>
    match idents.reverse with
    | column :: qualifier :: _ => some (some qualifier.value, column.value)
    | [column] => some (none, column.value)
    | [] => none
  | .cast expr _ => expr.columnNameQualified
  | .function _ args => onlyArgColumn args
  | _ => none

def onlyArgColumn : List WhereExpr → Option (Option String × String)
  | [e] => e.columnNameQualified
  | _ => none

end

end WhereExpr

/-! ### Ranges -/

inductive DateBound where
  | lower (d : CalendarDate)
  | upper (d : CalendarDate)
deriving DecidableEq

def DateRange.tighten (r : DateRange) : DateBound → DateRange
  | .lower d => { r with start := some (r.start.elim d (max · d)) }
  | .upper d => { r with stop := some (r.stop.elim d (min · d)) }

/-- The bounds of an operator. The date itself stays in the range, for a time of the day may come after it. -/
def operatorBounds (op : BinaryOperator) (date : CalendarDate) : List DateBound :=
  match op with
  | .eq => [.lower date, .upper date]
  | .gt | .gtEq => [.lower date]
  | .lt | .ltEq => [.upper date]
  | _ => []

def updateDateRange (ranges : Dict String DateRange) (colName : String) (bounds : List DateBound) :
    Dict String DateRange :=
  ranges.insert colName (bounds.foldl DateRange.tighten ((ranges.lookup colName).getD ⟨none, none⟩))

def reversedOp : BinaryOperator → BinaryOperator
  | .lt => .gt
  | .ltEq => .gtEq
  | .gt => .lt
  | .gtEq => .ltEq
  | op => op

/-- What is read of a column: bounds, nothing, or a panic. -/
inductive BoundsRead where
  | bounds (l : List DateBound)
  | nothing
  | overflow

def DateValue.toRead (v : DateValue) (bounds : CalendarDate → List DateBound) : BoundsRead :=
  match v with
  | .known d => .bounds (bounds d)
  | .unknown => .nothing
  | .overflow => .overflow

abbrev DateReading := (Option String × String) × BoundsRead

section Reading
variable (U : Unicode) (now : CalendarDate)

def comparisonBounds (left : WhereExpr) (op : BinaryOperator) (right : WhereExpr) : Option DateReading :=
  match left.columnNameQualified with
  | some col => some (col, (tryParseDateValue U now right).toRead (operatorBounds op))
  | none =>
    right.columnNameQualified.map fun col =>
      (col, (tryParseDateValue U now left).toRead (operatorBounds (reversedOp op)))

def betweenBounds (low high : WhereExpr) : BoundsRead :=
  match tryParseDateValue U now low, tryParseDateValue U now high with
  | .overflow, _ => .overflow
  | _, .overflow => .overflow
  | .known start, .known stop => .bounds [.lower start, .upper stop]
  | _, _ => .nothing

def dateReading : WhereExpr → Option DateReading
  | .binaryOp left op right => comparisonBounds U now left op right
  | .between expr negated low high =>
    if negated then none else expr.columnNameQualified.map fun col => (col, betweenBounds U now low high)
  | _ => none

end Reading

/-! ### Extraction -/

structure DateExtraction where
  ranges : Dict String DateRange := ∅
  qualifiers : ColumnQualifiers := {}

namespace DateExtraction

/-- `is_date_column_conflicted`: a column that is qualified in two ways loses its range. -/
def isConflicted (x : DateExtraction) (bareCol : String) (qualifier : Option String) : Bool × DateExtraction :=
  if bareCol ∈ x.qualifiers.conflicted then (true, x)
  else
    match x.qualifiers.columnQualifiers.lookup bareCol with
    | some prevQualifier =>
      if prevQualifier ≠ qualifier then
        (true,
          { ranges := x.ranges.erase bareCol
            qualifiers := { x.qualifiers with conflicted := insert bareCol x.qualifiers.conflicted } })
      else (false, x)
    | none =>
      (false,
        { x with
          qualifiers := { x.qualifiers with
            columnQualifiers := x.qualifiers.columnQualifiers.insert bareCol qualifier } })

/-- `none` is a panic. The value of a column in conflict is not looked at. -/
def record (x : DateExtraction) (reading : DateReading) : Option DateExtraction :=
  let check := x.isConflicted reading.1.2 reading.1.1
  if check.1 then some check.2
  else
    match reading.2 with
    | .bounds l => some { check.2 with ranges := updateDateRange check.2.ranges reading.1.2 l }
    | .nothing => some check.2
    | .overflow => none

def readPart (U : Unicode) (now : CalendarDate) (x : DateExtraction) (e : WhereExpr) : Option DateExtraction :=
  match dateReading U now e with
  | some reading => x.record reading
  | none => some x

end DateExtraction

/-- A conjunction is looked at like a comparison, and then for its sides. A row might match the other branch of an
    OR. -/
def extractDatePredicates (U : Unicode) (now : CalendarDate) : WhereExpr → DateExtraction → Option DateExtraction
  | .binaryOp left .and right, x => do
    let x ← x.readPart U now (.binaryOp left .and right)
    let x ← extractDatePredicates U now left x
    extractDatePredicates U now right x
  | .nested inner, x => extractDatePredicates U now inner x
  | e, x => x.readPart U now e

/-- The parts of a condition in the order in which they are looked at. -/
def WhereExpr.dateParts : WhereExpr → List WhereExpr
  | .binaryOp left .and right => .binaryOp left .and right :: (left.dateParts ++ right.dateParts)
  | .nested inner => inner.dateParts
  | e => [e]

theorem extractDatePredicates_eq (U : Unicode) (now : CalendarDate) (e : WhereExpr) (x : DateExtraction) :
    extractDatePredicates U now e x = e.dateParts.foldlM (DateExtraction.readPart U now) x := by
  induction e using WhereExpr.dateParts.induct generalizing x with
  | case1 left right ihleft ihright =>
    rw [extractDatePredicates, WhereExpr.dateParts, List.foldlM_cons]
    refine congrArg _ (funext fun y => ?_)
    rw [List.foldlM_append, ihleft]
    exact congrArg _ (funext fun z => ihright z)
  | case2 inner ih => rw [extractDatePredicates, WhereExpr.dateParts, ih]
  | case3 e hand hnested =>
    have hparts : e.dateParts = [e] := by rw [WhereExpr.dateParts] <;> assumption
    rw [extractDatePredicates, hparts, List.foldlM_cons]
    · cases x.readPart U now e <;> rfl
    · exact hand
    · exact hnested

end Reiver.Pond
