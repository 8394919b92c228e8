import Reiver.Lib.DayNumber
import Reiver.Lib.Int64
import Reiver.Pond.Query.Literals
import Reiver.Pond.Query.WhereExpr

/-! # Date values of expressions

The model of `try_parse_date_value`, `apply_interval`, the `parse_date_*` functions and `add_months_to_date` of
`query/rewriter.rs`. What day it is now is an argument. -/

namespace Reiver.Pond

/-- A date, nothing, or an arithmetic operation without a result, which panics. -/
inductive DateValue where
  | known (d : CalendarDate)
  | unknown
  | overflow
deriving DecidableEq

namespace DateValue

def ofOption : Option CalendarDate → DateValue
  | some d => .known d
  | none => .unknown

def orOverflow : Option CalendarDate → DateValue
  | some d => .known d
  | none => .overflow

def bind (v : DateValue) (f : CalendarDate → DateValue) : DateValue :=
  match v with
  | .known d => f d
  | .unknown => .unknown
  | .overflow => .overflow

def orElse (v : DateValue) (w : DateValue) : DateValue :=
  match v with
  | .unknown => w
  | v => v

end DateValue

/-! ### Integers -/

/-- `str::parse::<i64>`. -/
def parseAsI64 (s : String) : Option Int :=
  if parsesI64 s.toList then
    let n : Int := ofDigits (dropSign s.toList)
    some (if s.toList.head? = some '-' then -n else n)
  else none

/-- `str::parse::<i32>`. -/
def parseAsI32 (s : String) : Option Int := (parseAsI64 s).filter (fun v => InInt32 v)

/-- The negation of an `i64`. -/
def negateI64 (v : Int) : Option Int := if v = int64Min then none else some (-v)

/-! ### Arithmetic -/

/-- `Duration::days`; a duration is counted in milliseconds. -/
def durationDays (days : Int) : Option Int :=
  if -(int64Max / 1000) ≤ 86400 * days ∧ 86400 * days ≤ int64Max / 1000 then some days else none

/-- `base + Duration::days(days)`. -/
def addDuration (base : CalendarDate) (days : Int) : DateValue :=
  match durationDays days with
  | some days => .orOverflow (base.plusDays days)
  | none => .overflow

/-- The day is clamped to the last one of the month. -/
def addMonthsToDate (base : CalendarDate) (months : Int) : DateValue :=
  let totalMonths := base.year * 12 + (base.month - 1) + months
  if ¬InInt64 totalMonths then .unknown
  else if totalMonths < 0 ∧ ¬InInt64 (totalMonths - 11) then .overflow
  else
    let month := (totalMonths % 12).toNat + 1
    let newYear := if 0 ≤ totalMonths then totalMonths / 12 else (totalMonths - 11).tdiv 12
    if ¬InInt32 newYear then .unknown
    else
      match [31, 30, 29, 28].findSome? fun day => CalendarDate.fromYmdOpt newYear month day with
      | some lastDay => .ofOption (CalendarDate.fromYmdOpt newYear month (min base.day lastDay.day))
      | none => .unknown

/-- The year arm of `apply_interval`. -/
def addYears (base : CalendarDate) (value : Int) : DateValue :=
  if ¬InInt32 value then .unknown
  else
    let newYear := base.year + value
    if ¬InInt32 newYear then .unknown
    else
      let day :=
        if base.month = 2 ∧ base.day = 29 then
          if (CalendarDate.fromYmdOpt newYear 2 29).isSome then 29 else 28
        else base.day
      .ofOption (CalendarDate.fromYmdOpt newYear base.month day)

def intervalText : WhereExpr → Option String
  | .value (.number n) => some n
  | .value (.singleQuotedString s) => some s
  | _ => none

def addUnits (base : CalendarDate) (value : Int) : DateTimeField → DateValue
  | .day => addDuration base value
  | .week => addDuration base (7 * value)
  | .month => addMonthsToDate base value
  | .year => addYears base value
  -- Hours, minutes and seconds make no sense for a date.
  | .other _ => .unknown

def signed (subtract : Bool) (value : Int) : Option Int := if subtract then negateI64 value else some value

def applyInterval (base : CalendarDate) (amount : WhereExpr) (leadingField : Option DateTimeField) (subtract : Bool) :
    DateValue :=
  match (intervalText amount).bind parseAsI64 with
  | none => .unknown
  | some value =>
    match signed subtract value with
    | none => .overflow
    | some value =>
      match leadingField with
      | none => .unknown
      | some unit => addUnits base value unit

def numberArg (parse : String → Option Int) : List WhereExpr → Option Int
  | [_, .value (.number n)] => parse n
  | _ => none

/-- `parse_date_add_sub` and its siblings for weeks and months, by the value of their first argument. -/
def parseDateAddSub (unit : DateTimeField) (parse : String → Option Int) (base : DateValue) (args : List WhereExpr)
    (subtract : Bool) : DateValue :=
  if args.length ≠ 2 then .unknown
  else
    base.bind fun base =>
      match numberArg parse args with
      | none => .unknown
      | some n =>
        match signed subtract n with
        | none => .overflow
        | some delta => addUnits base delta unit

/-! ### Texts -/

/-- The characters that `trim_start` drops. -/
def isWhiteSpace (c : Char) : Bool :=
  (9 ≤ c.toNat && c.toNat ≤ 13) || c.toNat ∈ [0x20, 0x85, 0xA0, 0x1680, 0x2028, 0x2029, 0x202F, 0x205F, 0x3000] ||
    (0x2000 ≤ c.toNat && c.toNat ≤ 0x200A)

/-- A number of at most `max` digits. -/
def scanNumber (max : Nat) (l : List Char) : Option (Int × List Char) :=
  let digits := (l.take max).takeWhile (·.isDigit)
  if digits = [] ∨ int64Max < ofDigits digits then none else some (ofDigits digits, l.drop digits.length)

/-- `%Y`; a sign makes room for any number of digits. -/
def scanYear (l : List Char) : Option (Int × List Char) :=
  match l.dropWhile isWhiteSpace with
  | '-' :: rest => (scanNumber rest.length rest).map fun e => (-e.1, e.2)
  | '+' :: rest => scanNumber rest.length rest
  | rest => scanNumber 4 rest

def scanSeparator (sep : Char) : List Char → Option (List Char)
  | c :: rest => if c = sep then some rest else none
  | [] => none

/-- `%m` and `%d`. -/
def scanTwoDigits (l : List Char) : Option (Int × List Char) := scanNumber 2 (l.dropWhile isWhiteSpace)

/-- `NaiveDate::parse_from_str` for year, month and day with a separator between them. -/
def parseFromStr (sep : Char) (l : List Char) : Option CalendarDate := do
  let (year, l) ← scanYear l
  let l ← scanSeparator sep l
  let (month, l) ← scanTwoDigits l
  let l ← scanSeparator sep l
  let (day, l) ← scanTwoDigits l
  if l = [] then CalendarDate.fromYmdOpt year month.toNat day.toNat else none

/-- `s.get(..n)`. -/
def getBytes : Nat → List Char → Option (List Char)
  | 0, _ => some []
  | _ + 1, [] => none
  | n + 1, c :: l => if c.utf8Size ≤ n + 1 then (getBytes (n + 1 - c.utf8Size) l).map (c :: ·) else none
termination_by n => n
decreasing_by
  have hpos := c.utf8Size_pos
  omega

def parseDateString (s : String) : Option CalendarDate :=
  parseFromStr '-' s.toList <|> parseFromStr '/' s.toList <|> (do
    let datePart ← getBytes 10 s.toList
    parseFromStr '-' datePart <|> parseFromStr '/' datePart)

/-! ### Expressions -/

/-- `extract_function_string_arg`. -/
def stringArg : List WhereExpr → Option String
  | .value (.singleQuotedString s) :: _ => some s
  | _ => none

section Values
variable (U : Unicode) (now : CalendarDate)

/-- The functions of a date, by their name in lower case, the value of their first argument and their arguments. -/
def dateFunction (funcName : String) (first : DateValue) (args : List WhereExpr) : DateValue :=
  if funcName ∈ ["today", "now", "curdate", "current_date"] then .known now
  else if funcName = "yesterday" then addDuration now (-1)
  else if funcName = "todate" then first.orElse (.ofOption ((stringArg args).bind parseDateString))
  else if funcName = "tostartofday" then first
  else if funcName = "tostartofweek" then first.bind fun d => addDuration d (-d.daysFromSunday)
  else if funcName = "tostartofmonth" then first.bind fun d => .ofOption (CalendarDate.fromYmdOpt d.year d.month 1)
  else if funcName = "tostartofyear" then first.bind fun d => .ofOption (CalendarDate.fromYmdOpt d.year 1 1)
  else if funcName = "tostartofquarter" then
    first.bind fun d => .ofOption (CalendarDate.fromYmdOpt d.year ((d.month - 1) / 3 * 3 + 1) 1)
  else if funcName = "adddays" ∨ funcName = "subdays" then
    parseDateAddSub .day parseAsI64 first args (funcName = "subdays")
  else if funcName = "addweeks" ∨ funcName = "subweeks" then
    parseDateAddSub .week parseAsI64 first args (funcName = "subweeks")
  else if funcName = "addmonths" ∨ funcName = "submonths" then
    parseDateAddSub .month parseAsI32 first args (funcName = "submonths")
  else .unknown

mutual

def tryParseDateValue : WhereExpr → DateValue
  | .value (.singleQuotedString s) => .ofOption (parseDateString s)
  | .function name args => dateFunction now (U.toLowercase (shortName name)) (firstArgDate args) args
  | .cast expr _ => tryParseDateValue expr
  | .binaryOp left op right =>
    if op = .other "-" ∨ op = .other "+" then
      (tryParseDateValue left).bind fun base =>
        match right with
        | .interval amount leadingField => applyInterval base amount leadingField (op = .other "-")
        | _ => .unknown
    else .unknown
  | _ => .unknown

def firstArgDate : List WhereExpr → DateValue
  | [] => .unknown
  | e :: _ => tryParseDateValue e

end

end Values

end Reiver.Pond
