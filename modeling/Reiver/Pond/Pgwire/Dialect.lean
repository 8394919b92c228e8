import Mathlib.Data.List.Basic

/-! # Postgres queries for ClickHouse

The model of `translate_statements_to_clickhouse` of `dialect.rs`. A syntax tree is a node with its parts, each under
the field that holds it; the nodes that no translation looks at are `other` ones, by the name of their constructor. -/

namespace Reiver.Pond.Dialect

/-! ### Syntax trees -/

inductive CastKind where
  | cast
  | tryCast
  | safeCast
  | doubleColon
deriving DecidableEq

inductive DataType where
  | integer (display : Option Nat)
  | int (display : Option Nat)
  | bigInt (display : Option Nat)
  | smallInt (display : Option Nat)
  | boolean
  | real
  | doublePrecision
  | text
  | varchar (length : Option Nat)
  | charVarying (length : Option Nat)
  | char (length : Option Nat)
  | character (length : Option Nat)
  | int16
  | int32
  | int64
  | bool
  | float32
  | float64
  | string (length : Option Nat)
  | other (text : String)
deriving DecidableEq

inductive DateTimeField where
  | epoch
  | dow
  | year
  | quarter
  | month
  | day
  | hour
  | minute
  | second
  | doy
  | week (start : Option String)
  | other (text : String)
deriving DecidableEq

inductive Value where
  | singleQuotedString (s : String)
  | number (s : String)
  | other (text : String)
deriving DecidableEq

inductive DuplicateTreatment where
  | distinct
  | all
deriving DecidableEq

inductive ArgumentsForm where
  | none
  | list
  | subquery
deriving DecidableEq

/-- A window that is written out, on top of another one or not, or one that is named. -/
inductive Over where
  | spec (windowName : Option String) (frameUnits : Option String)
  | named (window : String)
deriving DecidableEq

/-- A call but for the expressions in it; the name is as it is printed. -/
structure FunctionHead where
  name : String
  args : ArgumentsForm := .list
  duplicateTreatment : Option DuplicateTreatment := none
  nullTreatment : Option String := none
  overClause : Option Over := none
deriving DecidableEq

inductive Kind where
  | value (v : Value)
  | cast (kind : CastKind) (dataType : DataType) (format : Option String)
  | extract (field : DateTimeField)
  | function (f : FunctionHead)
  | binaryOp (op : String)
  | unaryOp (op : String)
  | other (name : String)
deriving DecidableEq

structure OrderOptions where
  asc : Option Bool := none
  nullsFirst : Option Bool := none
deriving DecidableEq

/-- The fields that hold expressions, queries and tables. -/
inductive Slot where
  -- Query
  | body
  | cteQuery
  | orderBy (options : OrderOptions)
  | orderByFill
  | interpolate
  | limit
  | limitBy
  | offset
  | fetch
  -- SetExpr and Select
  | setQuery
  | setLeft
  | setRight
  | valuesCell
  | distinctOn
  | top
  | projection
  | wildcardReplace
  | fromRelation
  | joinRelation
  | joinConstraint
  | asOfMatch
  | lateralView
  | prewhere
  | selection
  | groupBy
  | clusterBy
  | distributeBy
  | sortBy
  | having
  | namedWindow
  | qualify
  | connectBy
  -- TableFactor
  | tableArg
  | tableVersion
  | tableHint
  | derivedSubquery
  | tableFunctionExpr
  | tableFunctionArg
  | unnestArray
  | jsonTableExpr
  | nestedRelation
  | nestedJoinRelation
  | nestedJoinConstraint
  | pivotTable
  | pivotAggregate
  | pivotValue
  | pivotDefault
  | unpivotTable
  | matchTable
  | matchPartitionBy
  | matchOrderBy
  | matchMeasure
  | matchSymbol
  -- Expr
  | left
  | right
  | operand
  | nested
  | isTest
  | distinctFromLeft
  | distinctFromRight
  | inExpr
  | inListItem
  | inSubquery
  | inUnnestArray
  | betweenExpr
  | betweenLow
  | betweenHigh
  | caseOperand
  | caseCondition
  | caseResult
  | caseElse
  | castExpr
  | subquery
  | extractExpr
  | likeExpr
  | likePattern
  | anyLeft
  | anyRight
  | convertExpr
  | convertStyle
  | timestamp
  | timeZone
  | ceilFloor
  | positionExpr
  | positionIn
  | substringExpr
  | substringFrom
  | substringFor
  | trimExpr
  | trimWhat
  | trimCharacters
  | overlayExpr
  | overlayWhat
  | overlayFrom
  | overlayFor
  | collate
  | existsSubquery
  | arrayElem
  | tupleItem
  | structValue
  | named
  | groupingSetItem
  | subscriptExpr
  | subscriptIndex
  | subscriptLower
  | subscriptUpper
  | subscriptStride
  | mapColumn
  | mapAccessKey
  | jsonValue
  | jsonBracket
  | compositeExpr
  | interval
  | dictionaryValue
  | mapEntryKey
  | mapEntryValue
  | outerJoin
  | prior
  | lambdaBody
  -- Function
  | argument
  | namedArgument (name operator : String)
  | wildcardArgument
  | argsSubquery
  | clauseOrderBy (options : OrderOptions)
  | clauseLimit
  | clauseHaving (bound : String)
  | clauseOnOverflow
  | parameter
  | filter
  | overPartitionBy
  | overOrderBy (options : OrderOptions)
  | overFrame
  | withinGroup (options : OrderOptions)
deriving DecidableEq

inductive Node where
  | mk (kind : Kind) (children : List (Slot × Node))

abbrev Children := List (Slot × Node)

/-! ### The walk -/

/-- The fields that `rewrite_query`, `rewrite_set_expr`, `rewrite_table_factor`, `rewrite_expr` and
`rewrite_function_args` go into. -/
def Slot.walked : Slot → Bool
  -- rewrite_query
  | .body | .cteQuery | .orderBy _ => true
  -- rewrite_set_expr
  | .projection | .fromRelation | .joinRelation | .selection | .groupBy | .having => true
  | .setQuery | .setLeft | .setRight | .valuesCell => true
  -- rewrite_table_factor
  | .tableHint | .derivedSubquery | .tableFunctionExpr | .tableFunctionArg | .unnestArray | .jsonTableExpr => true
  | .nestedRelation | .nestedJoinRelation | .pivotTable | .pivotAggregate | .pivotDefault | .unpivotTable => true
  | .matchTable | .matchPartitionBy | .matchMeasure | .matchSymbol => true
  -- rewrite_expr
  | .left | .right | .operand | .nested | .isTest | .distinctFromLeft | .distinctFromRight => true
  | .inExpr | .inListItem | .inSubquery | .inUnnestArray | .betweenExpr | .betweenLow | .betweenHigh => true
  | .caseOperand | .caseCondition | .caseResult | .caseElse | .castExpr | .subquery | .extractExpr => true
  | .likeExpr | .likePattern | .anyLeft | .anyRight | .convertExpr | .convertStyle | .timestamp | .timeZone => true
  | .ceilFloor | .positionExpr | .positionIn | .substringExpr | .substringFrom | .substringFor => true
  | .trimExpr | .trimWhat | .trimCharacters | .overlayExpr | .overlayWhat | .overlayFrom | .overlayFor => true
  | .collate | .existsSubquery | .arrayElem | .tupleItem | .structValue | .named | .groupingSetItem => true
  | .subscriptExpr | .subscriptIndex | .subscriptLower | .subscriptUpper | .subscriptStride => true
  | .mapColumn | .mapAccessKey | .jsonValue | .jsonBracket | .compositeExpr | .interval | .dictionaryValue => true
  | .mapEntryKey | .mapEntryValue | .outerJoin | .prior | .lambdaBody => true
  | .filter | .overPartitionBy | .overOrderBy _ | .withinGroup _ => true
  -- rewrite_function_args
  | .argument | .namedArgument .. | .argsSubquery | .clauseOrderBy _ | .clauseLimit | .clauseHaving _ => true
  | _ => false

/-! ### Types -/

def translateDataType : DataType → DataType
  | .integer _ | .int _ => .int32
  | .bigInt _ => .int64
  | .smallInt _ => .int16
  | .boolean => .bool
  | .real => .float32
  | .doublePrecision => .float64
  | .text | .varchar _ | .charVarying _ | .char _ | .character _ => .string none
  | dt => dt

/-! ### Calls -/

def positional (children : Children) : List Node :=
  children.filterMap fun e => if e.1 = .argument then some e.2 else none

def Slot.special : Slot → Bool
  | .namedArgument .. | .wildcardArgument => true
  | _ => false

def extractFunctionArgs (f : FunctionHead) (children : Children) : Option (List Node) :=
  if f.args = .list ∧ children.all (fun e => !e.1.special) then some (positional children) else none

def makeFunctionCall (name : String) (args : List Node) : Node :=
  .mk (.function { name }) (args.map fun a => (.argument, a))

def makeFunctionCallPreserving (name : String) (f : FunctionHead) (children : Children) : Node :=
  .mk (.function { f with name }) (children.filter fun e => e.1 ≠ .parameter)

def Node.kind : Node → Kind
  | .mk kind _ => kind

def Node.children : Node → Children
  | .mk _ children => children

def literal (v : Value) : Node := .mk (.value v) []

def binaryOp (left : Node) (op : String) (right : Node) : Node := .mk (.binaryOp op) [(.left, left), (.right, right)]

/-- `to_ascii_lowercase` -/
def toAsciiLowercase (s : String) : String := String.ofList (s.toList.map Char.toLower)

def quoted (n : Node) : Option String :=
  match n.kind with
  | .value (.singleQuotedString s) => some s
  | _ => none

def epochCall (inner : Node) : Node :=
  binaryOp (makeFunctionCall "toUnixTimestamp64Micro" [inner]) "/" (literal (.number "1000000.0"))

def dayOfWeekCall (inner : Node) : Node :=
  binaryOp (makeFunctionCall "toDayOfWeek" [inner]) "%" (literal (.number "7"))

def translateExtract (field : DateTimeField) (inner : Node) : Option Node :=
  match field with
  | .epoch => some (epochCall inner)
  | .dow => some (dayOfWeekCall inner)
  | .year => some (makeFunctionCall "toYear" [inner])
  | .quarter => some (makeFunctionCall "toQuarter" [inner])
  | .month => some (makeFunctionCall "toMonth" [inner])
  | .day => some (makeFunctionCall "toDayOfMonth" [inner])
  | .hour => some (makeFunctionCall "toHour" [inner])
  | .minute => some (makeFunctionCall "toMinute" [inner])
  | .second => some (makeFunctionCall "toSecond" [inner])
  | .doy => some (makeFunctionCall "toDayOfYear" [inner])
  | .week _ => some (makeFunctionCall "toISOWeek" [inner])
  | .other _ => none

/-- The field that `date_part` names, where it is one of those translated. -/
def datePartField (name : String) : Option DateTimeField :=
  match name with
  | "epoch" => some .epoch
  | "dow" | "dayofweek" => some .dow
  | "year" => some .year
  | "quarter" => some .quarter
  | "month" => some .month
  | "day" => some .day
  | "hour" => some .hour
  | "minute" => some .minute
  | "second" => some .second
  | "doy" | "dayofyear" => some .doy
  | "week" => some (.week none)
  | _ => none

def startOf (interval : String) : Option String :=
  match interval with
  | "second" => some "toStartOfSecond"
  | "minute" => some "toStartOfMinute"
  | "hour" => some "toStartOfHour"
  | "day" => some "toStartOfDay"
  | "week" => some "toStartOfWeek"
  | "month" => some "toStartOfMonth"
  | "quarter" => some "toStartOfQuarter"
  | "year" => some "toStartOfYear"
  | _ => none

/-! ### Formats of times -/

def formatReplacements : List (String × String) :=
  [("YYYY", "%Y"), ("HH24", "%H"), ("HH12", "%I"), ("MONTH", "%B"), ("Month", "%B"), ("month", "%B"), ("MON", "%b"),
    ("Mon", "%b"), ("mon", "%b"), ("DAY", "%A"), ("Day", "%A"), ("day", "%A"), ("DY", "%a"), ("Dy", "%a"), ("dy", "%a"),
    ("YY", "%y"), ("MM", "%m"), ("DD", "%d"), ("HH", "%H"), ("MI", "%M"), ("SS", "%S"), ("MS", "%i"), ("AM", "%p"),
    ("PM", "%p"), ("TZ", "%Z")]

/-- The longest token that the text starts with, of several the last one. -/
def longestToken (remaining : List Char) : Option (String × String) :=
  (formatReplacements.filter fun e => e.1.toList.isPrefixOf remaining).foldl
    (fun best e => if (best.map (·.1.length)).getD 0 ≤ e.1.length then some e else best) none

/-- The format from a position on; a token takes at least one character. -/
def translateFormatFrom : Nat → List Char → List Char
  | 0, _ | _, [] => []
  | fuel + 1, c :: rest =>
    match longestToken (c :: rest) with
    | some (pg, ch) => ch.toList ++ translateFormatFrom fuel ((c :: rest).drop pg.length)
    | none => c :: translateFormatFrom fuel rest

def translatePgFormatToClickhouse (format : String) : String :=
  String.ofList (translateFormatFrom format.length format.toList)

/-! ### Translations -/

inductive Translator where
  | dateTrunc
  | stringAgg
  | datePart
  | toChar
  | simpleRename (newName : String)
  | regexpReplace
  | left
  | right
  /-- Only the name of the call changes. -/
  | native (newName : String)
deriving DecidableEq

def translatorOf (name : String) : Option Translator :=
  match toAsciiLowercase name with
  | "date_trunc" => some .dateTrunc
  | "string_agg" => some .stringAgg
  | "date_part" => some .datePart
  | "to_char" => some .toChar
  | "array_agg" => some (.simpleRename "groupArray")
  | "bool_or" => some (.simpleRename "max")
  | "bool_and" => some (.simpleRename "min")
  | "regexp_replace" => some .regexpReplace
  | "left" => some .left
  | "right" => some .right
  | "char_length" | "character_length" => some (.simpleRename "lengthUTF8")
  | "current_timestamp" | "current_time" | "localtimestamp" | "localtime" => some (.native "now")
  | "current_date" => some (.native "today")
  | _ => none

def Slot.isClauseOrderBy : Slot → Bool
  | .clauseOrderBy _ => true
  | _ => false

def translateStringAgg (f : FunctionHead) (children : Children) (column separator : Node) : Node :=
  let groupArray := makeFunctionCall "groupArray" [column]
  let deduped :=
    if f.duplicateTreatment = some .distinct then makeFunctionCall "arrayDistinct" [groupArray] else groupArray
  let ordered := if children.any (·.1.isClauseOrderBy) then makeFunctionCall "arraySort" [deduped] else deduped
  makeFunctionCall "arrayStringConcat" [ordered, separator]

/-- What a call with positional arguments becomes. -/
def translateArgs (f : FunctionHead) (children : Children) : Translator → List Node → Option Node
  | .dateTrunc, interval :: column :: _ => do
    let name ← startOf (toAsciiLowercase (← quoted interval))
    return makeFunctionCall name [column]
  | .stringAgg, column :: separator :: _ => some (translateStringAgg f children column separator)
  | .datePart, field :: column :: _ => do
    let field ← datePartField (toAsciiLowercase (← quoted field))
    translateExtract field column
  | .toChar, datetime :: format :: _ => do
    let format ← quoted format
    return makeFunctionCall "formatDateTime"
      [datetime, literal (.singleQuotedString (translatePgFormatToClickhouse format))]
  | .simpleRename newName, _ => some (makeFunctionCallPreserving newName f children)
  | .regexpReplace, text :: pattern :: replacement :: rest =>
    let useAll := (rest.head?.bind quoted).any (·.contains 'g')
    some (makeFunctionCall (if useAll then "replaceRegexpAll" else "replaceRegexpOne") [text, pattern, replacement])
  | .left, text :: n :: _ => some (makeFunctionCall "substring" [text, literal (.number "1"), n])
  | .right, text :: n :: _ => some (makeFunctionCall "substring" [text, .mk (.unaryOp "-") [(.operand, n)]])
  | _, _ => none

def translateFunction (f : FunctionHead) (children : Children) : Option Node :=
  match translatorOf f.name with
  | none => none
  | some (.native newName) => some (.mk (.function { f with name := newName }) children)
  | some translator => do translateArgs f children translator (← extractFunctionArgs f children)

def replacement (kind : Kind) (children : Children) : Option Node :=
  match kind with
  | .cast .doubleColon dataType format => some (.mk (.cast .cast (translateDataType dataType) format) children)
  | .extract field => (children.find? (·.1 = .extractExpr)).bind fun e => translateExtract field e.2
  | .function f => translateFunction f children
  | _ => none

def translateNode (kind : Kind) (children : Children) : Node :=
  match kind with
  | .cast kind dataType format =>
    .mk (.cast (if kind = .doubleColon then .cast else kind) (translateDataType dataType) format) children
  | _ => (replacement kind children).getD (.mk kind children)

mutual

def rewrite : Node → Node
  | .mk kind children => translateNode kind (rewriteChildren children)

def rewriteChildren : List (Slot × Node) → List (Slot × Node)
  | [] => []
  | e :: rest => rewriteChild e :: rewriteChildren rest

def rewriteChild : Slot × Node → Slot × Node
  | (slot, n) => (slot, if slot.walked then rewrite n else n)

end

end Reiver.Pond.Dialect
