import Reiver.Lib.LikePattern
import Reiver.Pond.Query.Literals

/-! # Predicates of a WHERE clause

The model of `expr_to_predicates` of `query/predicate_pushdown.rs` and of the two forms that a predicate is sent in:
`predicate_to_display_sql` and `predicate_to_expr`. -/

namespace Reiver.Pond

/-- The conditions that are looked into. The other parts of a query are an `other`, with its text. -/
inductive FilterExpr where
  | identifier (ident : Ident)
  | compoundIdentifier (idents : List Ident)
  | value (v : SqlValue)
  | binaryOp (left : FilterExpr) (op : BinaryOperator) (right : FilterExpr)
  | not (expr : FilterExpr)
  | nested (expr : FilterExpr)
  | between (expr : FilterExpr) (negated : Bool) (low high : FilterExpr)
  | like (negated : Bool) (expr pattern : FilterExpr) (escapeChar : Option Char)
  | inList (expr : FilterExpr) (list : List FilterExpr) (negated : Bool)
  | isNull (expr : FilterExpr)
  | isNotNull (expr : FilterExpr)
  | cast (expr : FilterExpr) (dataType : String)
  | other (text : String)

inductive QueryPredicate where
  | equals (column value : String)
  | isIn (column : String) (values : List String)
  | greaterThan (column value : String) (inclusive : Bool)
  | lessThan (column value : String) (inclusive : Bool)
  | between (column low high : String)
  | like (column pattern : String)
  | contains (column substring : String)
  | isNull (column : String) (isNull : Bool)
  | and (preds : List QueryPredicate)
  | or (preds : List QueryPredicate)
  | not (pred : QueryPredicate)

/-! ### Extraction -/

def extractColumnName : FilterExpr → Option String
  | .identifier ident => some ident.value
  | .compoundIdentifier idents => idents.getLast?.map (·.value)
  | .cast expr _ => extractColumnName expr
  | _ => none

def extractLiteralValue : FilterExpr → Option String
  | .value (.singleQuotedString s) => some s
  | .value (.doubleQuotedString s) => some s
  | .value (.number n) => some n
  | .value (.boolean b) => some (toString b)
  | _ => none

def columnLiteral (column literal : FilterExpr) : Option (String × String) :=
  (extractColumnName column).bind fun col => (extractLiteralValue literal).map fun val => (col, val)

def tryBinaryPredicate (left right : FilterExpr) (build : String → String → QueryPredicate) : Option QueryPredicate :=
  ((columnLiteral left right).or (columnLiteral right left)).map fun r => build r.1 r.2

/-- With the literal on the left the comparison is turned round. -/
def tryComparison (left right : FilterExpr) (inclusive isLt : Bool) : Option QueryPredicate :=
  ((columnLiteral left right).map fun r =>
    if isLt then .lessThan r.1 r.2 inclusive else .greaterThan r.1 r.2 inclusive).or
    ((columnLiteral right left).map fun r =>
      if isLt then .greaterThan r.1 r.2 inclusive else .lessThan r.1 r.2 inclusive)

/-- A pattern with percent signs only at its two ends asks for a substring. -/
def likePredicate (col pat : String) : QueryPredicate :=
  if pat.toList.head? = some '%' ∧ pat.toList.getLast? = some '%' ∧ 2 < pat.utf8ByteSize then
    let substr := pat.toList.tail.dropLast
    if !substr.any isWildcard then .contains col (String.ofList substr) else .like col pat
  else .like col pat

def negatedPredicate (negated : Bool) (pred : QueryPredicate) : QueryPredicate := if negated then .not pred else pred

def conjoin : List QueryPredicate → QueryPredicate
  | [pred] => pred
  | preds => .and preds

/-- `NotEq` is the operator `<>`. -/
def collectPredicates : FilterExpr → List QueryPredicate
  | .binaryOp left .and right => collectPredicates left ++ collectPredicates right
  | .binaryOp left .or right =>
    let leftPreds := collectPredicates left
    let rightPreds := collectPredicates right
    if leftPreds ≠ [] ∧ rightPreds ≠ [] then [.or [conjoin leftPreds, conjoin rightPreds]] else []
  | .binaryOp left .eq right => (tryBinaryPredicate left right .equals).toList
  | .binaryOp left .gt right => (tryComparison left right false false).toList
  | .binaryOp left .gtEq right => (tryComparison left right true false).toList
  | .binaryOp left .lt right => (tryComparison left right false true).toList
  | .binaryOp left .ltEq right => (tryComparison left right true true).toList
  | .binaryOp left (.other op) right =>
    if op = "<>" then (tryBinaryPredicate left right fun col val => .not (.equals col val)).toList else []
  | .like negated expr pattern _ =>
    ((columnLiteral expr pattern).map fun r => negatedPredicate negated (likePredicate r.1 r.2)).toList
  | .inList expr list negated =>
    ((extractColumnName expr).bind fun col =>
      let values := list.filterMap extractLiteralValue
      let hasNullInList := values.length < list.length
      if values = [] ∨ (negated = true ∧ hasNullInList) then none
      else some (negatedPredicate negated (.isIn col values))).toList
  | .between expr negated low high =>
    ((extractColumnName expr).bind fun col =>
      (extractLiteralValue low).bind fun lo =>
        (extractLiteralValue high).map fun hi => negatedPredicate negated (.between col lo hi)).toList
  | .isNull inner => ((extractColumnName inner).map fun col => .isNull col true).toList
  | .isNotNull inner => ((extractColumnName inner).map fun col => .isNull col false).toList
  | .not expr =>
    let innerPreds := collectPredicates expr
    if innerPreds = [] then [] else [.not (conjoin innerPreds)]
  | .nested inner => collectPredicates inner
  | _ => []

def exprToPredicates (expr : FilterExpr) : List QueryPredicate := collectPredicates expr

/-! ### Texts of SQL -/

inductive SqlDialect where
  | clickHouse
  | mySql
  | postgres
  | snowflake
  | redshift
  | sqLite
deriving DecidableEq

def isValidColumnName (name : String) : Bool :=
  !name.isEmpty && name.utf8ByteSize ≤ 128 &&
    match name.toList with
    | [] => false
    | c :: cs => (c.isAlpha || c = '_') && cs.all fun c => c.isAlphanum || c = '_' || c = '-' || c = '.'

def escapeColumnName (name : String) (dialect : SqlDialect) : String :=
  let q := if dialect = .clickHouse ∨ dialect = .mySql then "`" else "\""
  if isValidColumnName name then q ++ name ++ q else q ++ "INVALID_COLUMN" ++ q

def escapeSqlChar (ch : Char) : List Char :=
  if ch = '\x00' then [] else if ch = '\'' then ['\'', '\''] else if ch = '\\' then ['\\', '\\'] else [ch]

def escapeSqlString (s : String) : String := String.ofList (s.toList.flatMap escapeSqlChar)

/-- For the text of a literal: each backslash of a LIKE escape is escaped. -/
def escapeLikeChar (ch : Char) : List Char :=
  if ch = '\x00' then []
  else if ch = '\'' then ['\'', '\'']
  else if ch = '\\' then ['\\', '\\', '\\', '\\']
  else if isWildcard ch then ['\\', '\\', ch]
  else [ch]

def escapeLikePattern (s : String) : String := String.ofList (s.toList.flatMap escapeLikeChar)

def escapeLikeCharForAst (ch : Char) : List Char :=
  if ch = '\x00' then []
  else if ch = '\\' then ['\\', '\\']
  else if isWildcard ch then ['\\', ch]
  else [ch]

def escapeLikePatternForAst (s : String) : String := String.ofList (s.toList.flatMap escapeLikeCharForAst)

def formatSqlValue (value : String) : String :=
  if isNumericLiteral value then value else "'" ++ escapeSqlString value ++ "'"

mutual

def predicateToDisplaySql (dialect : SqlDialect) : QueryPredicate → String
  | .equals column value => escapeColumnName column dialect ++ " = " ++ formatSqlValue value
  | .isIn column values =>
    if values = [] then "1=0"
    else escapeColumnName column dialect ++ " IN (" ++ String.intercalate ", " (values.map formatSqlValue) ++ ")"
  | .greaterThan column value inclusive =>
    escapeColumnName column dialect ++ (if inclusive then " >= " else " > ") ++ formatSqlValue value
  | .lessThan column value inclusive =>
    escapeColumnName column dialect ++ (if inclusive then " <= " else " < ") ++ formatSqlValue value
  | .between column low high =>
    escapeColumnName column dialect ++ " BETWEEN " ++ formatSqlValue low ++ " AND " ++ formatSqlValue high
  | .like column pattern => escapeColumnName column dialect ++ " LIKE '" ++ escapeSqlString pattern ++ "'"
  | .contains column substring =>
    escapeColumnName column dialect ++ " LIKE '%" ++ escapeLikePattern substring ++ "%'"
  | .isNull column isNull => escapeColumnName column dialect ++ if isNull then " IS NULL" else " IS NOT NULL"
  | .and preds => if preds = [] then "1=1" else "(" ++ String.intercalate " AND " (displayAll dialect preds) ++ ")"
  | .or preds => if preds = [] then "1=0" else "(" ++ String.intercalate " OR " (displayAll dialect preds) ++ ")"
  | .not inner => "NOT (" ++ predicateToDisplaySql dialect inner ++ ")"

def displayAll (dialect : SqlDialect) : List QueryPredicate → List String
  | [] => []
  | pred :: preds => predicateToDisplaySql dialect pred :: displayAll dialect preds

end

/-! ### Expressions -/

def columnIdent (name : String) : FilterExpr := .identifier { value := name, quoteStyle := some '`' }

def valueExpr (value : String) : FilterExpr := .value (valueToExpr value)

def oneEquals (n : String) : FilterExpr := .binaryOp (.value (.number "1")) .eq (.value (.number n))

/-- `chain_exprs` on expressions. -/
def chainExprs (op : BinaryOperator) (first : FilterExpr) (rest : List FilterExpr) : FilterExpr :=
  .nested (rest.foldl (fun acc e => .binaryOp acc op e) first)

mutual

def predicateToExpr : QueryPredicate → FilterExpr
  | .equals column value => .binaryOp (columnIdent column) .eq (valueExpr value)
  | .isIn column values =>
    if values = [] then oneEquals "0" else .inList (columnIdent column) (values.map valueExpr) false
  | .greaterThan column value inclusive =>
    .binaryOp (columnIdent column) (if inclusive then .gtEq else .gt) (valueExpr value)
  | .lessThan column value inclusive =>
    .binaryOp (columnIdent column) (if inclusive then .ltEq else .lt) (valueExpr value)
  | .between column low high => .between (columnIdent column) false (valueExpr low) (valueExpr high)
  | .like column pattern => .like false (columnIdent column) (.value (.singleQuotedString pattern)) none
  | .contains column substring =>
    .like false (columnIdent column)
      (.value (.singleQuotedString ("%" ++ escapeLikePatternForAst substring ++ "%"))) none
  | .isNull column isNull => if isNull then .isNull (columnIdent column) else .isNotNull (columnIdent column)
  | .and preds =>
    match predicatesToExprs preds with
    | [] => oneEquals "1"
    | first :: rest => chainExprs .and first rest
  | .or preds =>
    match predicatesToExprs preds with
    | [] => oneEquals "0"
    | first :: rest => chainExprs .or first rest
  | .not inner => .not (.nested (predicateToExpr inner))

def predicatesToExprs : List QueryPredicate → List FilterExpr
  | [] => []
  | pred :: preds => predicateToExpr pred :: predicatesToExprs preds

end

/-! ### Literal prefixes -/

/-- The literal prefix of a pattern, with the wildcards and backslashes that are escaped in it. -/
def literalPrefix : List Char → List Char
  | [] => []
  | '\\' :: [] => ['\\']
  | '\\' :: escaped :: chars =>
    if isWildcard escaped || escaped = '\\' then escaped :: literalPrefix chars
    else '\\' :: literalPrefix (escaped :: chars)
  | ch :: chars => if isWildcard ch then [] else ch :: literalPrefix chars

def extractLikeLiteralPrefix (pattern : String) : String := String.ofList (literalPrefix pattern.toList)

end Reiver.Pond
