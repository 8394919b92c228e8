import Reiver.Lib.Dict

/-! # SQL syntax trees

The trees of the SQL parser, by the kind of their root. A constructor the rewriter looks into keeps the parts it
looks at; the expressions and queries in the parts it never looks at are in `rest`, and the constructors it never
looks at are the `other` ones. A query among those is a `subquery`. -/

namespace Reiver.Pond

structure Ident where
  value : String
  quoteStyle : Option Char := none
deriving DecidableEq

abbrev ObjectName := List Ident

structure TableAlias where
  name : Ident
  columns : List Ident := []
deriving DecidableEq

inductive SqlValue where
  | number (n : String)
  | singleQuotedString (s : String)
  | doubleQuotedString (s : String)
  | boolean (b : Bool)
  | other (text : String)
deriving DecidableEq

inductive BinaryOperator where
  | eq
  | gt
  | gtEq
  | lt
  | ltEq
  | and
  | or
  | other (text : String)
deriving DecidableEq

/-- The joins with a constraint. -/
inductive JoinOperator where
  | inner
  | leftOuter
  | rightOuter
  | fullOuter
  | leftSemi
  | rightSemi
  | leftAnti
  | rightAnti
deriving DecidableEq

inductive AstKind where
  | expr
  | functionArg
  | functionArguments
  | windowSpec
  | query
  | ctes (recursive : Bool)
  | setExpr
  | select
  | selectItem
  | tableWithJoins
  | join
  | tableFactor
  | vec (k : AstKind)
  | option (k : AstKind)

inductive Ast : AstKind → Type where
  | nil {k : AstKind} : Ast (.vec k)
  | cons {k : AstKind} (head : Ast k) (tail : Ast (.vec k)) : Ast (.vec k)
  | none {k : AstKind} : Ast (.option k)
  | some {k : AstKind} (a : Ast k) : Ast (.option k)
  -- expressions
  | identifier (ident : Ident) : Ast .expr
  | compoundIdentifier (idents : List Ident) : Ast .expr
  | value (v : SqlValue) : Ast .expr
  | subquery (query : Ast .query) : Ast .expr
  | inSubquery (expr : Ast .expr) (subquery : Ast .query) (negated : Bool) : Ast .expr
  | existsQuery (subquery : Ast .query) (negated : Bool) : Ast .expr
  | binaryOp (left : Ast .expr) (op : BinaryOperator) (right : Ast .expr) : Ast .expr
  | unaryOp (op : String) (expr : Ast .expr) : Ast .expr
  | nested (expr : Ast .expr) : Ast .expr
  | between (expr : Ast .expr) (negated : Bool) (low high : Ast .expr) : Ast .expr
  | isNull (expr : Ast .expr) : Ast .expr
  | isNotNull (expr : Ast .expr) : Ast .expr
  | like (negated : Bool) (expr pattern : Ast .expr) : Ast .expr
  | inList (expr : Ast .expr) (list : Ast (.vec .expr)) (negated : Bool) : Ast .expr
  | case (operand : Ast (.option .expr)) (conditions results : Ast (.vec .expr)) (elseResult : Ast (.option .expr)) :
      Ast .expr
  | cast (expr : Ast .expr) : Ast .expr
  | function (name : ObjectName) (args : Ast .functionArguments) (filter : Ast (.option .expr))
      (window : Ast (.option .windowSpec)) (rest : Ast (.vec .expr)) : Ast .expr
  | otherExpr (rest : Ast (.vec .expr)) : Ast .expr
  -- the parts of a function call
  | unnamedArg (expr : Ast .expr) : Ast .functionArg
  | namedArg (name : Ident) (expr : Ast .expr) : Ast .functionArg
  | wildcardArg : Ast .functionArg
  | noArgs : Ast .functionArguments
  | subqueryArgs (query : Ast .query) : Ast .functionArguments
  | listArgs (args : Ast (.vec .functionArg)) (rest : Ast (.vec .expr)) : Ast .functionArguments
  | windowSpec (partitionBy orderBy rest : Ast (.vec .expr)) : Ast .windowSpec
  -- queries
  | query {r : Bool} (ctes : Ast (.ctes r)) (body : Ast .setExpr) (orderBy rest : Ast (.vec .expr)) :
      Ast .query
  | noCte {r : Bool} : Ast (.ctes r)
  | cte {r : Bool} (name : Ident) (query : Ast .query) (tail : Ast (.ctes r)) : Ast (.ctes r)
  | selectSetExpr (select : Ast .select) : Ast .setExpr
  | querySetExpr (query : Ast .query) : Ast .setExpr
  | setOperation (left right : Ast .setExpr) : Ast .setExpr
  | otherSetExpr (tables : List ObjectName) (rest : Ast (.vec .expr)) : Ast .setExpr
  | select (projection : Ast (.vec .selectItem)) (from' : Ast (.vec .tableWithJoins))
      (selection having : Ast (.option .expr)) (groupBy rest : Ast (.vec .expr)) : Ast .select
  | unnamedExpr (expr : Ast .expr) : Ast .selectItem
  | exprWithAlias (expr : Ast .expr) (columnAlias : Ident) : Ast .selectItem
  | wildcard (rest : Ast (.vec .expr)) : Ast .selectItem
  -- tables
  | tableWithJoins (relation : Ast .tableFactor) (joins : Ast (.vec .join)) : Ast .tableWithJoins
  | join (operator : JoinOperator) (relation : Ast .tableFactor) (on : Ast (.option .expr)) : Ast .join
  | otherJoin (relation : Ast .tableFactor) (rest : Ast (.vec .expr)) : Ast .join
  | table (name : ObjectName) (tableAlias : Option TableAlias) (rest : Ast (.vec .expr)) : Ast .tableFactor
  | derived (subquery : Ast .query) (tableAlias : Option TableAlias) : Ast .tableFactor
  | nestedJoin (tableWithJoins : Ast .tableWithJoins) (tableAlias : Option TableAlias) : Ast .tableFactor
  | functionFactor (lateral : Bool) (name : ObjectName) (args : Ast (.vec .functionArg))
    (tableAlias : Option TableAlias) :
      Ast .tableFactor
  | otherFactor (tables : Ast (.vec .tableWithJoins)) (rest : Ast (.vec .expr)) : Ast .tableFactor

abbrev Expr := Ast .expr

abbrev Query := Ast .query

inductive Statement where
  | query (q : Query)
  | other

/-- The names of some common table expressions. -/
def cteNames : {k : AstKind} → Ast k → List String
  | _, .cte name _ tail => name.value :: cteNames tail
  | _, _ => []

end Reiver.Pond
