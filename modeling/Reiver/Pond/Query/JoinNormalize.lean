import Mathlib.Data.Multiset.Defs
import Reiver.Lib.Joins
import Reiver.Pond.Query.Ast

/-! # Cross joins as inner joins

The model of `query/join_normalize.rs`. The trees are those of the parser as far as the normalization looks into them;
other expressions, tables and clauses are known by their text. -/

namespace Reiver.Pond.JoinNormalize

inductive Expr where
  | compoundIdentifier (idents : List Ident)
  | binaryOp (left : Expr) (op : BinaryOperator) (right : Expr)
  | nested (inner : Expr)
  | other (text : String)
deriving DecidableEq

inductive TableFactor where
  | table (name : ObjectName) (tableAlias : Option TableAlias) (rest : String)
  | other (text : String)
deriving DecidableEq

inductive JoinConstraint where
  | on (expr : Expr)
  | using (columns : List Ident)
  | natural
  | none
deriving DecidableEq

inductive JoinOperator where
  | crossJoin
  | inner (constraint : JoinConstraint)
  | leftOuter (constraint : JoinConstraint)
  | rightOuter (constraint : JoinConstraint)
  | fullOuter (constraint : JoinConstraint)
deriving DecidableEq

structure Join where
  relation : TableFactor
  joinOperator : JoinOperator
deriving DecidableEq

structure TableWithJoins where
  relation : TableFactor
  joins : List Join
deriving DecidableEq

/-- The clauses besides FROM and WHERE are in `rest`. -/
structure Select where
  tables : List TableWithJoins
  selection : Option Expr
  rest : String
deriving DecidableEq

/-- A `query` is one in parentheses, with its own clauses. -/
inductive SetExpr where
  | select (select : Select)
  | query (body : SetExpr) (rest : String)
  | setOperation (op : String) (left right : SetExpr)
  | other (text : String)
deriving DecidableEq

inductive Statement where
  | query (body : SetExpr) (rest : String)
  | other (text : String)
deriving DecidableEq

/-! ### Names -/

abbrev AliasMap := Dict String String

def lastValue (name : ObjectName) : String := (name.getLast?.map (·.value)).getD ""

def collectAlias (map : AliasMap) : TableFactor → AliasMap
  | .table name tableAlias _ =>
    let tableName := lastValue name
    let map := tableAlias.elim map fun a => map.insert a.name.value tableName
    map.insert tableName tableName
  | .other _ => map

def buildAliasMap (tables : List TableWithJoins) : AliasMap :=
  tables.foldl (fun map twj => twj.joins.foldl (fun map join => collectAlias map join.relation)
    (collectAlias map twj.relation)) ∅

/-- The name or alias by which a table is referenced. -/
def tableRefName : TableFactor → Option String
  | .table name tableAlias _ => tableAlias.elim (name.getLast?.map (·.value)) fun a => some a.name.value
  | .other _ => none

def AliasMap.resolve (map : AliasMap) (name : String) : String := (map.lookup name).getD name

def eqIgnoreAsciiCase (a b : String) : Bool := a.toList.map Char.toLower == b.toList.map Char.toLower

/-! ### Equi-join predicates -/

def flattenAnd : Expr → List Expr
  | .binaryOp left .and right => flattenAnd left ++ flattenAnd right
  | .nested inner => flattenAnd inner
  | other => [other]

def rebuildAnd : List Expr → Option Expr
  | [] => none
  | part :: parts => some (parts.foldl (fun result part => .binaryOp result .and part) part)

/-- The table and the column of a compound identifier. -/
def extractColumnRef : Expr → Option (String × String)
  | .compoundIdentifier idents =>
    match idents.reverse with
    | column :: table :: _ => some (table.value, column.value)
    | _ => none
  | _ => none

section Extract
variable (aliasMap : AliasMap)

/-- A reference names a table, by itself or by what both stand for. -/
def sameTable (reference table : String) : Bool :=
  eqIgnoreAsciiCase (aliasMap.resolve reference) (aliasMap.resolve table) || eqIgnoreAsciiCase reference table

def isCrossTableEq (leftTables : List String) (rightTable : String) : Expr → Bool
  | .binaryOp left .eq right =>
    match extractColumnRef left, extractColumnRef right with
    | some (lTable, _), some (rTable, _) =>
      if lTable = "" || rTable = "" then false
      else
        let lOnLeft := leftTables.any (sameTable aliasMap lTable)
        let rOnRight := sameTable aliasMap rTable rightTable
        let rOnLeft := leftTables.any (sameTable aliasMap rTable)
        let lOnRight := sameTable aliasMap lTable rightTable
        (lOnLeft && rOnRight) || (rOnLeft && lOnRight)
    | _, _ => false
  | _ => false

/-- The first conjunct that joins the tables, with what remains. -/
def extractEquiJoinPredicate (expr : Expr) (leftTables : List String) (rightTable : String) :
    Option (Expr × Option Expr) :=
  let conjuncts := flattenAnd expr
  match conjuncts.findIdx? (isCrossTableEq aliasMap leftTables rightTable) with
  | some idx => conjuncts[idx]?.map fun onExpr => (onExpr, rebuildAnd (conjuncts.eraseIdx idx))
  | none => none

/-! ### The walk -/

/-- What a cross join is given of the WHERE clause. -/
def crossJoinPredicate (leftTables : List String) (selection : Option Expr) (join : Join) :
    Option (Expr × Option Expr) :=
  match join.joinOperator, tableRefName join.relation, selection with
  | .crossJoin, some rightName, some whereExpr => extractEquiJoinPredicate aliasMap whereExpr leftTables rightName
  | _, _, _ => none

/-- The names on the left of the next join: a cross join with a table that has no name adds an empty one. -/
def nextLeftTables (leftTables : List String) (join : Join) : List String :=
  match tableRefName join.relation, join.joinOperator with
  | some name, _ => leftTables ++ [name]
  | none, .crossJoin => leftTables ++ [""]
  | none, _ => leftTables

/-- The joins after those with `leftTables`, what remains of the WHERE clause, and whether something changed. -/
def normalizeJoins (leftTables : List String) (selection : Option Expr) : List Join → List Join × Option Expr × Bool
  | [] => ([], selection, false)
  | join :: joins =>
    match crossJoinPredicate aliasMap leftTables selection join with
    | some (onExpr, remaining) =>
      let (joins, selection, _) := normalizeJoins (nextLeftTables leftTables join) remaining joins
      ({ join with joinOperator := .inner (.on onExpr) } :: joins, selection, true)
    | none =>
      let (joins, selection, changed) := normalizeJoins (nextLeftTables leftTables join) selection joins
      (join :: joins, selection, changed)

def normalizeTableWithJoins (twj : TableWithJoins) (selection : Option Expr) : TableWithJoins × Option Expr × Bool :=
  let (joins, selection, changed) := normalizeJoins aliasMap (tableRefName twj.relation).toList selection twj.joins
  ({ twj with joins }, selection, changed)

def normalizeFrom (selection : Option Expr) : List TableWithJoins → List TableWithJoins × Option Expr × Bool
  | [] => ([], selection, false)
  | twj :: tables =>
    let (twj, selection, changed) := normalizeTableWithJoins aliasMap twj selection
    let (tables, selection, changed') := normalizeFrom selection tables
    (twj :: tables, selection, changed || changed')

end Extract

def normalizeSelect (select : Select) : Select × Bool :=
  let (tables, selection, changed) := normalizeFrom (buildAliasMap select.tables) select.selection select.tables
  ({ select with tables, selection }, changed)

def normalizeSetExpr : SetExpr → SetExpr × Bool
  | .select select =>
    let (select, changed) := normalizeSelect select
    (.select select, changed)
  | .query body rest =>
    let (body, changed) := normalizeSetExpr body
    (.query body rest, changed)
  | .setOperation op left right =>
    let (left, a) := normalizeSetExpr left
    let (right, b) := normalizeSetExpr right
    (.setOperation op left right, a || b)
  | .other text => (.other text, false)

def normalizeStatement : Statement → Statement × Bool
  | .query body rest =>
    let (body, changed) := normalizeSetExpr body
    (.query body rest, changed)
  | .other text => (.other text, false)

/-! ### The text that is returned -/

/-- What an expression without parentheses around it consists of: the first operand, and each further one after its
    operator. -/
def Expr.operands : Expr → Expr × List (BinaryOperator × Expr)
  | .binaryOp left .and right => (left.operands.1, left.operands.2 ++ (.and, right.operands.1) :: right.operands.2)
  | .binaryOp left .or right => (left.operands.1, left.operands.2 ++ (.or, right.operands.1) :: right.operands.2)
  | expr => (expr, [])

/-- What has been read: the disjuncts before, and the conjunction that is being read. -/
def parsedExpr (parsed : Option Expr × Expr) : Expr :=
  parsed.1.elim parsed.2 fun disjuncts => .binaryOp disjuncts .or parsed.2

def parseOperand (parsed : Option Expr × Expr) (next : BinaryOperator × Expr) : Option Expr × Expr :=
  match next.1 with
  | .or => (some (parsedExpr parsed), next.2)
  | op => (parsed.1, .binaryOp parsed.2 op next.2)

/-- What the text of an expression parses to: AND binds tighter than OR, and both to the left. -/
def Expr.reparse (expr : Expr) : Expr := parsedExpr (expr.operands.2.foldl parseOperand (none, expr.operands.1))

def JoinConstraint.reparse : JoinConstraint → JoinConstraint
  | .on expr => .on expr.reparse
  | constraint => constraint

def JoinOperator.reparse : JoinOperator → JoinOperator
  | .crossJoin => .crossJoin
  | .inner constraint => .inner constraint.reparse
  | .leftOuter constraint => .leftOuter constraint.reparse
  | .rightOuter constraint => .rightOuter constraint.reparse
  | .fullOuter constraint => .fullOuter constraint.reparse

def TableWithJoins.reparse (twj : TableWithJoins) : TableWithJoins :=
  { twj with joins := twj.joins.map fun join => { join with joinOperator := join.joinOperator.reparse } }

def Select.reparse (select : Select) : Select :=
  { select with tables := select.tables.map (·.reparse), selection := select.selection.map (·.reparse) }

def SetExpr.reparse : SetExpr → SetExpr
  | .select s => .select s.reparse
  | .query body rest => .query body.reparse rest
  | .setOperation op left right => .setOperation op left.reparse right.reparse
  | .other text => .other text

def Statement.reparse : Statement → Statement
  | .query body rest => .query body.reparse rest
  | .other text => .other text

/-- The text that is returned, by what it parses to. Where nothing changed it is the text that was given. -/
def normalizeCrossJoins (statements : List Statement) : List Statement :=
  let normalized := statements.map normalizeStatement
  if normalized.any (·.2) then normalized.map (·.1.reparse) else statements

end Reiver.Pond.JoinNormalize

/-! # What a query with joins returns

The rows of FROM and WHERE on a database, with the three truth values of SQL. How a reference finds its table, what the
tables hold, and what other expressions and clauses mean is left to the server. -/

namespace Reiver.Pond.JoinNormalize

abbrev NameResolution := TableFactor → List Ident → Bool

/-- The value of each reference that finds the table; none is NULL. -/
abbrev Row (V : Type) := List Ident → Option V

/-- The tables joined so far, each with its row. -/
abbrev Env (V : Type) := List (TableFactor × Row V)

abbrev Result (V : Type) := Multiset (List (Option V))

structure Database (V : Type) where
  rows : TableFactor → List (Row V)
  truth : Expr → Env V → Option Bool
  agrees : JoinConstraint → Env V → Env V → Bool
  project : String → Multiset (Env V) → Result V
  clauses : String → Result V → Result V
  combine : String → Result V → Result V → Result V
  values : String → Result V

/-! ### Conditions -/

def bothTrue : Option Bool → Option Bool → Option Bool
  | some false, _ => some false
  | _, some false => some false
  | some true, some true => some true
  | _, _ => none

def eitherTrue : Option Bool → Option Bool → Option Bool
  | some true, _ => some true
  | _, some true => some true
  | some false, some false => some false
  | _, _ => none

section Semantics
variable {V : Type} [DecidableEq V] (refersTo : NameResolution) (db : Database V)

/-- A reference is to the first table that its qualifier refers to. -/
def lookup (env : Env V) (idents : List Ident) : Option V :=
  (env.find? fun b => refersTo b.1 idents.dropLast).bind fun b => b.2 idents

def equalValues : Option V → Option V → Option Bool
  | some a, some b => some (a = b)
  | _, _ => none

def eval (env : Env V) : Expr → Option Bool
  | .binaryOp left .and right => bothTrue (eval env left) (eval env right)
  | .binaryOp left .or right => eitherTrue (eval env left) (eval env right)
  | .nested inner => eval env inner
  | .binaryOp (.compoundIdentifier a) .eq (.compoundIdentifier b) =>
    equalValues (lookup refersTo env a) (lookup refersTo env b)
  | expr => db.truth expr env

/-- A row is kept where the condition is true. -/
def kept (expr : Expr) (env : Env V) : Bool := eval refersTo db env expr == some true

/-! ### Joins -/

def satisfied (constraint : JoinConstraint) (l r : Env V) : Bool :=
  match constraint with
  | .on expr => kept refersTo db expr (l ++ r)
  | constraint => db.agrees constraint l r

def nulls (scope : List TableFactor) : Env V := scope.map fun factor => (factor, fun _ => none)

def orNulls (scope : List TableFactor) (found : List (Env V)) : List (Env V) :=
  if found.isEmpty then [nulls scope] else found

def factorRows (factor : TableFactor) : List (Env V) := (db.rows factor).map fun row => [(factor, row)]

/-- The rows of a join chain with the tables in `scope`, joined with one more. -/
def joinRows (scope : List TableFactor) (rows : List (Env V)) (join : Join) : List (Env V) :=
  let right := factorRows db join.relation
  match join.joinOperator with
  | .crossJoin => loop rows fun _ => right
  | .inner constraint => loop rows fun l => right.filter (satisfied refersTo db constraint l)
  | .leftOuter constraint => loop rows fun l =>
    orNulls [join.relation] (right.filter (satisfied refersTo db constraint l))
  | .rightOuter constraint => right.flatMap fun r =>
    (orNulls scope (rows.filter fun l => satisfied refersTo db constraint l r)).map (· ++ r)
  | .fullOuter constraint =>
    loop rows (fun l => orNulls [join.relation] (right.filter (satisfied refersTo db constraint l))) ++
      (right.filter fun r => !rows.any fun l => satisfied refersTo db constraint l r).map (nulls scope ++ ·)

def chainRows (scope : List TableFactor) (rows : List (Env V)) : List Join → List (Env V)
  | [] => rows
  | join :: joins => chainRows (scope ++ [join.relation]) (joinRows refersTo db scope rows join) joins

def TableWithJoins.rows (twj : TableWithJoins) : List (Env V) :=
  chainRows refersTo db [twj.relation] (factorRows db twj.relation) twj.joins

/-- Every row so far with every row of the further tables. -/
def fromRows (rows : List (Env V)) : List TableWithJoins → List (Env V)
  | [] => rows
  | twj :: tables => fromRows (loop rows fun _ => twj.rows refersTo db) tables

def Select.rows (select : Select) : List (Env V) :=
  (fromRows refersTo db [[]] select.tables).filter fun env =>
    select.selection.all fun expr => kept refersTo db expr env

/-! ### Queries -/

def SetExpr.meaning : SetExpr → Result V
  | .select s => db.project s.rest (Multiset.ofList (s.rows refersTo db))
  | .query body rest => db.clauses rest body.meaning
  | .setOperation op left right => db.combine op left.meaning right.meaning
  | .other text => db.values text

def Statement.meaning : Statement → Option (Result V)
  | .query body rest => some (db.clauses rest (body.meaning refersTo db))
  | .other _ => none

end Semantics

/-! ### Scopes -/

/-- The qualified columns that a condition refers to, as far as it is looked into. -/
def Expr.columns : Expr → List (List Ident)
  | .compoundIdentifier idents => [idents]
  | .binaryOp left _ right => left.columns ++ right.columns
  | .nested inner => inner.columns
  | .other _ => []

def JoinOperator.onExpr : JoinOperator → Option Expr
  | .inner (.on expr) | .leftOuter (.on expr) | .rightOuter (.on expr) | .fullOuter (.on expr) => some expr
  | _ => none

def SetExpr.selects : SetExpr → List Select
  | .select s => [s]
  | .query body _ => body.selects
  | .setOperation _ left right => left.selects ++ right.selects
  | .other _ => []

def Statement.selects : Statement → List Select
  | .query body _ => body.selects
  | .other _ => []

section Scopes
variable (refersTo : NameResolution)

def InScope (scope : List TableFactor) (expr : Expr) : Prop :=
  ∀ idents ∈ expr.columns, ∃ factor ∈ scope, refersTo factor idents.dropLast = true

/-- Every ON clause of the chain refers to tables joined by then. -/
def JoinsScoped : List TableFactor → List Join → Prop
  | _, [] => True
  | scope, join :: joins =>
    (∀ expr ∈ join.joinOperator.onExpr, InScope refersTo (scope ++ [join.relation]) expr) ∧
      JoinsScoped (scope ++ [join.relation]) joins

def Select.Scoped (select : Select) : Prop := ∀ twj ∈ select.tables, JoinsScoped refersTo [twj.relation] twj.joins

instance (scope : List TableFactor) (expr : Expr) : Decidable (InScope refersTo scope expr) :=
  inferInstanceAs (Decidable (∀ idents ∈ expr.columns, ∃ factor ∈ scope, refersTo factor idents.dropLast = true))

instance decidableJoinsScoped : (scope : List TableFactor) → (joins : List Join) →
    Decidable (JoinsScoped refersTo scope joins)
  | _, [] => .isTrue trivial
  | scope, join :: joins =>
    have := decidableJoinsScoped (scope ++ [join.relation]) joins
    inferInstanceAs (Decidable (_ ∧ _))

instance (select : Select) : Decidable (select.Scoped refersTo) :=
  inferInstanceAs (Decidable (∀ twj ∈ select.tables, JoinsScoped refersTo [twj.relation] twj.joins))

/-- The normalized text has its ON clauses in scope and returns the same rows on every database. -/
structure MeaningKept (statements : List Statement) : Prop where
  onScoped : (∀ statement ∈ statements, ∀ select ∈ statement.selects, select.Scoped refersTo) →
    ∀ statement ∈ normalizeCrossJoins statements, ∀ select ∈ statement.selects, select.Scoped refersTo
  rows : ∀ (V : Type) [DecidableEq V] (db : Database V),
    (normalizeCrossJoins statements).map (·.meaning refersTo db) = statements.map (·.meaning refersTo db)

end Scopes

end Reiver.Pond.JoinNormalize
