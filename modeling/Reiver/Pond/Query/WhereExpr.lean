import Reiver.Lib.LikePattern
import Reiver.Lib.ThreeValued
import Reiver.Pond.Query.FullText

/-! # Conditions and what they mean

The conditions of a WHERE clause over one table, with the parts that their value depends on, and what an engine that
evaluates them does. The rewriter reads them as the syntax trees they stand for. -/

namespace Reiver.Pond

inductive DateTimeField where
  | day
  | week
  | month
  | year
  | other (text : String)
deriving DecidableEq

/-- An argument of a call that is no plain expression is an `other`. -/
inductive WhereExpr where
  | identifier (ident : Ident)
  | compoundIdentifier (idents : List Ident)
  | value (v : SqlValue)
  | binaryOp (left : WhereExpr) (op : BinaryOperator) (right : WhereExpr)
  | unaryOp (op : String) (expr : WhereExpr)
  | nested (expr : WhereExpr)
  | between (expr : WhereExpr) (negated : Bool) (low high : WhereExpr)
  | like (negated : Bool) (expr pattern : WhereExpr)
  | inList (expr : WhereExpr) (list : List WhereExpr) (negated : Bool)
  | cast (expr : WhereExpr) (dataType : String)
  | function (name : ObjectName) (args : List WhereExpr)
  | interval (amount : WhereExpr) (leadingField : Option DateTimeField)
  | other (text : String)

namespace WhereExpr

/-! ### Syntax trees -/

mutual

def toAst : WhereExpr → Expr
  | .identifier ident => .identifier ident
  | .compoundIdentifier idents => .compoundIdentifier idents
  | .value v => .value v
  | .binaryOp left op right => .binaryOp left.toAst op right.toAst
  | .unaryOp op expr => .unaryOp op expr.toAst
  | .nested expr => .nested expr.toAst
  | .between expr negated low high => .between expr.toAst negated low.toAst high.toAst
  | .like negated expr pattern => .like negated expr.toAst pattern.toAst
  | .inList expr list negated => .inList expr.toAst (toAsts list) negated
  | .cast expr _ => .cast expr.toAst
  | .function name args => .function name (.listArgs (toArgs args) .nil) .none .none .nil
  | .interval amount _ => .otherExpr (.cons amount.toAst .nil)
  | .other _ => .otherExpr .nil

def toAsts : List WhereExpr → Ast (.vec .expr)
  | [] => .nil
  | e :: rest => .cons e.toAst (toAsts rest)

def toArgs : List WhereExpr → Ast (.vec .functionArg)
  | [] => .nil
  | e :: rest => .cons (.unnamedArg e.toAst) (toArgs rest)

end

def columnNameForSkip (e : WhereExpr) : Option (Option String × String) := extractColumnNameForSkip e.toAst

def stringValue (e : WhereExpr) : Option String := tryExtractStringValue e.toAst

def conjuncts : WhereExpr → List WhereExpr
  | .binaryOp left .and right => left.conjuncts ++ right.conjuncts
  | .nested expr => expr.conjuncts
  | e => [e]

def plainColumn : WhereExpr → Option String
  | .identifier ident => some ident.value
  | .compoundIdentifier idents => idents.getLast?.map (·.value)
  | _ => none

def textLiteral : WhereExpr → Option String
  | .value (.singleQuotedString s) => some s
  | .nested expr => expr.textLiteral
  | _ => none

end WhereExpr

/-! ### Evaluation -/

/-- What a comparison says of two elements of an order. -/
def BinaryOperator.compare {α : Type} [LinearOrder α] (op : BinaryOperator) (a b : α) : Truth :=
  match op with
  | .eq => some (decide (a = b))
  | .gt => some (decide (b < a))
  | .gtEq => some (decide (b ≤ a))
  | .lt => some (decide (a < b))
  | .ltEq => some (decide (a ≤ b))
  | _ => none

/-- The engine's values, how it computes with them, and the text the index keeps of one. Of the values only the texts
    are told apart. -/
structure SqlEngine (V : Type) where
  unicode : Unicode
  parser : SqlParser
  text : String → V
  truth : V → Truth
  ofTruth : Truth → V
  literal : SqlValue → V
  binary : BinaryOperator → V → V → V
  unary : String → V → V
  cast : String → V → V
  like : V → V → V
  call : ObjectName → List V → V
  interval : V → Option DateTimeField → V
  other : String → (String → V) → V
  raw : V → Option String
  truth_ofTruth : ∀ t, truth (ofTruth t) = t
  literal_text : ∀ s, literal (.singleQuotedString s) = text s
  binary_text : ∀ op a b t, op.compare a b = some t → truth (binary op (text a) (text b)) = some t
  like_text : ∀ s pattern, truth (like (text s) (text pattern)) = some (likeMatches pattern s)
  call_hasToken : ∀ name s q, unicode.toLowercase (fullName parser name) = "hastoken" →
    truth (call name [text s, text q]) = some (hasToken s q)
  raw_text : ∀ s, raw (text s) = some s

namespace SqlEngine
variable {V : Type} (E : SqlEngine V) (row : String → V)

mutual

def eval : WhereExpr → V
  | .identifier ident => row ident.value
  | .compoundIdentifier idents => row ((idents.getLast?.map (·.value)).getD "")
  | .value v => E.literal v
  | .binaryOp left op right =>
    match op with
    | .and => E.ofTruth ((E.truth (eval left)).and (E.truth (eval right)))
    | .or => E.ofTruth ((E.truth (eval left)).or (E.truth (eval right)))
    | op => E.binary op (eval left) (eval right)
  | .unaryOp op expr => if op = "NOT" then E.ofTruth (E.truth (eval expr)).not else E.unary op (eval expr)
  | .nested expr => eval expr
  | .between expr negated low high => E.ofTruth (.negatedIf negated
      ((E.truth (E.binary .gtEq (eval expr) (eval low))).and (E.truth (E.binary .ltEq (eval expr) (eval high)))))
  | .like negated expr pattern => E.ofTruth (.negatedIf negated (E.truth (E.like (eval expr) (eval pattern))))
  | .inList expr list negated => E.ofTruth (.negatedIf negated
      (.any ((evalList list).map fun v => E.truth (E.binary .eq (eval expr) v))))
  | .cast expr dataType => E.cast dataType (eval expr)
  | .function name args => E.call name (evalList args)
  | .interval amount leadingField => E.interval (eval amount) leadingField
  | .other text => E.other text row

def evalList : List WhereExpr → List V
  | [] => []
  | e :: rest => eval e :: evalList rest

end

def Accepts (e : WhereExpr) : Prop := E.truth (E.eval row e) = some true

theorem evalList_eq_map (l : List WhereExpr) : E.evalList row l = l.map (E.eval row) := by
  induction l with
  | nil => rw [evalList, List.map_nil]
  | cons e l ih => rw [evalList, ih, List.map_cons]

variable {E row}

theorem accepts_iff_conjuncts (e : WhereExpr) : E.Accepts row e ↔ ∀ leaf ∈ e.conjuncts, E.Accepts row leaf := by
  induction e using WhereExpr.conjuncts.induct with
  | case1 left right ihleft ihright =>
    rw [WhereExpr.conjuncts, List.forall_mem_append, ← ihleft, ← ihright, Accepts, eval, E.truth_ofTruth,
      Truth.and_eq_true]
    rfl
  | case2 expr ih =>
    rw [WhereExpr.conjuncts, ← ih, Accepts, eval]
    rfl
  | case3 e hand hnested =>
    rw [WhereExpr.conjuncts]
    · exact List.forall_mem_singleton.symm
    · exact hand
    · exact hnested

theorem eval_plainColumn {e : WhereExpr} {column : String} (h : e.plainColumn = some column) :
    E.eval row e = row column := by
  cases e with
  | identifier ident =>
    cases h
    rw [eval]
  | compoundIdentifier idents =>
    have h : idents.getLast?.map (·.value) = some column := h
    rw [eval, h, Option.getD_some]
  | _ => cases h

theorem eval_textLiteral {e : WhereExpr} {s : String} (h : e.textLiteral = some s) : E.eval row e = E.text s := by
  induction e using WhereExpr.textLiteral.induct with
  | case1 t =>
    cases h
    rw [eval, E.literal_text]
  | case2 expr ih =>
    rw [eval]
    exact ih h
  | case3 e hvalue hnested =>
    rw [WhereExpr.textLiteral] at h
    · cases h
    · exact hvalue
    · exact hnested

end SqlEngine

end Reiver.Pond
