import Reiver.Lib.ThreeValued
import Reiver.Pond.Query.Predicates

/-! # What a condition and a predicate mean

The value of a condition on a row under three-valued logic, for any engine. A predicate means what the expression means
that is made of it. -/

namespace Reiver.Pond

/-- The engine's values and how it computes with them. The operators are those of SQL as far as the laws say so: a
    comparison can be turned round, `<>` is the negation of `=`, and of a pattern only what it matches counts. -/
structure FilterEngine (V : Type) where
  truth : V → Truth
  ofTruth : Truth → V
  literal : SqlValue → V
  binary : BinaryOperator → V → V → V
  cast : String → V → V
  like : Option Char → V → V → Truth
  isNull : V → Bool
  other : String → (String → V) → V
  truth_ofTruth : ∀ t, truth (ofTruth t) = t
  literal_doubleQuoted : ∀ s, literal (.doubleQuotedString s) = literal (.singleQuotedString s)
  binary_eq_comm : ∀ a b, truth (binary .eq a b) = truth (binary .eq b a)
  binary_gt_flip : ∀ a b, truth (binary .gt a b) = truth (binary .lt b a)
  binary_gtEq_flip : ∀ a b, truth (binary .gtEq a b) = truth (binary .ltEq b a)
  binary_notEq : ∀ a b, truth (binary (.other "<>") a b) = (truth (binary .eq a b)).not
  like_congr : ∀ p p' : String, (∀ x, likeMatches p x = likeMatches p' x) →
    ∀ v, like none v (literal (.singleQuotedString p)) = like none v (literal (.singleQuotedString p'))

namespace FilterEngine
variable {V : Type} (E : FilterEngine V) (row : String → V)

mutual

/-- A qualified column is the column of its last name. -/
def eval : FilterExpr → V
  | .identifier ident => row ident.value
  | .compoundIdentifier idents => row ((idents.getLast?.map (·.value)).getD "")
  | .value v => E.literal v
  | .binaryOp left op right =>
    match op with
    | .and => E.ofTruth ((E.truth (eval left)).and (E.truth (eval right)))
    | .or => E.ofTruth ((E.truth (eval left)).or (E.truth (eval right)))
    | op => E.binary op (eval left) (eval right)
  | .not expr => E.ofTruth (E.truth (eval expr)).not
  | .nested expr => eval expr
  | .between expr negated low high =>
    E.ofTruth (Truth.negatedIf negated
      ((E.truth (E.binary .gtEq (eval expr) (eval low))).and (E.truth (E.binary .ltEq (eval expr) (eval high)))))
  | .like negated expr pattern escapeChar =>
    E.ofTruth (Truth.negatedIf negated (E.like escapeChar (eval expr) (eval pattern)))
  | .inList expr list negated =>
    E.ofTruth (Truth.negatedIf negated
      (Truth.any ((evals list).map fun v => E.truth (E.binary .eq (eval expr) v))))
  | .isNull expr => E.ofTruth (some (E.isNull (eval expr)))
  | .isNotNull expr => E.ofTruth (some (!E.isNull (eval expr)))
  | .cast expr dataType => E.cast dataType (eval expr)
  | .other text => E.other text row

def evals : List FilterExpr → List V
  | [] => []
  | e :: rest => eval e :: evals rest

end

def truthOf (e : FilterExpr) : Truth := E.truth (E.eval row e)

def Accepts (e : FilterExpr) : Prop := E.truthOf row e = some true

def holds (pred : QueryPredicate) : Truth := E.truthOf row (predicateToExpr pred)

theorem evals_eq_map (list : List FilterExpr) : E.evals row list = list.map (E.eval row) := by
  induction list with
  | nil => rfl
  | cons e rest ih => rw [evals, ih, List.map_cons]

section
variable {E row} {left right expr pattern low high : FilterExpr} {list : List FilterExpr} {op : BinaryOperator}
  {negated inclusive : Bool} {column value substring s : String} {preds : List QueryPredicate} {pred : QueryPredicate}

@[simp] theorem truthOf_and : E.truthOf row (.binaryOp left .and right) =
    (E.truthOf row left).and (E.truthOf row right) := E.truth_ofTruth _

@[simp] theorem truthOf_or : E.truthOf row (.binaryOp left .or right) =
    (E.truthOf row left).or (E.truthOf row right) := E.truth_ofTruth _

@[simp] theorem truthOf_not : E.truthOf row (.not expr) = (E.truthOf row expr).not := E.truth_ofTruth _

@[simp] theorem truthOf_nested : E.truthOf row (.nested expr) = E.truthOf row expr := rfl

theorem truthOf_binary (hand : op ≠ .and) (hor : op ≠ .or) :
    E.truthOf row (.binaryOp left op right) = E.truth (E.binary op (E.eval row left) (E.eval row right)) := by
  cases op with
  | and => exact absurd rfl hand
  | or => exact absurd rfl hor
  | _ => rfl

@[simp] theorem truthOf_between : E.truthOf row (.between expr negated low high) =
    Truth.negatedIf negated ((E.truth (E.binary .gtEq (E.eval row expr) (E.eval row low))).and
      (E.truth (E.binary .ltEq (E.eval row expr) (E.eval row high)))) := E.truth_ofTruth _

@[simp] theorem truthOf_like {escapeChar : Option Char} : E.truthOf row (.like negated expr pattern escapeChar) =
    Truth.negatedIf negated (E.like escapeChar (E.eval row expr) (E.eval row pattern)) := E.truth_ofTruth _

@[simp] theorem truthOf_inList : E.truthOf row (.inList expr list negated) =
    Truth.negatedIf negated
      (Truth.any (list.map fun member => E.truth (E.binary .eq (E.eval row expr) (E.eval row member)))) := by
  refine (E.truth_ofTruth _).trans ?_
  rw [evals_eq_map, List.map_map]
  rfl

@[simp] theorem truthOf_isNull : E.truthOf row (.isNull expr) = some (E.isNull (E.eval row expr)) := E.truth_ofTruth _

@[simp] theorem truthOf_isNotNull : E.truthOf row (.isNotNull expr) = some (!E.isNull (E.eval row expr)) :=
  E.truth_ofTruth _

theorem eval_columnIdent : E.eval row (columnIdent column) = row column := rfl

/-! ### What predicates mean -/

theorem holds_compare (hand : op ≠ .and) (hor : op ≠ .or)
    (h : predicateToExpr pred = .binaryOp (columnIdent column) op (valueExpr value)) :
    E.holds row pred = E.truth (E.binary op (row column) (E.literal (valueToExpr value))) := by
  rw [holds, h, truthOf_binary hand hor]
  rfl

@[simp] theorem holds_not : E.holds row (.not pred) = (E.holds row pred).not := by
  rw [holds, predicateToExpr, truthOf_not, truthOf_nested, holds]

theorem predicatesToExprs_eq_map (preds : List QueryPredicate) :
    predicatesToExprs preds = preds.map predicateToExpr := by
  induction preds with
  | nil => rfl
  | cons pred preds ih => rw [predicatesToExprs, ih, List.map_cons]

theorem truthOf_foldl_and (exprs : List FilterExpr) (first : FilterExpr) :
    E.truthOf row (exprs.foldl (fun acc e => .binaryOp acc .and e) first) =
      (E.truthOf row first).and (Truth.all (exprs.map (E.truthOf row))) := by
  induction exprs generalizing first with
  | nil => exact (Truth.and_true _).symm
  | cons e exprs ih =>
    rw [List.foldl_cons, ih, truthOf_and, Truth.and_assoc]
    rfl

theorem holds_and (hne : preds ≠ []) : E.holds row (.and preds) = Truth.all (preds.map (E.holds row)) := by
  cases preds with
  | nil => exact absurd rfl hne
  | cons pred preds =>
    rw [holds, predicateToExpr, predicatesToExprs, predicatesToExprs_eq_map]
    simp only [chainExprs, truthOf_nested, truthOf_foldl_and, List.map_map]
    rfl

theorem holds_or {pred' : QueryPredicate} : E.holds row (.or [pred, pred']) =
    (E.holds row pred).or (E.holds row pred') := by
  simp [holds, predicateToExpr, predicatesToExprs, chainExprs]

theorem holds_conjoin (hne : preds ≠ []) : E.holds row (conjoin preds) = Truth.all (preds.map (E.holds row)) := by
  rcases preds with _ | ⟨pred, _ | ⟨pred', preds⟩⟩
  · exact absurd rfl hne
  · exact (Truth.all_singleton _).symm
  · exact holds_and hne

end

end FilterEngine

end Reiver.Pond
