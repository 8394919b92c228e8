import Reiver.Pond.Query.FilterMeaning
import Reiver.Pond.Query.LikeFaithful
import Reiver.Pond.Query.WhereExpr

/-! # Predicates only weaken

What is left of a condition when its casts, its ESCAPE clauses, the list members that are no literals and the parts that
are not looked into are taken out means what the predicates mean (`map_truthOf_leftOf`). Where the parts are
`Trusted`, taking things out only weakens (`truthOf_left`): the predicates of a condition hold exactly if what is left
of its other conjuncts does (`weakens_iff`). -/

namespace Reiver.Pond

/-- Whenever the condition is true of the row, so is each of its predicates. -/
def Weakens {V : Type} (E : FilterEngine V) (row : String → V) (e : FilterExpr) : Prop :=
  E.Accepts row e → ∀ pred ∈ exprToPredicates e, E.holds row pred = some true

/-! ### What is left of a condition -/

def BinaryOperator.compares (op : BinaryOperator) : Bool :=
  op = .eq || op = .gt || op = .gtEq || op = .lt || op = .ltEq || op = .other "<>"

namespace FilterExpr

/-- A comparison of a column with a value, its literal read again as the value. -/
def leftComparison (left : FilterExpr) (op : BinaryOperator) (right : FilterExpr) : Option FilterExpr :=
  ((columnLiteral left right).map fun r => .binaryOp (columnIdent r.1) op (valueExpr r.2)).or
    ((columnLiteral right left).map fun r => .binaryOp (valueExpr r.2) op (columnIdent r.1))

/-- A part that is not left drops out of a conjunction. -/
def leftBoth (left right : Option FilterExpr) : Option FilterExpr :=
  (left.bind fun l => right.map fun r => .binaryOp l .and r).or (left.or right)

/-- The pattern of a text between percent signs, escaped again. -/
def leftPattern (pattern : String) : String :=
  match likePredicate "" pattern with
  | .contains _ substring => "%" ++ escapeLikePatternForAst substring ++ "%"
  | _ => pattern

def leftOf : FilterExpr → Option FilterExpr
  | .binaryOp left .and right => leftBoth left.leftOf right.leftOf
  | .binaryOp left .or right => left.leftOf.bind fun l => right.leftOf.map fun r => .binaryOp l .or r
  | .binaryOp left op right => if op.compares then leftComparison left op right else none
  | .not expr => expr.leftOf.map .not
  | .nested expr => expr.leftOf
  | .between expr negated low high =>
    (extractColumnName expr).bind fun column =>
      (extractLiteralValue low).bind fun lo =>
        (extractLiteralValue high).map fun hi =>
          .between (columnIdent column) negated (valueExpr lo) (valueExpr hi)
  | .like negated expr pattern _ =>
    (columnLiteral expr pattern).map fun r =>
      .like negated (columnIdent r.1) (.value (.singleQuotedString (leftPattern r.2))) none
  | .inList expr list negated =>
    (extractColumnName expr).bind fun column =>
      let values := list.filterMap extractLiteralValue
      if values = [] ∨ (negated = true ∧ values.length < list.length) then none
      else some (.inList (columnIdent column) (values.map valueExpr) negated)
  | .isNull expr => (extractColumnName expr).map fun column => .isNull (columnIdent column)
  | .isNotNull expr => (extractColumnName expr).map fun column => .isNotNull (columnIdent column)
  | _ => none

def conjuncts : FilterExpr → List FilterExpr
  | .binaryOp left .and right => left.conjuncts ++ right.conjuncts
  | .nested expr => expr.conjuncts
  | e => [e]

/-! ### Parts that are kept as they are -/

def isColumn : FilterExpr → Bool
  | .identifier _ => true
  | .compoundIdentifier idents => !idents.isEmpty
  | _ => false

/-- A number, or a text that is not read as one. -/
def isKeptLiteral : FilterExpr → Bool
  | .value (.number n) => isNumericLiteral n
  | .value (.singleQuotedString s) => !isNumericLiteral s
  | .value (.doubleQuotedString s) => !isNumericLiteral s
  | _ => false

/-- A text, which if it stands between percent signs has no NUL, and each of whose backslashes is followed by a
    character other than a wildcard or a backslash. -/
def IsKeptPattern (pattern : FilterExpr) : Prop :=
  ∃ p, (pattern = .value (.singleQuotedString p) ∨ pattern = .value (.doubleQuotedString p)) ∧
    ∀ t, p.toList = '%' :: (t ++ ['%']) → t ≠ [] → t.any isWildcard = false → '\x00' ∉ t ∧ tame t = true

/-- Is the part true (`side`), or false, only if what is left of it is? Nothing is left of it; or it is a test of a
    column as it stands, with literals that are kept; or it is made of such parts, where behind a negation nothing may
    drop out of a conjunction, and elsewhere nothing out of a list. -/
def Trusted (side : Bool) : FilterExpr → Prop
  | .binaryOp left .and right => left.Trusted side ∧ right.Trusted side ∧
      (side = false → left.leftOf.isSome = right.leftOf.isSome)
  | .binaryOp left .or right =>
      left.leftOf.isSome = true → right.leftOf.isSome = true → left.Trusted side ∧ right.Trusted side
  | .binaryOp left op right => (leftOf (.binaryOp left op right)).isSome = true →
      (left.isColumn = true ∧ right.isKeptLiteral = true) ∨ (left.isKeptLiteral = true ∧ right.isColumn = true)
  | .not expr => expr.Trusted !side
  | .nested expr => expr.Trusted side
  | .between expr negated low high => (leftOf (.between expr negated low high)).isSome = true →
      expr.isColumn = true ∧ low.isKeptLiteral = true ∧ high.isKeptLiteral = true
  | .like negated expr pattern escapeChar => (leftOf (.like negated expr pattern escapeChar)).isSome = true →
      expr.isColumn = true ∧ IsKeptPattern pattern ∧ escapeChar = none
  | .inList expr list negated => (leftOf (.inList expr list negated)).isSome = true →
      expr.isColumn = true ∧
        (∀ member ∈ list, (extractLiteralValue member).isSome = true → member.isKeptLiteral = true) ∧
        (side = true → ∀ member ∈ list, (extractLiteralValue member).isSome = true)
  | .isNull expr => (extractColumnName expr).isSome = true → expr.isColumn = true
  | .isNotNull expr => (extractColumnName expr).isSome = true → expr.isColumn = true
  | _ => True

/-! ### What is left means what the predicates mean -/

/-- What the predicates of a condition say together, if there are any. -/
def meaning {V : Type} (E : FilterEngine V) (row : String → V) (preds : List QueryPredicate) : Option Truth :=
  if preds = [] then none else some (Truth.all (preds.map (E.holds row)))

section
variable {V : Type} {E : FilterEngine V} {row : String → V} {e left right expr member : FilterExpr}
  {op : BinaryOperator} {column value p : String} {preds preds' : List QueryPredicate} {side : Bool}

theorem meaning_toList (pred : Option QueryPredicate) : meaning E row pred.toList = pred.map (E.holds row) := by
  cases pred with
  | none => rfl
  | some pred => exact congrArg some (Truth.all_singleton _)

theorem meaning_of_ne_nil (hne : preds ≠ []) : meaning E row preds = some (Truth.all (preds.map (E.holds row))) :=
  if_neg hne

theorem truthOf_leftBoth {l r : Option FilterExpr} (hl : l.map (E.truthOf row) = meaning E row preds)
    (hr : r.map (E.truthOf row) = meaning E row preds') :
    (leftBoth l r).map (E.truthOf row) = meaning E row (preds ++ preds') := by
  by_cases hpreds : preds = []
  · subst hpreds
    obtain rfl : l = none := Option.map_eq_none_iff.mp hl
    simpa [leftBoth] using hr
  · by_cases hpreds' : preds' = []
    · subst hpreds'
      obtain rfl : r = none := Option.map_eq_none_iff.mp hr
      cases l <;> simpa [leftBoth] using hl
    · rw [meaning_of_ne_nil hpreds] at hl
      rw [meaning_of_ne_nil hpreds'] at hr
      obtain ⟨l, rfl, hleft⟩ := Option.map_eq_some_iff.mp hl
      obtain ⟨r, rfl, hright⟩ := Option.map_eq_some_iff.mp hr
      rw [meaning_of_ne_nil (by simp [hpreds]), List.map_append, Truth.all_append]
      simp [leftBoth, hleft, hright]

theorem truthOf_leftComparison (op : BinaryOperator) {build flipped : String → String → QueryPredicate}
    (hop : op ≠ .and ∧ op ≠ .or)
    (hbuild : ∀ column value, E.holds row (build column value) =
      E.truth (E.binary op (row column) (E.literal (valueToExpr value))))
    (hflipped : ∀ column value, E.holds row (flipped column value) =
      E.truth (E.binary op (E.literal (valueToExpr value)) (row column))) :
    (leftComparison left op right).map (E.truthOf row) =
      (((columnLiteral left right).map fun r => build r.1 r.2).or
        ((columnLiteral right left).map fun r => flipped r.1 r.2)).map (E.holds row) := by
  unfold leftComparison
  rcases columnLiteral left right with _ | r
  · rcases columnLiteral right left with _ | r
    · rfl
    · exact congrArg some ((FilterEngine.truthOf_binary hop.1 hop.2).trans (hflipped r.1 r.2).symm)
  · exact congrArg some ((FilterEngine.truthOf_binary hop.1 hop.2).trans (hbuild r.1 r.2).symm)

theorem tryBinaryPredicate_eq (build : String → String → QueryPredicate) : tryBinaryPredicate left right build =
    ((columnLiteral left right).map fun r => build r.1 r.2).or
      ((columnLiteral right left).map fun r => build r.1 r.2) := by
  unfold tryBinaryPredicate
  rw [Option.map_or]

theorem holds_equals : E.holds row (.equals column value) =
    E.truth (E.binary .eq (row column) (E.literal (valueToExpr value))) :=
  FilterEngine.holds_compare (by decide) (by decide) rfl

theorem holds_greaterThan (inclusive : Bool) : E.holds row (.greaterThan column value inclusive) =
    E.truth (E.binary (if inclusive then .gtEq else .gt) (row column) (E.literal (valueToExpr value))) :=
  FilterEngine.holds_compare (by cases inclusive <;> decide) (by cases inclusive <;> decide) rfl

theorem holds_lessThan (inclusive : Bool) : E.holds row (.lessThan column value inclusive) =
    E.truth (E.binary (if inclusive then .ltEq else .lt) (row column) (E.literal (valueToExpr value))) :=
  FilterEngine.holds_compare (by cases inclusive <;> decide) (by cases inclusive <;> decide) rfl

theorem holds_between {low high : String} : E.holds row (.between column low high) =
    (E.truth (E.binary .gtEq (row column) (E.literal (valueToExpr low)))).and
      (E.truth (E.binary .ltEq (row column) (E.literal (valueToExpr high)))) :=
  FilterEngine.truthOf_between

theorem holds_isIn {values : List String} (hne : values ≠ []) : E.holds row (.isIn column values) =
    Truth.any (values.map fun value => E.truth (E.binary .eq (row column) (E.literal (valueToExpr value)))) := by
  rw [FilterEngine.holds, predicateToExpr, if_neg hne, FilterEngine.truthOf_inList, List.map_map]
  rfl

theorem holds_isNull {null : Bool} : E.holds row (.isNull column null) = some (E.isNull (row column) == null) := by
  cases null
  · simp [FilterEngine.holds, predicateToExpr, FilterEngine.eval_columnIdent]
  · simp [FilterEngine.holds, predicateToExpr, FilterEngine.eval_columnIdent]

theorem holds_likePredicate : E.holds row (likePredicate column p) =
    E.like none (row column) (E.literal (.singleQuotedString (leftPattern p))) := by
  unfold leftPattern likePredicate
  dsimp only
  split_ifs
  · exact FilterEngine.truthOf_like
  · exact FilterEngine.truthOf_like
  · exact FilterEngine.truthOf_like

theorem holds_negatedPredicate {negated : Bool} {pred : QueryPredicate} :
    E.holds row (negatedPredicate negated pred) = Truth.negatedIf negated (E.holds row pred) := by
  cases negated
  · rfl
  · exact FilterEngine.holds_not

theorem leftOf_compares (hop : op ≠ .and ∧ op ≠ .or) :
    leftOf (.binaryOp left op right) = if op.compares then leftComparison left op right else none := by
  cases op with
  | and => exact absurd rfl hop.1
  | or => exact absurd rfl hop.2
  | _ => rfl

theorem truthOf_left_compares (hop : op ≠ .and ∧ op ≠ .or) :
    (if op.compares then leftComparison left op right else none).map (E.truthOf row) =
      meaning E row (collectPredicates (.binaryOp left op right)) := by
  have hcases : op = .eq ∨ op = .gt ∨ op = .gtEq ∨ op = .lt ∨ op = .ltEq ∨ ∃ text, op = .other text := by
    cases op with
    | and => exact absurd rfl hop.1
    | or => exact absurd rfl hop.2
    | _ => simp
  rcases hcases with rfl | rfl | rfl | rfl | rfl | ⟨text, rfl⟩
  · rw [if_pos (by decide), collectPredicates, meaning_toList, tryBinaryPredicate_eq]
    exact truthOf_leftComparison .eq hop (fun _ _ => holds_equals)
      fun _ _ => holds_equals.trans (E.binary_eq_comm _ _)
  · rw [if_pos (by decide), collectPredicates, meaning_toList]
    exact truthOf_leftComparison .gt hop (fun _ _ => holds_greaterThan false)
      fun _ _ => (holds_lessThan false).trans (E.binary_gt_flip _ _).symm
  · rw [if_pos (by decide), collectPredicates, meaning_toList]
    exact truthOf_leftComparison .gtEq hop (fun _ _ => holds_greaterThan true)
      fun _ _ => (holds_lessThan true).trans (E.binary_gtEq_flip _ _).symm
  · rw [if_pos (by decide), collectPredicates, meaning_toList]
    exact truthOf_leftComparison .lt hop (fun _ _ => holds_lessThan false)
      fun _ _ => (holds_greaterThan false).trans (E.binary_gt_flip _ _)
  · rw [if_pos (by decide), collectPredicates, meaning_toList]
    exact truthOf_leftComparison .ltEq hop (fun _ _ => holds_lessThan true)
      fun _ _ => (holds_greaterThan true).trans (E.binary_gtEq_flip _ _)
  · by_cases htext : text = "<>"
    · subst htext
      rw [if_pos (by decide), collectPredicates, if_pos rfl, meaning_toList, tryBinaryPredicate_eq]
      have hnot (column value : String) : E.holds row (.not (.equals column value)) =
          E.truth (E.binary (.other "<>") (row column) (E.literal (valueToExpr value))) := by
        rw [FilterEngine.holds_not, holds_equals, E.binary_notEq]
      refine truthOf_leftComparison (.other "<>") hop hnot fun column value => (hnot column value).trans ?_
      rw [E.binary_notEq, E.binary_notEq, E.binary_eq_comm]
    · have hop : BinaryOperator.compares (.other text) = false := by simp [BinaryOperator.compares, htext]
      rw [if_neg (by simp [hop]), collectPredicates, if_neg htext]
      rfl

theorem truthOf_leftOr {l r : Option FilterExpr} (hl : l.map (E.truthOf row) = meaning E row preds)
    (hr : r.map (E.truthOf row) = meaning E row preds') :
    (l.bind fun l => r.map fun r => .binaryOp l .or r).map (E.truthOf row) =
      meaning E row (if preds ≠ [] ∧ preds' ≠ [] then [.or [conjoin preds, conjoin preds']] else []) := by
  by_cases hpreds : preds = []
  · subst hpreds
    obtain rfl : l = none := Option.map_eq_none_iff.mp hl
    rfl
  · by_cases hpreds' : preds' = []
    · subst hpreds'
      obtain rfl : r = none := Option.map_eq_none_iff.mp hr
      rw [if_neg (by simp)]
      cases l <;> rfl
    · rw [meaning_of_ne_nil hpreds] at hl
      rw [meaning_of_ne_nil hpreds'] at hr
      obtain ⟨l, rfl, hleft⟩ := Option.map_eq_some_iff.mp hl
      obtain ⟨r, rfl, hright⟩ := Option.map_eq_some_iff.mp hr
      rw [if_pos ⟨hpreds, hpreds'⟩, meaning_of_ne_nil (by simp), List.map_singleton, Truth.all_singleton,
        FilterEngine.holds_or, FilterEngine.holds_conjoin hpreds, FilterEngine.holds_conjoin hpreds']
      simp [hleft, hright]

theorem truthOf_leftNot {l : Option FilterExpr} (hl : l.map (E.truthOf row) = meaning E row preds) :
    (l.map .not).map (E.truthOf row) = meaning E row (if preds = [] then [] else [.not (conjoin preds)]) := by
  by_cases hpreds : preds = []
  · subst hpreds
    obtain rfl : l = none := Option.map_eq_none_iff.mp hl
    rfl
  · rw [meaning_of_ne_nil hpreds] at hl
    obtain ⟨l, rfl, hleft⟩ := Option.map_eq_some_iff.mp hl
    rw [if_neg hpreds, meaning_of_ne_nil (by simp), List.map_singleton, Truth.all_singleton, FilterEngine.holds_not,
      FilterEngine.holds_conjoin hpreds]
    simp [hleft]

/-- What is left of a condition means what its predicates mean. -/
theorem map_truthOf_leftOf (e : FilterExpr) :
    e.leftOf.map (E.truthOf row) = meaning E row (collectPredicates e) := by
  fun_induction leftOf e with
  | case1 left right ihl ihr => exact truthOf_leftBoth ihl ihr
  | case2 left right ihl ihr => exact truthOf_leftOr ihl ihr
  | case3 left op right hand hor hop =>
    rw [← truthOf_left_compares ⟨hand, hor⟩, if_pos hop]
  | case4 left op right hand hor hop =>
    rw [← truthOf_left_compares ⟨hand, hor⟩, if_neg hop]
  | case5 expr ih => exact truthOf_leftNot ih
  | case6 expr ih => exact ih
  | case7 expr negated low high =>
    rw [collectPredicates, meaning_toList]
    rcases extractColumnName expr with _ | column
    · rfl
    · rcases extractLiteralValue low with _ | lo
      · rfl
      · rcases extractLiteralValue high with _ | hi
        · rfl
        · refine congrArg some (FilterEngine.truthOf_between.trans ?_)
          rw [holds_negatedPredicate, holds_between]
          rfl
  | case8 negated expr pattern escapeChar =>
    rw [collectPredicates, meaning_toList]
    rcases columnLiteral expr pattern with _ | r
    · rfl
    · refine congrArg some (FilterEngine.truthOf_like.trans ?_)
      rw [holds_negatedPredicate, holds_likePredicate]
      rfl
  | case9 expr list negated =>
    rw [collectPredicates, meaning_toList]
    rcases extractColumnName expr with _ | column
    · rfl
    · simp only [Option.bind_some]
      split_ifs with hnone
      · rfl
      · refine congrArg some (FilterEngine.truthOf_inList.trans ?_)
        rw [holds_negatedPredicate, holds_isIn fun hnil => hnone (.inl hnil), List.map_map]
        rfl
  | case10 expr =>
    rw [collectPredicates, meaning_toList]
    rcases extractColumnName expr with _ | column
    · rfl
    · exact congrArg some (FilterEngine.truthOf_isNull.trans (by rw [holds_isNull, beq_true]; rfl))
  | case11 expr =>
    rw [collectPredicates, meaning_toList]
    rcases extractColumnName expr with _ | column
    · rfl
    · exact congrArg some (FilterEngine.truthOf_isNotNull.trans (by rw [holds_isNull, beq_false]; rfl))
  | case12 e hand hor hbinary hnot hnested hbetween hlike hlist hnull hnotNull =>
    cases e with
    | binaryOp left op right => exact (hbinary left op right rfl).elim
    | not expr => exact (hnot expr rfl).elim
    | nested expr => exact (hnested expr rfl).elim
    | between expr negated low high => exact (hbetween expr negated low high rfl).elim
    | like negated expr pattern escapeChar => exact (hlike negated expr pattern escapeChar rfl).elim
    | inList expr list negated => exact (hlist expr list negated rfl).elim
    | isNull expr => exact (hnull expr rfl).elim
    | isNotNull expr => exact (hnotNull expr rfl).elim
    | identifier | compoundIdentifier | value | cast | other => rfl

/-! ### Taking parts out -/

theorem eval_of_isColumn (h : expr.isColumn = true) (hcolumn : extractColumnName expr = some column) :
    E.eval row expr = row column := by
  cases expr with
  | identifier ident =>
    obtain rfl := Option.some.inj hcolumn
    rfl
  | compoundIdentifier idents =>
    rw [extractColumnName] at hcolumn
    rw [FilterEngine.eval, hcolumn]
    rfl
  | _ => cases h

theorem extractColumnName_of_isColumn (h : expr.isColumn = true) : ∃ column, extractColumnName expr = some column := by
  cases expr with
  | identifier ident => exact ⟨_, rfl⟩
  | compoundIdentifier idents =>
    have hne : idents ≠ [] := by simpa [isColumn] using h
    exact ⟨_, by rw [extractColumnName, List.getLast?_eq_some_getLast hne]; rfl⟩
  | _ => cases h

theorem eval_of_isKeptLiteral (h : expr.isKeptLiteral = true) (hvalue : extractLiteralValue expr = some value) :
    E.eval row expr = E.literal (valueToExpr value) := by
  have hkept {v : SqlValue} (hexpr : expr = .value v) : E.eval row expr = E.literal v := by rw [hexpr]; rfl
  unfold isKeptLiteral at h
  split at h
  · obtain rfl := Option.some.inj hvalue
    rw [hkept rfl, valueToExpr, if_pos h]
  · obtain rfl := Option.some.inj hvalue
    rw [hkept rfl, valueToExpr, if_neg (by simpa using h)]
  · obtain rfl := Option.some.inj hvalue
    rw [hkept rfl, valueToExpr, if_neg (by simpa using h), E.literal_doubleQuoted]
  · cases h

theorem extractLiteralValue_of_isKeptLiteral (h : expr.isKeptLiteral = true) :
    (∃ value, extractLiteralValue expr = some value) ∧ extractColumnName expr = none := by
  unfold isKeptLiteral at h
  split at h
  · exact ⟨⟨_, rfl⟩, rfl⟩
  · exact ⟨⟨_, rfl⟩, rfl⟩
  · exact ⟨⟨_, rfl⟩, rfl⟩
  · cases h

variable (E row) in
theorem columnLiteral_of_kept (hcolumn : left.isColumn = true) (hliteral : right.isKeptLiteral = true) :
    ∃ column value, columnLiteral left right = some (column, value) ∧ columnLiteral right left = none ∧
      E.eval row left = row column ∧ E.eval row right = E.literal (valueToExpr value) := by
  obtain ⟨column, hname⟩ := extractColumnName_of_isColumn hcolumn
  obtain ⟨⟨value, hvalue⟩, hnone⟩ := extractLiteralValue_of_isKeptLiteral hliteral
  refine ⟨column, value, ?_, ?_, eval_of_isColumn hcolumn hname, eval_of_isKeptLiteral hliteral hvalue⟩
  · rw [columnLiteral, hname, hvalue]
    rfl
  · rw [columnLiteral, hnone]
    rfl

theorem truthOf_leftComparison_kept {l : FilterExpr} (hop : op ≠ .and ∧ op ≠ .or)
    (h : (left.isColumn = true ∧ right.isKeptLiteral = true) ∨ (left.isKeptLiteral = true ∧ right.isColumn = true))
    (hl : l ∈ leftComparison left op right) : E.truthOf row l = E.truthOf row (.binaryOp left op right) := by
  rw [FilterEngine.truthOf_binary hop.1 hop.2]
  rcases h with ⟨hcolumn, hliteral⟩ | ⟨hliteral, hcolumn⟩
  · obtain ⟨column, value, hpair, -, hleft, hright⟩ := columnLiteral_of_kept E row hcolumn hliteral
    rw [leftComparison, hpair] at hl
    obtain rfl := Option.some.inj hl
    rw [FilterEngine.truthOf_binary hop.1 hop.2, hleft, hright]
    rfl
  · obtain ⟨column, value, hpair, hnone, hright, hleft⟩ := columnLiteral_of_kept E row hcolumn hliteral
    rw [leftComparison, hnone, hpair] at hl
    obtain rfl := Option.some.inj hl
    rw [FilterEngine.truthOf_binary hop.1 hop.2, hleft, hright]
    rfl

theorem escapeLikeForAst_eq {t : List Char} (h : '\x00' ∉ t) : t.flatMap escapeLikeCharForAst = escapeLike t := by
  refine List.flatMap_congr fun c hc => ?_
  have hnul : c ≠ '\x00' := fun heq => h (heq ▸ hc)
  unfold escapeLikeCharForAst escapeChar
  rw [if_neg hnul]
  by_cases hback : c = '\\'
  · simp [hback]
  · simp [hback]

theorem likeMatches_leftPattern
    (h : ∀ t, p.toList = '%' :: (t ++ ['%']) → t ≠ [] → t.any isWildcard = false → '\x00' ∉ t ∧ tame t = true)
    (x : String) : likeMatches (leftPattern p) x = likeMatches p x := by
  unfold leftPattern
  split
  · next column substring heq =>
    obtain rfl : column = "" := by
      unfold likePredicate at heq
      dsimp only at heq
      split_ifs at heq
      exact (QueryPredicate.contains.inj heq).1.symm
    obtain ⟨hp, hne, hplain⟩ := likePredicate_contains_iff.mp heq
    obtain ⟨hnul, htame⟩ := h _ hp hne hplain
    have hpattern : ("%" ++ escapeLikePatternForAst substring ++ "%").toList =
        '%' :: (escapeLike substring.toList ++ ['%']) := by
      simp [escapeLikePatternForAst, escapeLikeForAst_eq hnul]
    rw [Bool.eq_iff_iff, likeMatches, likeMatches, hpattern, hp, contains_escapeLike, ← escapeWildcards_plain hplain]
    rw [contains_iff_tame.mpr htame, escapeWildcards_plain hplain]
  · rfl

theorem mem_leftBoth {l : FilterExpr} {left right : Option FilterExpr} (h : l ∈ leftBoth left right) :
    (∃ a ∈ left, ∃ b ∈ right, l = .binaryOp a .and b) ∨ (left = none ∧ l ∈ right) ∨ (right = none ∧ l ∈ left) := by
  rcases left with _ | a
  · exact .inr (.inl ⟨rfl, h⟩)
  · rcases right with _ | b
    · exact .inr (.inr ⟨rfl, h⟩)
    · exact .inl ⟨a, rfl, b, rfl, (Option.some.inj h).symm⟩

theorem forall_literal {list : List FilterExpr} (h : list.length ≤ (list.filterMap extractLiteralValue).length) :
    ∀ member ∈ list, (extractLiteralValue member).isSome = true := by
  rw [List.length_filterMap_eq_countP] at h
  exact List.countP_eq_length.mp (Nat.le_antisymm List.countP_le_length h)

theorem any_of_members {list : List FilterExpr} {v : V} {b : Bool}
    (hmembers : ∀ member ∈ list, (extractLiteralValue member).isSome = true → member.isKeptLiteral = true)
    (hall : b = true → ∀ member ∈ list, (extractLiteralValue member).isSome = true)
    (h : Truth.any (list.map fun member => E.truth (E.binary .eq v (E.eval row member))) = some b) :
    Truth.any ((list.filterMap extractLiteralValue).map
      ((fun member => E.truth (E.binary .eq v (E.eval row member))) ∘ valueExpr)) = some b := by
  cases b with
  | true =>
    rw [Truth.any_eq_true] at h ⊢
    obtain ⟨member, hmember, htruth⟩ := List.mem_map.mp h
    obtain ⟨value, hvalue⟩ := Option.isSome_iff_exists.mp (hall rfl member hmember)
    rw [eval_of_isKeptLiteral (hmembers member hmember (hall rfl member hmember)) hvalue] at htruth
    exact List.mem_map.mpr ⟨value, List.mem_filterMap.mpr ⟨member, hmember, hvalue⟩, htruth⟩
  | false =>
    rw [Truth.any_eq_false] at h ⊢
    intro t ht
    obtain ⟨value, hmem, rfl⟩ := List.mem_map.mp ht
    obtain ⟨member, hmember, hvalue⟩ := List.mem_filterMap.mp hmem
    have hkept := hmembers member hmember (Option.isSome_of_mem hvalue)
    have htruth := h _ (List.mem_map_of_mem hmember)
    rw [eval_of_isKeptLiteral hkept hvalue] at htruth
    exact htruth

/-- Of a condition that is trusted on a side, what is left is on that side with it. -/
theorem truthOf_left (htrusted : e.Trusted side) {l : FilterExpr} (hl : l ∈ e.leftOf)
    (htruth : E.truthOf row e = some side) : E.truthOf row l = some side := by
  fun_induction leftOf e generalizing side l with
  | case1 left right ihl ihr =>
    obtain ⟨hleft, hright, hsame⟩ := htrusted
    rw [FilterEngine.truthOf_and] at htruth
    cases side with
    | true =>
      obtain ⟨htl, htr⟩ := Truth.and_eq_true.mp htruth
      rcases mem_leftBoth hl with ⟨a, ha, b, hb, rfl⟩ | ⟨-, hl⟩ | ⟨-, hl⟩
      · rw [FilterEngine.truthOf_and, ihl hleft ha htl, ihr hright hb htr]
        rfl
      · exact ihr hright hl htr
      · exact ihl hleft hl htl
    | false =>
      have hsame := hsame rfl
      rcases mem_leftBoth hl with ⟨a, ha, b, hb, rfl⟩ | ⟨hnone, hl⟩ | ⟨hnone, hl⟩
      · rw [FilterEngine.truthOf_and, Truth.and_eq_false]
        exact (Truth.and_eq_false.mp htruth).imp (ihl hleft ha) (ihr hright hb)
      · rw [hnone, Option.mem_def.mp hl] at hsame
        cases hsame
      · rw [hnone, Option.mem_def.mp hl] at hsame
        cases hsame
  | case2 left right ihl ihr =>
    obtain ⟨a, ha, hl⟩ := Option.bind_eq_some_iff.mp hl
    obtain ⟨b, hb, rfl⟩ := Option.map_eq_some_iff.mp hl
    obtain ⟨hleft, hright⟩ := htrusted (by rw [ha]; rfl) (by rw [hb]; rfl)
    rw [FilterEngine.truthOf_or] at htruth ⊢
    cases side with
    | true =>
      rw [Truth.or_eq_true] at htruth ⊢
      exact htruth.imp (ihl hleft ha) (ihr hright hb)
    | false =>
      rw [Truth.or_eq_false] at htruth ⊢
      exact ⟨ihl hleft ha htruth.1, ihr hright hb htruth.2⟩
  | case3 left op right hand hor hop =>
    have hleft : leftOf (.binaryOp left op right) = leftComparison left op right := by
      rw [leftOf_compares ⟨hand, hor⟩, if_pos hop]
    have hkept : (leftOf (.binaryOp left op right)).isSome = true := by
      rw [hleft, Option.mem_def.mp hl]
      rfl
    rw [Trusted] at htrusted
    · rw [truthOf_leftComparison_kept ⟨hand, hor⟩ (htrusted hkept) hl, htruth]
    · exact hand
    · exact hor
  | case4 => cases hl
  | case5 expr ih =>
    obtain ⟨a, ha, rfl⟩ := Option.map_eq_some_iff.mp hl
    rw [FilterEngine.truthOf_not, Truth.not_eq_some] at htruth ⊢
    exact ih htrusted ha htruth
  | case6 expr ih => exact ih htrusted hl htruth
  | case7 expr negated low high =>
    obtain ⟨hcolumn, hlow, hhigh⟩ := htrusted (Option.isSome_of_mem hl)
    obtain ⟨column, hname, hl⟩ := Option.bind_eq_some_iff.mp hl
    obtain ⟨lo, hlo, hl⟩ := Option.bind_eq_some_iff.mp hl
    obtain ⟨hi, hhi, rfl⟩ := Option.map_eq_some_iff.mp hl
    rw [FilterEngine.truthOf_between, eval_of_isColumn hcolumn hname, eval_of_isKeptLiteral hlow hlo,
      eval_of_isKeptLiteral hhigh hhi] at htruth
    exact FilterEngine.truthOf_between.trans htruth
  | case8 negated expr pattern escapeChar =>
    obtain ⟨hcolumn, ⟨p, hpattern, hkept⟩, rfl⟩ := htrusted (Option.isSome_of_mem hl)
    obtain ⟨⟨column, p'⟩, hpair, rfl⟩ := Option.map_eq_some_iff.mp hl
    have hvalue : extractLiteralValue pattern = some p ∧ E.eval row pattern = E.literal (.singleQuotedString p) := by
      rcases hpattern with rfl | rfl
      · exact ⟨rfl, rfl⟩
      · exact ⟨rfl, E.literal_doubleQuoted p⟩
    obtain ⟨name, hname, hmap⟩ := Option.bind_eq_some_iff.mp hpair
    rw [hvalue.1] at hmap
    obtain ⟨rfl, rfl⟩ := Prod.mk.inj (Option.some.inj hmap)
    rw [FilterEngine.truthOf_like, eval_of_isColumn hcolumn hname, hvalue.2,
      ← E.like_congr _ _ (likeMatches_leftPattern hkept)] at htruth
    exact FilterEngine.truthOf_like.trans htruth
  | case9 expr list negated =>
    obtain ⟨hcolumn, hmembers, hall⟩ := htrusted (Option.isSome_of_mem hl)
    obtain ⟨column, hname, hl⟩ := Option.bind_eq_some_iff.mp hl
    dsimp only at hl
    split_ifs at hl with hnone
    obtain rfl := Option.some.inj hl
    rw [FilterEngine.truthOf_inList, Truth.negatedIf_eq_some, eval_of_isColumn hcolumn hname] at htruth
    rw [FilterEngine.truthOf_inList, Truth.negatedIf_eq_some, List.map_map]
    refine any_of_members hmembers (fun hside => ?_) htruth
    cases negated with
    | false => exact hall (by simpa using hside)
    | true => exact forall_literal (not_lt.mp fun hlt => hnone (.inr ⟨rfl, hlt⟩))
  | case10 expr =>
    obtain ⟨column, hname, rfl⟩ := Option.map_eq_some_iff.mp hl
    have hcolumn := htrusted (by rw [hname]; rfl)
    rw [FilterEngine.truthOf_isNull, eval_of_isColumn hcolumn hname] at htruth
    exact FilterEngine.truthOf_isNull.trans htruth
  | case11 expr =>
    obtain ⟨column, hname, rfl⟩ := Option.map_eq_some_iff.mp hl
    have hcolumn := htrusted (by rw [hname]; rfl)
    rw [FilterEngine.truthOf_isNotNull, eval_of_isColumn hcolumn hname] at htruth
    exact FilterEngine.truthOf_isNotNull.trans htruth
  | case12 => cases hl

/-! ### The conjuncts of a condition -/

theorem accepts_iff_conjuncts (e : FilterExpr) : E.Accepts row e ↔ ∀ c ∈ e.conjuncts, E.Accepts row c := by
  fun_induction conjuncts e with
  | case1 left right ihl ihr =>
    rw [FilterEngine.Accepts, FilterEngine.truthOf_and, Truth.and_eq_true, List.forall_mem_append]
    exact and_congr ihl ihr
  | case2 expr ih => exact ih
  | case3 e => exact List.forall_mem_singleton.symm

theorem collectPredicates_eq (e : FilterExpr) : collectPredicates e = e.conjuncts.flatMap collectPredicates := by
  fun_induction conjuncts e with
  | case1 left right ihl ihr => rw [collectPredicates, List.flatMap_append, ← ihl, ← ihr]
  | case2 expr ih => exact ih
  | case3 e => exact (List.flatMap_singleton _ _).symm

theorem forall_holds_iff (e : FilterExpr) :
    (∀ pred ∈ collectPredicates e, E.holds row pred = some true) ↔ ∀ l ∈ e.leftOf, E.Accepts row l := by
  have hmeaning : e.leftOf.map (E.truthOf row) = meaning E row (collectPredicates e) := map_truthOf_leftOf e
  by_cases hnil : collectPredicates e = []
  · rw [hnil] at hmeaning
    obtain hnone : e.leftOf = none := Option.map_eq_none_iff.mp hmeaning
    rw [hnil, hnone]
    simp
  · rw [meaning_of_ne_nil hnil] at hmeaning
    obtain ⟨l, hl, htruth⟩ := Option.map_eq_some_iff.mp hmeaning
    rw [hl]
    simp only [Option.mem_some_iff, forall_eq', FilterEngine.Accepts, htruth, Truth.all_eq_true, List.forall_mem_map]

end

end FilterExpr

/-- What is left of a conjunct that is not trusted is true of the row. -/
def LeftHolds {V : Type} (E : FilterEngine V) (row : String → V) (e : FilterExpr) : Prop :=
  ∀ c ∈ e.conjuncts, ¬c.Trusted true → ∀ l ∈ c.leftOf, E.Accepts row l

/-- Where a condition is true of a row, its predicates hold exactly if what is left of its other conjuncts does. -/
theorem weakens_iff {V : Type} (E : FilterEngine V) (row : String → V) (e : FilterExpr) :
    Weakens E row e ↔ (E.Accepts row e → LeftHolds E row e) := by
  refine imp_congr_right fun hacc => ?_
  rw [exprToPredicates, FilterExpr.collectPredicates_eq, List.forall_mem_flatMap]
  refine forall₂_congr fun c hc => (FilterExpr.forall_holds_iff c).trans ⟨fun h _ => h, fun h => ?_⟩
  by_cases htrusted : c.Trusted true
  · have hc := (FilterExpr.accepts_iff_conjuncts e).mp hacc c hc
    exact fun l hl => FilterExpr.truthOf_left htrusted hl hc
  · exact h htrusted

/-! ### Conditions that are strengthened -/

/-- Texts and truths. A date is cut off the text of a time, and what is not looked into is false. -/
def textEngine : FilterEngine (String ⊕ Truth) where
  truth v := v.elim (fun _ => none) id
  ofTruth := .inr
  literal v := match v with
    | .number n => .inl n
    | .singleQuotedString s => .inl s
    | .doubleQuotedString s => .inl s
    | .boolean b => .inr (some b)
    | .other text => .inl text
  binary op v w := match v, w with
    | .inl a, .inl b => .inr (if op = .other "<>" then some (decide (a ≠ b)) else op.compare a b)
    | _, _ => .inr none
  cast dataType v := v.map (fun s => if dataType = "Date" then String.ofList (s.toList.take 10) else s) id
  like _ v w := match v, w with
    | .inl s, .inl pattern => some (likeMatches pattern s)
    | _, _ => none
  isNull v := v = .inr none
  other _ _ := .inr (some false)
  truth_ofTruth _ := rfl
  literal_doubleQuoted _ := rfl
  binary_eq_comm v w := by
    rcases v with a | s <;> rcases w with b | t <;> simp [BinaryOperator.compare, eq_comm]
  binary_gt_flip v w := by rcases v with a | s <;> rcases w with b | t <;> rfl
  binary_gtEq_flip v w := by rcases v with a | s <;> rcases w with b | t <;> rfl
  binary_notEq v w := by
    rcases v with a | s <;> rcases w with b | t <;> simp [BinaryOperator.compare, Truth.not]
  like_congr p p' h v := by
    rcases v with s | t
    · exact congrArg some (h s)
    · rfl

def columnX : FilterExpr := .identifier { value := "x" }

def textValue (s : String) : FilterExpr := .value (.singleQuotedString s)

/-- `NOT (x = 'a' AND f(x))`. -/
def notBoth : FilterExpr := .not (.nested (.binaryOp (.binaryOp columnX .eq (textValue "a")) .and (.other "f(x)")))

/-- `x IN ('a', y)`. -/
def inListWithColumn : FilterExpr := .inList columnX [textValue "a", .identifier { value := "y" }] false

/-- `CAST(x AS Date) = '2025-01-01'`. -/
def castColumn : FilterExpr := .binaryOp (.cast columnX "Date") .eq (textValue "2025-01-01")

/-- A part dropped behind a negation, a member dropped from a list and a dropped cast each make a predicate that is
    false where the condition is true. -/
theorem not_weakens : ¬Weakens textEngine (fun _ => .inl "a") notBoth ∧
    ¬Weakens textEngine (fun _ => .inl "b") inListWithColumn ∧
    ¬Weakens textEngine (fun _ => .inl "2025-01-01 10:00:00") castColumn := by
  refine ⟨fun h => ?_, fun h => ?_, fun h => ?_⟩
  · exact absurd (h rfl (.not (.equals "x" "a")) (List.mem_singleton.mpr rfl)) (by decide)
  · exact absurd (h rfl (.isIn "x" ["a"]) (List.mem_singleton.mpr rfl)) (by decide)
  · exact absurd (h rfl (.equals "x" "2025-01-01") (List.mem_singleton.mpr rfl)) (by decide +kernel)

end Reiver.Pond
