import Reiver.Pond.Query.JoinNormalize
import Mathlib.Data.Multiset.MapFold

/-! # What the normalization keeps

A conjunct of WHERE may become the condition of a cross join where it refers to tables joined by then and where no join
that follows adds rows with NULL on its left. The other conjuncts keep their parentheses by being no OR, or by being
the only one (`meaningKept`). -/

namespace Reiver.Pond.JoinNormalize

/-! ### Expressions -/

namespace Expr

def isAnd : Expr → Bool
  | .binaryOp _ .and _ => true
  | _ => false

def isOr : Expr → Bool
  | .binaryOp _ .or _ => true
  | _ => false

def isNested : Expr → Bool
  | .nested _ => true
  | _ => false

/-- A tree that the parser makes: an OR below an AND is in parentheses, and chains lean to the left. -/
def Parsed : Expr → Prop
  | .binaryOp left .and right =>
    left.Parsed ∧ right.Parsed ∧ left.isOr = false ∧ right.isOr = false ∧ right.isAnd = false
  | .binaryOp left .or right => left.Parsed ∧ right.Parsed ∧ right.isOr = false
  | .nested inner => inner.Parsed
  | _ => True

/-- A conjunct without parentheses around it. -/
structure Conjunct (expr : Expr) : Prop where
  parsed : expr.Parsed
  notAnd : expr.isAnd = false
  notNested : expr.isNested = false

theorem conjunct_of_single {expr : Expr} (h : expr.Parsed)
    (hand : ∀ left right, expr = .binaryOp left .and right → False) (hnested : ∀ inner, expr = .nested inner → False) :
    expr.Conjunct := by
  cases expr with
  | binaryOp left op right =>
    cases op with
    | and => exact (hand left right rfl).elim
    | _ => exact ⟨h, rfl, rfl⟩
  | nested inner => exact (hnested inner rfl).elim
  | _ => exact ⟨h, rfl, rfl⟩

theorem Parsed.conjuncts {expr : Expr} (h : expr.Parsed) : ∀ c ∈ flattenAnd expr, c.Conjunct := by
  induction expr using flattenAnd.induct with
  | case1 left right ihl ihr =>
    intro c hc
    rw [flattenAnd] at hc
    rcases List.mem_append.mp hc with hc | hc
    · exact ihl h.1 c hc
    · exact ihr h.2.1 c hc
  | case2 inner ih => exact ih h
  | case3 expr hand hnested =>
    intro c hc
    rw [flattenAnd.eq_3 _ hand hnested, List.mem_singleton] at hc
    exact hc ▸ conjunct_of_single h hand hnested

theorem Conjunct.flattenAnd {expr : Expr} (h : expr.Conjunct) : flattenAnd expr = [expr] := by
  cases expr with
  | binaryOp left op right =>
    cases op with
    | and => cases h.notAnd
    | _ => rfl
  | nested inner => cases h.notNested
  | _ => rfl

theorem operands_of_single {expr : Expr} (hand : expr.isAnd = false) (hor : expr.isOr = false) :
    expr.operands = (expr, []) := by
  cases expr with
  | binaryOp left op right =>
    cases op with
    | and => cases hand
    | or => cases hor
    | _ => rfl
  | _ => rfl

theorem foldl_operands {expr : Expr} (h : expr.Parsed) (hor : expr.isOr = false) (disjuncts : Option Expr) :
    expr.operands.2.foldl parseOperand (disjuncts, expr.operands.1) = (disjuncts, expr) := by
  induction expr with
  | binaryOp left op right ihl ihr =>
    cases op with
    | and =>
      obtain ⟨hleft, hright, hl, hr, hr'⟩ := h
      rw [operands, List.foldl_append, ihl hleft hl, operands_of_single hr' hr]
      rfl
    | or => cases hor
    | _ => rfl
  | _ => rfl

theorem reparse_eq {expr : Expr} (h : expr.Parsed) : expr.reparse = expr := by
  induction expr with
  | binaryOp left op right ihl ihr =>
    cases op with
    | and =>
      rw [reparse, foldl_operands h rfl]
      rfl
    | or =>
      obtain ⟨hleft, hright, hr⟩ := h
      have hread : parseOperand (left.operands.2.foldl parseOperand (none, left.operands.1)) (.or, right.operands.1) =
          (some left, right.operands.1) := congrArg (fun e => (some e, right.operands.1)) (ihl hleft)
      rw [reparse, operands, List.foldl_append, List.foldl_cons, hread, foldl_operands hright hr]
      rfl
    | _ => rfl
  | _ => rfl

end Expr

/-! ### Conjuncts -/

def conjuncts (selection : Option Expr) : List Expr := selection.elim [] flattenAnd

theorem flattenAnd_foldl (parts : List Expr) (first : Expr) :
    flattenAnd (parts.foldl (fun result part => .binaryOp result .and part) first) =
      flattenAnd first ++ parts.flatMap flattenAnd := by
  induction parts generalizing first with
  | nil => simp
  | cons part parts ih =>
    rw [List.foldl_cons, ih, flattenAnd, List.flatMap_cons, List.append_assoc]

theorem conjuncts_rebuildAnd {parts : List Expr} (h : ∀ c ∈ parts, c.Conjunct) :
    conjuncts (rebuildAnd parts) = parts := by
  have hflat : ∀ parts : List Expr, (∀ c ∈ parts, c.Conjunct) → parts.flatMap flattenAnd = parts := by
    intro parts hparts
    induction parts with
    | nil => rfl
    | cons part parts ih =>
      rw [List.flatMap_cons, (hparts part List.mem_cons_self).flattenAnd,
        ih fun c hc => hparts c (List.mem_cons_of_mem _ hc)]
      rfl
  cases parts with
  | nil => rfl
  | cons part parts =>
    exact (flattenAnd_foldl parts part).trans (hflat (part :: parts) h)

theorem parsed_foldl {parts : List Expr} (h : ∀ c ∈ parts, c.Conjunct ∧ c.isOr = false) {first : Expr}
    (hfirst : first.Parsed) (hor : first.isOr = false) :
    (parts.foldl (fun result part => .binaryOp result .and part) first).Parsed := by
  induction parts generalizing first with
  | nil => exact hfirst
  | cons part parts ih =>
    obtain ⟨hpart, hpart'⟩ := h part List.mem_cons_self
    exact ih (fun c hc => h c (List.mem_cons_of_mem _ hc)) ⟨hfirst, hpart.parsed, hor, hpart', hpart.notAnd⟩ rfl

theorem parsed_rebuildAnd {parts : List Expr} (h : ∀ c ∈ parts, c.Conjunct)
    (hor : parts.length ≤ 1 ∨ ∀ c ∈ parts, c.isOr = false) : ∀ expr ∈ rebuildAnd parts, expr.Parsed := by
  intro expr hexpr
  cases parts with
  | nil => cases hexpr
  | cons part parts =>
    cases hexpr
    have hpart := h part List.mem_cons_self
    rcases hor with hone | hor
    · obtain rfl : parts = [] := List.eq_nil_of_length_eq_zero (by simpa using hone)
      exact hpart.parsed
    · exact parsed_foldl (fun c hc => ⟨h c (List.mem_cons_of_mem _ hc), hor c (List.mem_cons_of_mem _ hc)⟩) hpart.parsed
        (hor part List.mem_cons_self)

/-! ### Conditions that move -/

section Local
variable {V : Type} {refersTo : NameResolution} {db : Database V} {env l r : Env V}

def tablesOf (env : Env V) : List TableFactor := env.map (·.1)

def ColumnEq (expr : Expr) : Prop := ∃ a b, expr = .binaryOp (.compoundIdentifier a) .eq (.compoundIdentifier b)

theorem lookup_append_left {idents : List Ident} (h : ∃ factor ∈ tablesOf l, refersTo factor idents.dropLast = true) :
    lookup refersTo (l ++ r) idents = lookup refersTo l idents := by
  obtain ⟨factor, hfactor, hrefers⟩ := h
  obtain ⟨b, hb, rfl⟩ := List.mem_map.mp hfactor
  have hsome : (l.find? fun b => refersTo b.1 idents.dropLast).isSome = true :=
    List.find?_isSome.mpr ⟨b, hb, hrefers⟩
  rw [lookup, List.find?_append, Option.or_of_isSome hsome]
  rfl

theorem lookup_append_right {idents : List Ident} (h : ∀ factor ∈ tablesOf l, refersTo factor idents.dropLast = false) :
    lookup refersTo (l ++ r) idents = lookup refersTo r idents := by
  have hnone : (l.find? fun b => refersTo b.1 idents.dropLast) = none := by
    refine List.find?_eq_none.mpr fun b hb => ?_
    rw [h b.1 (List.mem_map_of_mem hb)]
    exact Bool.false_ne_true
  rw [lookup, List.find?_append, hnone]
  rfl

theorem tablesOf_append : tablesOf (l ++ r) = tablesOf l ++ tablesOf r := List.map_append

theorem tablesOf_nulls (scope : List TableFactor) : tablesOf (nulls scope : Env V) = scope := by
  rw [tablesOf, nulls, List.map_map]
  exact List.map_id scope

theorem tablesOf_factorRows {factor : TableFactor} (h : r ∈ factorRows db factor) : tablesOf r = [factor] := by
  obtain ⟨row, -, rfl⟩ := List.mem_map.mp h
  rfl

theorem tablesOf_orNulls {scope : List TableFactor} {found : List (Env V)} (hfound : ∀ r ∈ found, tablesOf r = scope)
    (h : r ∈ orNulls scope found) : tablesOf r = scope := by
  rw [orNulls] at h
  split_ifs at h
  · obtain rfl := List.mem_singleton.mp h
    exact tablesOf_nulls scope
  · exact hfound r h

variable [DecidableEq V]

theorem kept_append_left {expr : Expr} (heq : ColumnEq expr) (h : InScope refersTo (tablesOf l) expr) :
    kept refersTo db expr (l ++ r) = kept refersTo db expr l := by
  obtain ⟨a, b, rfl⟩ := heq
  rw [kept, kept, eval, eval, lookup_append_left (h a List.mem_cons_self),
    lookup_append_left (h b (List.mem_cons_of_mem _ List.mem_cons_self))]

theorem kept_append_right {expr : Expr} (heq : ColumnEq expr)
    (h : ∀ idents ∈ expr.columns, ∀ factor ∈ tablesOf l, refersTo factor idents.dropLast = false) :
    kept refersTo db expr (l ++ r) = kept refersTo db expr r := by
  obtain ⟨a, b, rfl⟩ := heq
  rw [kept, kept, eval, eval, lookup_append_right (h a List.mem_cons_self),
    lookup_append_right (h b (List.mem_cons_of_mem _ List.mem_cons_self))]

theorem all_eq_of_mem {conditions : List Expr} {p q : Expr → Bool} (h : ∀ c ∈ conditions, p c = q c) :
    conditions.all p = conditions.all q := by
  rw [Bool.eq_iff_iff, List.all_eq_true, List.all_eq_true]
  exact forall₂_congr fun c hc => by rw [h c hc]

def keptAll (refersTo : NameResolution) (db : Database V) (moved : List Expr) (env : Env V) : Bool :=
  moved.all fun c => kept refersTo db c env

theorem keptAll_cons {expr : Expr} {moved : List Expr} :
    keptAll refersTo db (expr :: moved) env = (kept refersTo db expr env && keptAll refersTo db moved env) := rfl

theorem keptAll_append {moved moved' : List Expr} :
    keptAll refersTo db (moved ++ moved') env = (keptAll refersTo db moved env && keptAll refersTo db moved' env) :=
  List.all_append

theorem keptAll_append_left {moved : List Expr} (heq : ∀ c ∈ moved, ColumnEq c)
    (h : ∀ c ∈ moved, InScope refersTo (tablesOf l) c) :
    keptAll refersTo db moved (l ++ r) = keptAll refersTo db moved l :=
  all_eq_of_mem fun c hc => kept_append_left (heq c hc) (h c hc)

theorem keptAll_append_right {moved : List Expr} (heq : ∀ c ∈ moved, ColumnEq c)
    (h : ∀ c ∈ moved, ∀ idents ∈ c.columns, ∀ factor ∈ tablesOf l, refersTo factor idents.dropLast = false) :
    keptAll refersTo db moved (l ++ r) = keptAll refersTo db moved r :=
  all_eq_of_mem fun c hc => kept_append_right (heq c hc) (h c hc)

theorem bothTrue_eq {a b : Option Bool} : bothTrue a b = some true ↔ a = some true ∧ b = some true := by
  rcases a with - | - | - <;> rcases b with - | - | - <;> decide

theorem kept_conjuncts (expr : Expr) :
    kept refersTo db expr env = (flattenAnd expr).all fun c => kept refersTo db c env := by
  induction expr using flattenAnd.induct with
  | case1 left right ihl ihr =>
    rw [flattenAnd, List.all_append, ← ihl, ← ihr, Bool.eq_iff_iff, Bool.and_eq_true, kept, kept, kept, beq_iff_eq,
      beq_iff_eq, beq_iff_eq, eval, bothTrue_eq]
  | case2 inner ih =>
    rw [flattenAnd, ← ih]
    rfl
  | case3 expr hand hnested =>
    rw [flattenAnd.eq_3 _ hand hnested]
    simp

theorem kept_selection (selection : Option Expr) : (selection.all fun expr => kept refersTo db expr env) =
    (conjuncts selection).all fun c => kept refersTo db c env := by
  cases selection with
  | none => rfl
  | some expr => exact kept_conjuncts expr

theorem tablesOf_joinRows {scope : List TableFactor} {rows : List (Env V)} (hrows : ∀ l ∈ rows, tablesOf l = scope)
    {join : Join} (h : env ∈ joinRows refersTo db scope rows join) : tablesOf env = scope ++ [join.relation] := by
  have hfiltered : ∀ p : Env V → Bool, ∀ r ∈ (factorRows db join.relation).filter p, tablesOf r = [join.relation] :=
    fun p r hr => tablesOf_factorRows (List.mem_filter.mp hr).1
  have hloop : ∀ ext : Env V → List (Env V), (∀ l, ∀ r ∈ ext l, tablesOf r = [join.relation]) →
      ∀ x ∈ loop rows ext, tablesOf x = scope ++ [join.relation] := by
    intro ext hext x hx
    obtain ⟨l, hl, r, hr, rfl⟩ := mem_loop.mp hx
    rw [tablesOf_append, hrows l hl, hext l r hr]
  rw [joinRows] at h
  split at h
  · exact hloop _ (fun l r hr => tablesOf_factorRows hr) env h
  · exact hloop _ (fun l => hfiltered _) env h
  · exact hloop _ (fun l r hr => tablesOf_orNulls (hfiltered _) hr) env h
  · obtain ⟨r, hr, henv⟩ := List.mem_flatMap.mp h
    obtain ⟨l, hl, rfl⟩ := List.mem_map.mp henv
    have hleft : tablesOf l = scope := tablesOf_orNulls (fun l hl => hrows l (List.mem_filter.mp hl).1) hl
    rw [tablesOf_append, hleft, tablesOf_factorRows hr]
  · rcases List.mem_append.mp h with h | h
    · exact hloop _ (fun l r hr => tablesOf_orNulls (hfiltered _) hr) env h
    · obtain ⟨r, hr, rfl⟩ := List.mem_map.mp h
      rw [tablesOf_append, tablesOf_nulls, hfiltered _ r hr]

/-- No row of the join is there without a row on its left. -/
def JoinOperator.keepsLeft : JoinOperator → Bool
  | .crossJoin | .inner _ | .leftOuter _ => true
  | .rightOuter _ | .fullOuter _ => false

theorem joinRows_filter {scope : List TableFactor} {rows : List (Env V)} {join : Join} {p : Env V → Bool}
    (hkeeps : join.joinOperator.keepsLeft = true) (hp : ∀ l ∈ rows, ∀ r, p (l ++ r) = p l) :
    joinRows refersTo db scope (rows.filter p) join = (joinRows refersTo db scope rows join).filter p := by
  rw [joinRows, joinRows]
  cases hoperator : join.joinOperator with
  | crossJoin => exact loop_filter fun l hl r _ => hp l hl r
  | inner constraint => exact loop_filter fun l hl r _ => hp l hl r
  | leftOuter constraint => exact loop_filter fun l hl r _ => hp l hl r
  | rightOuter constraint =>
    rw [hoperator] at hkeeps
    cases hkeeps
  | fullOuter constraint =>
    rw [hoperator] at hkeeps
    cases hkeeps

theorem chainRows_filter {joins : List Join} {scope : List TableFactor} {rows : List (Env V)} {expr : Expr}
    (heq : ColumnEq expr) (hkeeps : ∀ join ∈ joins, join.joinOperator.keepsLeft = true)
    (hrows : ∀ l ∈ rows, tablesOf l = scope) (hscope : InScope refersTo scope expr) :
    chainRows refersTo db scope (rows.filter (kept refersTo db expr)) joins =
      (chainRows refersTo db scope rows joins).filter (kept refersTo db expr) := by
  induction joins generalizing scope rows with
  | nil => rfl
  | cons join joins ih =>
    have hlocal : ∀ l ∈ rows, ∀ r, kept refersTo db expr (l ++ r) = kept refersTo db expr l := by
      intro l hl r
      exact kept_append_left heq (hrows l hl ▸ hscope)
    rw [chainRows, chainRows, joinRows_filter (hkeeps join List.mem_cons_self) hlocal]
    refine ih (fun j hj => hkeeps j (List.mem_cons_of_mem _ hj)) (fun l hl => tablesOf_joinRows hrows hl) ?_
    intro idents hidents
    obtain ⟨factor, hfactor, hrefers⟩ := hscope idents hidents
    exact ⟨factor, List.mem_append_left _ hfactor, hrefers⟩

theorem tablesOf_chainRows {joins : List Join} {scope : List TableFactor} {rows : List (Env V)}
    (hrows : ∀ l ∈ rows, tablesOf l = scope) (h : env ∈ chainRows refersTo db scope rows joins) :
    tablesOf env = scope ++ joins.map (·.relation) := by
  induction joins generalizing scope rows with
  | nil => exact (hrows env h).trans (List.append_nil scope).symm
  | cons join joins ih =>
    rw [ih (fun l hl => tablesOf_joinRows hrows hl) h, List.append_assoc]
    rfl

theorem tablesOf_rows {twj : TableWithJoins} (h : env ∈ twj.rows refersTo db) :
    tablesOf env = twj.relation :: twj.joins.map (·.relation) :=
  tablesOf_chainRows (fun _ hl => tablesOf_factorRows hl) h

theorem joinRows_inner {scope : List TableFactor} {rows : List (Env V)} (relation : TableFactor) (expr : Expr) :
    joinRows refersTo db scope rows { relation, joinOperator := .inner (.on expr) } =
      (joinRows refersTo db scope rows { relation, joinOperator := .crossJoin }).filter (kept refersTo db expr) :=
  loop_filter_right fun _ _ _ _ => rfl

end Local

/-! ### When a conjunct may move -/

section Movable
variable (refersTo : NameResolution) (aliasMap : AliasMap)

/-- The columns of the condition are those of tables joined by then, and of no table listed before. -/
def Belongs (before scope : List TableFactor) (expr : Expr) : Prop :=
  InScope refersTo scope expr ∧
    ∀ idents ∈ expr.columns, ∀ factor ∈ before, refersTo factor idents.dropLast = false

/-- What becomes a join condition belongs there, and no join after it makes rows without a left one. -/
def JoinsMovable (before : List TableFactor) : List TableFactor → List String → Option Expr → List Join → Prop
  | _, _, _, [] => True
  | scope, leftTables, selection, join :: joins =>
    match crossJoinPredicate aliasMap leftTables selection join with
    | some (onExpr, remaining) =>
      Belongs refersTo before (scope ++ [join.relation]) onExpr ∧
        (∀ later ∈ joins, later.joinOperator.keepsLeft = true) ∧
        JoinsMovable before (scope ++ [join.relation]) (nextLeftTables leftTables join) remaining joins
    | none => JoinsMovable before (scope ++ [join.relation]) (nextLeftTables leftTables join) selection joins

def FromMovable : List TableFactor → Option Expr → List TableWithJoins → Prop
  | _, _, [] => True
  | before, selection, twj :: tables =>
    JoinsMovable refersTo aliasMap before [twj.relation] (tableRefName twj.relation).toList selection twj.joins ∧
      FromMovable (before ++ twj.relation :: twj.joins.map (·.relation))
        (normalizeTableWithJoins aliasMap twj selection).2.1 tables

instance (before scope : List TableFactor) (expr : Expr) : Decidable (Belongs refersTo before scope expr) :=
  inferInstanceAs (Decidable (_ ∧ _))

instance decidableJoinsMovable (before : List TableFactor) : (scope : List TableFactor) → (leftTables : List String) →
    (selection : Option Expr) → (joins : List Join) →
    Decidable (JoinsMovable refersTo aliasMap before scope leftTables selection joins)
  | _, _, _, [] => .isTrue trivial
  | scope, leftTables, selection, join :: joins =>
    match h : crossJoinPredicate aliasMap leftTables selection join with
    | some (onExpr, remaining) =>
      have := decidableJoinsMovable before (scope ++ [join.relation]) (nextLeftTables leftTables join) remaining joins
      decidable_of_iff (Belongs refersTo before (scope ++ [join.relation]) onExpr ∧
        (∀ later ∈ joins, later.joinOperator.keepsLeft = true) ∧
        JoinsMovable refersTo aliasMap before (scope ++ [join.relation])
          (nextLeftTables leftTables join) remaining joins)
        (by rw [JoinsMovable, h])
    | none =>
      have := decidableJoinsMovable before (scope ++ [join.relation]) (nextLeftTables leftTables join) selection joins
      decidable_of_iff
        (JoinsMovable refersTo aliasMap before (scope ++ [join.relation]) (nextLeftTables leftTables join) selection
        joins) (by rw [JoinsMovable, h])

instance decidableFromMovable :
    (before : List TableFactor) → (selection : Option Expr) → (tables : List TableWithJoins) →
      Decidable (FromMovable refersTo aliasMap before selection tables)
  | _, _, [] => .isTrue trivial
  | before, selection, twj :: tables =>
    have := decidableFromMovable (before ++ twj.relation :: twj.joins.map (·.relation))
      (normalizeTableWithJoins aliasMap twj selection).2.1 tables
    inferInstanceAs (Decidable (_ ∧ _))

end Movable

/-- Of the conjuncts that stay in WHERE none is an OR, or there is one only. -/
def StaysReadable (selection : Option Expr) : Prop :=
  (conjuncts selection).length ≤ 1 ∨ ∀ c ∈ conjuncts selection, c.isOr = false

instance (selection : Option Expr) : Decidable (StaysReadable selection) := inferInstanceAs (Decidable (_ ∨ _))

structure Select.Safe (refersTo : NameResolution) (select : Select) : Prop where
  movable : FromMovable refersTo (buildAliasMap select.tables) [] select.selection select.tables
  readable : (normalizeSelect select).2 = true → StaysReadable (normalizeSelect select).1.selection

instance (refersTo : NameResolution) (select : Select) : Decidable (select.Safe refersTo) :=
  decidable_of_iff (FromMovable refersTo (buildAliasMap select.tables) [] select.selection select.tables ∧
    ((normalizeSelect select).2 = true → StaysReadable (normalizeSelect select).1.selection))
    ⟨fun h => ⟨h.1, h.2⟩, fun h => ⟨h.movable, h.readable⟩⟩

/-- The text that was given is that of the tree. -/
structure Select.Parsed (select : Select) : Prop where
  selection : ∀ expr ∈ select.selection, expr.Parsed
  on : ∀ twj ∈ select.tables, ∀ join ∈ twj.joins, ∀ expr ∈ join.joinOperator.onExpr, expr.Parsed

/-! ### What is extracted -/

section Extract
variable {aliasMap : AliasMap} {leftTables : List String} {selection remaining : Option Expr} {onExpr : Expr}
  {join : Join}

theorem columnEq_of_isCrossTableEq {rightTable : String} {expr : Expr}
    (h : isCrossTableEq aliasMap leftTables rightTable expr = true) : ColumnEq expr := by
  have href : ∀ expr : Expr, (extractColumnRef expr).isSome = true → ∃ idents, expr = .compoundIdentifier idents := by
    intro expr hexpr
    cases expr with
    | compoundIdentifier idents => exact ⟨idents, rfl⟩
    | _ => cases hexpr
  cases expr with
  | binaryOp left op right =>
    cases op with
    | eq =>
      rw [isCrossTableEq] at h
      cases hl : extractColumnRef left with
      | none => simp [hl] at h
      | some l =>
        cases hr : extractColumnRef right with
        | none => simp [hl, hr] at h
        | some r =>
          obtain ⟨a, rfl⟩ := href left (hl ▸ rfl)
          obtain ⟨b, rfl⟩ := href right (hr ▸ rfl)
          exact ⟨a, b, rfl⟩
    | _ => cases h
  | _ => cases h

theorem crossJoinPredicate_some (h : crossJoinPredicate aliasMap leftTables selection join = some (onExpr, remaining)) :
    join.joinOperator = .crossJoin ∧ ColumnEq onExpr ∧
      ∃ before after, conjuncts selection = before ++ onExpr :: after ∧ remaining = rebuildAnd (before ++ after) := by
  unfold crossJoinPredicate at h
  split at h
  · next rightName expr hoperator _ =>
    unfold extractEquiJoinPredicate at h
    dsimp only at h
    split at h
    · next idx hidx =>
      obtain ⟨hlt, hcross, -⟩ := List.findIdx?_eq_some_iff_getElem.mp hidx
      rw [List.getElem?_eq_getElem hlt] at h
      obtain ⟨rfl, rfl⟩ := Prod.mk.inj (Option.some.inj h)
      refine ⟨hoperator, columnEq_of_isCrossTableEq hcross, (flattenAnd expr).take idx,
        (flattenAnd expr).drop (idx + 1), ?_, ?_⟩
      · rw [← List.drop_eq_getElem_cons hlt]
        exact (List.take_append_drop idx _).symm
      · rw [List.eraseIdx_eq_take_drop_succ]
    · cases h
  · cases h

theorem normalizeJoins_some {joins : List Join}
    (h : crossJoinPredicate aliasMap leftTables selection join = some (onExpr, remaining)) :
    normalizeJoins aliasMap leftTables selection (join :: joins) =
      ({ join with joinOperator := .inner (.on onExpr) } ::
        (normalizeJoins aliasMap (nextLeftTables leftTables join) remaining joins).1,
      (normalizeJoins aliasMap (nextLeftTables leftTables join) remaining joins).2.1, true) := by
  rw [normalizeJoins, h]

theorem normalizeJoins_none {joins : List Join} (h : crossJoinPredicate aliasMap leftTables selection join = none) :
    normalizeJoins aliasMap leftTables selection (join :: joins) =
      (join :: (normalizeJoins aliasMap (nextLeftTables leftTables join) selection joins).1,
      (normalizeJoins aliasMap (nextLeftTables leftTables join) selection joins).2.1,
      (normalizeJoins aliasMap (nextLeftTables leftTables join) selection joins).2.2) := by
  rw [normalizeJoins, h]

/-- What happened to a WHERE clause: some conjuncts have moved, and what is left was put together again. -/
structure Reduced (selection selection' : Option Expr) (moved : List Expr) (changed : Bool) : Prop where
  columns : ∀ expr ∈ moved, ColumnEq expr
  perm : (conjuncts selection).Perm (moved ++ conjuncts selection')
  conjunct : ∀ c ∈ conjuncts selection', c.Conjunct
  rebuilt : if changed then selection' = rebuildAnd (conjuncts selection') else selection' = selection

theorem Reduced.refl (h : ∀ c ∈ conjuncts selection, c.Conjunct) : Reduced selection selection [] false where
  columns := nofun
  perm := .refl _
  conjunct := h
  rebuilt := rfl

theorem Reduced.extract (hconjunct : ∀ c ∈ conjuncts selection, c.Conjunct)
    (h : crossJoinPredicate aliasMap leftTables selection join = some (onExpr, remaining)) :
    Reduced selection remaining [onExpr] true := by
  obtain ⟨-, heq, before, after, hsplit, rfl⟩ := crossJoinPredicate_some h
  have hrest : ∀ c ∈ before ++ after, c.Conjunct := by
    intro c hc
    refine hconjunct c (hsplit ▸ ?_)
    rcases List.mem_append.mp hc with hc | hc
    · exact List.mem_append_left _ hc
    · exact List.mem_append_right _ (List.mem_cons_of_mem _ hc)
  refine ⟨fun expr hexpr => ?_, ?_, ?_, ?_⟩
  · exact List.mem_singleton.mp hexpr ▸ heq
  · rw [conjuncts_rebuildAnd hrest, hsplit]
    exact List.perm_middle
  · rw [conjuncts_rebuildAnd hrest]
    exact hrest
  · exact congrArg rebuildAnd (conjuncts_rebuildAnd hrest).symm

theorem Reduced.trans {selection₁ selection₂ selection₃ : Option Expr} {moved moved' : List Expr}
    {changed changed' : Bool} (h : Reduced selection₁ selection₂ moved changed)
    (h' : Reduced selection₂ selection₃ moved' changed') :
    Reduced selection₁ selection₃ (moved ++ moved') (changed || changed') where
  columns expr hexpr := (List.mem_append.mp hexpr).elim (h.columns expr) (h'.columns expr)
  perm := by
    rw [List.append_assoc]
    exact h.perm.trans (h'.perm.append_left moved)
  conjunct := h'.conjunct
  rebuilt := by
    have hrebuilt := h.rebuilt
    have hrebuilt' := h'.rebuilt
    cases changed' with
    | true =>
      rw [Bool.or_true]
      exact hrebuilt'
    | false =>
      rw [Bool.or_false]
      obtain rfl : selection₃ = selection₂ := hrebuilt'
      exact hrebuilt

/-- What the walk over a join chain moves, where it may. -/
theorem normalizeJoins_reduced {refersTo : NameResolution} {before scope : List TableFactor} {joins : List Join}
    (hconjunct : ∀ c ∈ conjuncts selection, c.Conjunct)
    (hmovable : JoinsMovable refersTo aliasMap before scope leftTables selection joins) :
    ∃ moved, Reduced selection (normalizeJoins aliasMap leftTables selection joins).2.1 moved
        (normalizeJoins aliasMap leftTables selection joins).2.2 ∧
      (∀ expr ∈ moved, Belongs refersTo before (scope ++ joins.map (·.relation)) expr) ∧
      ∀ (V : Type) [DecidableEq V] (db : Database V) (rows : List (Env V)), (∀ l ∈ rows, tablesOf l = scope) →
        chainRows refersTo db scope rows (normalizeJoins aliasMap leftTables selection joins).1 =
          (chainRows refersTo db scope rows joins).filter (keptAll refersTo db moved) := by
  induction joins generalizing scope leftTables selection with
  | nil => exact ⟨[], .refl hconjunct, nofun, fun V _ db rows _ => (List.filter_eq_self.mpr fun _ _ => rfl).symm⟩
  | cons join joins ih =>
    rw [JoinsMovable] at hmovable
    have hscope : scope ++ (join :: joins).map (·.relation) = scope ++ [join.relation] ++ joins.map (·.relation) := by
      simp
    cases hpredicate : crossJoinPredicate aliasMap leftTables selection join with
    | none =>
      rw [hpredicate] at hmovable
      obtain ⟨moved, hreduced, hbelongs, hrows⟩ := ih hconjunct hmovable
      rw [normalizeJoins_none hpredicate, hscope]
      exact ⟨moved, hreduced, hbelongs, fun V _ db rows htables => hrows V db _ fun l hl =>
        tablesOf_joinRows htables hl⟩
    | some extracted =>
      obtain ⟨onExpr, remaining⟩ := extracted
      rw [hpredicate] at hmovable
      obtain ⟨hhere, hkeeps, hmovable⟩ := hmovable
      have hextract := Reduced.extract hconjunct hpredicate
      obtain ⟨moved, hreduced, hbelongs, hrows⟩ := ih hextract.conjunct hmovable
      rw [normalizeJoins_some hpredicate, hscope]
      refine ⟨onExpr :: moved, ?_, fun expr hexpr => ?_, fun V _ db rows htables => ?_⟩
      · exact hextract.trans hreduced
      · rcases List.mem_cons.mp hexpr with rfl | hexpr
        · refine ⟨fun idents hidents => ?_, hhere.2⟩
          obtain ⟨factor, hfactor, hrefers⟩ := hhere.1 idents hidents
          exact ⟨factor, List.mem_append_left _ hfactor, hrefers⟩
        · exact hbelongs expr hexpr
      · obtain ⟨hcross, heq, -⟩ := crossJoinPredicate_some hpredicate
        obtain ⟨relation, operator⟩ := join
        obtain rfl : operator = .crossJoin := hcross
        have hjoined : ∀ l ∈ joinRows refersTo db scope rows { relation, joinOperator := .crossJoin },
            tablesOf l = scope ++ [relation] := fun l hl => tablesOf_joinRows htables hl
        rw [chainRows, chainRows, joinRows_inner, hrows V db _ fun l hl => hjoined l (List.mem_filter.mp hl).1,
          chainRows_filter heq hkeeps hjoined hhere.1, List.filter_filter]
        exact List.filter_congr fun env _ => by rw [keptAll_cons, Bool.and_comm]

theorem normalizeTableWithJoins_reduced {refersTo : NameResolution} {before : List TableFactor} {twj : TableWithJoins}
    (hconjunct : ∀ c ∈ conjuncts selection, c.Conjunct)
    (hmovable : JoinsMovable refersTo aliasMap before [twj.relation] (tableRefName twj.relation).toList selection
      twj.joins) :
    ∃ moved, Reduced selection (normalizeTableWithJoins aliasMap twj selection).2.1 moved
        (normalizeTableWithJoins aliasMap twj selection).2.2 ∧
      (∀ expr ∈ moved, Belongs refersTo before (twj.relation :: twj.joins.map (·.relation)) expr) ∧
      ∀ (V : Type) [DecidableEq V] (db : Database V),
        (normalizeTableWithJoins aliasMap twj selection).1.rows refersTo db = (twj.rows refersTo db).filter
        (keptAll refersTo db moved) := by
  obtain ⟨moved, hreduced, hbelongs, hrows⟩ := normalizeJoins_reduced hconjunct hmovable
  exact ⟨moved, hreduced, hbelongs, fun V _ db => hrows V db _ fun l hl => tablesOf_factorRows hl⟩

theorem normalizeFrom_cons {twj : TableWithJoins} {tables : List TableWithJoins} :
    normalizeFrom aliasMap selection (twj :: tables) =
      ((normalizeTableWithJoins aliasMap twj selection).1 ::
        (normalizeFrom aliasMap (normalizeTableWithJoins aliasMap twj selection).2.1 tables).1,
      (normalizeFrom aliasMap (normalizeTableWithJoins aliasMap twj selection).2.1 tables).2.1,
      (normalizeTableWithJoins aliasMap twj selection).2.2 ||
        (normalizeFrom aliasMap (normalizeTableWithJoins aliasMap twj selection).2.1 tables).2.2) := rfl

theorem fromRows_filter {V : Type} [DecidableEq V] {refersTo : NameResolution} {db : Database V}
    {tables : List TableWithJoins} {scope : List TableFactor} {rows : List (Env V)} {moved : List Expr}
    (heq : ∀ c ∈ moved, ColumnEq c) (hrows : ∀ l ∈ rows, tablesOf l = scope)
    (hscope : ∀ c ∈ moved, InScope refersTo scope c) :
    fromRows refersTo db (rows.filter (keptAll refersTo db moved)) tables =
      (fromRows refersTo db rows tables).filter (keptAll refersTo db moved) := by
  induction tables generalizing scope rows with
  | nil => rfl
  | cons twj tables ih =>
    have hlocal : ∀ l ∈ rows, ∀ r ∈ twj.rows refersTo db,
        keptAll refersTo db moved (l ++ r) = keptAll refersTo db moved l :=
      fun l hl r _ => keptAll_append_left heq fun c hc => hrows l hl ▸ hscope c hc
    have htables : ∀ l ∈ loop rows fun _ => twj.rows refersTo db,
        tablesOf l = scope ++ twj.relation :: twj.joins.map (·.relation) := by
      intro x hx
      obtain ⟨l, hl, r, hr, rfl⟩ := mem_loop.mp hx
      rw [tablesOf_append, hrows l hl, tablesOf_rows hr]
    rw [fromRows, fromRows, loop_filter hlocal]
    refine ih htables fun c hc idents hidents => ?_
    obtain ⟨factor, hfactor, hrefers⟩ := hscope c hc idents hidents
    exact ⟨factor, List.mem_append_left _ hfactor, hrefers⟩

/-- What the walk over FROM moves, where it may. -/
theorem normalizeFrom_reduced {refersTo : NameResolution} {before : List TableFactor} {tables : List TableWithJoins}
    (hconjunct : ∀ c ∈ conjuncts selection, c.Conjunct)
    (hmovable : FromMovable refersTo aliasMap before selection tables) :
    ∃ moved, Reduced selection (normalizeFrom aliasMap selection tables).2.1 moved
        (normalizeFrom aliasMap selection tables).2.2 ∧
      ∀ (V : Type) [DecidableEq V] (db : Database V) (rows : List (Env V)), (∀ l ∈ rows, tablesOf l = before) →
        fromRows refersTo db rows (normalizeFrom aliasMap selection tables).1 =
          (fromRows refersTo db rows tables).filter (keptAll refersTo db moved) := by
  induction tables generalizing before selection with
  | nil => exact ⟨[], .refl hconjunct, fun V _ db rows _ => (List.filter_eq_self.mpr fun _ _ => rfl).symm⟩
  | cons twj tables ih =>
    obtain ⟨hhere, hlater⟩ := hmovable
    obtain ⟨moved, hreduced, hbelongs, hcomponent⟩ := normalizeTableWithJoins_reduced hconjunct hhere
    obtain ⟨moved', hreduced', hrows'⟩ := ih hreduced.conjunct hlater
    refine ⟨moved ++ moved', hreduced.trans hreduced', fun V _ db rows htables => ?_⟩
    have hlocal : ∀ l ∈ rows, ∀ r ∈ twj.rows refersTo db,
        keptAll refersTo db moved (l ++ r) = keptAll refersTo db moved r :=
      fun l hl r _ => keptAll_append_right hreduced.columns fun c hc idents hidents factor hfactor =>
        (hbelongs c hc).2 idents hidents factor (htables l hl ▸ hfactor)
    have hjoined : ∀ l ∈ loop rows fun _ => twj.rows refersTo db,
        tablesOf l = before ++ twj.relation :: twj.joins.map (·.relation) := by
      intro x hx
      obtain ⟨l, hl, r, hr, rfl⟩ := mem_loop.mp hx
      rw [tablesOf_append, htables l hl, tablesOf_rows hr]
    have hscope : ∀ c ∈ moved, InScope refersTo (before ++ twj.relation :: twj.joins.map (·.relation)) c := by
      intro c hc idents hidents
      obtain ⟨factor, hfactor, hrefers⟩ := (hbelongs c hc).1 idents hidents
      exact ⟨factor, List.mem_append_right _ hfactor, hrefers⟩
    rw [normalizeFrom_cons, fromRows, fromRows, hcomponent V db, loop_filter_right hlocal,
      hrows' V db _ fun l hl => hjoined l (List.mem_filter.mp hl).1, fromRows_filter hreduced.columns hjoined hscope,
      List.filter_filter]
    exact List.filter_congr fun env _ => by rw [keptAll_append, Bool.and_comm]

/-! ### Join conditions -/

theorem ColumnEq.parsed {expr : Expr} (h : ColumnEq expr) : expr.Parsed := by
  obtain ⟨a, b, rfl⟩ := h
  trivial

theorem normalizeJoins_parsed {joins : List Join} (h : ∀ join ∈ joins, ∀ expr ∈ join.joinOperator.onExpr, expr.Parsed) :
    ∀ join ∈ (normalizeJoins aliasMap leftTables selection joins).1, ∀ expr ∈ join.joinOperator.onExpr,
      expr.Parsed := by
  induction joins generalizing leftTables selection with
  | nil => exact nofun
  | cons join joins ih =>
    have ih := fun leftTables selection => @ih leftTables selection fun j hj => h j (List.mem_cons_of_mem _ hj)
    intro j hj expr hexpr
    cases hpredicate : crossJoinPredicate aliasMap leftTables selection join with
    | none =>
      rw [normalizeJoins_none hpredicate] at hj
      rcases List.mem_cons.mp hj with rfl | hj
      · exact h j List.mem_cons_self expr hexpr
      · exact ih _ _ j hj expr hexpr
    | some extracted =>
      rw [normalizeJoins_some hpredicate] at hj
      rcases List.mem_cons.mp hj with rfl | hj
      · obtain rfl : extracted.1 = expr := Option.some.inj hexpr
        exact (crossJoinPredicate_some hpredicate).2.1.parsed
      · exact ih _ _ j hj expr hexpr

theorem normalizeFrom_parsed {tables : List TableWithJoins}
    (h : ∀ twj ∈ tables, ∀ join ∈ twj.joins, ∀ expr ∈ join.joinOperator.onExpr, expr.Parsed) :
    ∀ twj ∈ (normalizeFrom aliasMap selection tables).1, ∀ join ∈ twj.joins,
      ∀ expr ∈ join.joinOperator.onExpr, expr.Parsed := by
  induction tables generalizing selection with
  | nil => exact nofun
  | cons twj tables ih =>
    rw [normalizeFrom_cons]
    intro t ht
    rcases List.mem_cons.mp ht with rfl | ht
    · exact normalizeJoins_parsed (h twj List.mem_cons_self)
    · exact ih (fun t ht => h t (List.mem_cons_of_mem _ ht)) t ht

theorem normalizeJoins_scoped {refersTo : NameResolution} {before scope : List TableFactor} {joins : List Join}
    (hmovable : JoinsMovable refersTo aliasMap before scope leftTables selection joins)
    (h : JoinsScoped refersTo scope joins) :
    JoinsScoped refersTo scope (normalizeJoins aliasMap leftTables selection joins).1 := by
  induction joins generalizing scope leftTables selection with
  | nil => trivial
  | cons join joins ih =>
    rw [JoinsMovable] at hmovable
    cases hpredicate : crossJoinPredicate aliasMap leftTables selection join with
    | none =>
      rw [hpredicate] at hmovable
      rw [normalizeJoins_none hpredicate]
      exact ⟨h.1, ih hmovable h.2⟩
    | some extracted =>
      rw [hpredicate] at hmovable
      rw [normalizeJoins_some hpredicate]
      refine ⟨fun expr hexpr => ?_, ih hmovable.2.2 h.2⟩
      obtain rfl : extracted.1 = expr := Option.some.inj hexpr
      exact hmovable.1.1

theorem normalizeFrom_scoped {refersTo : NameResolution} {before : List TableFactor} {tables : List TableWithJoins}
    (hmovable : FromMovable refersTo aliasMap before selection tables)
    (h : ∀ twj ∈ tables, JoinsScoped refersTo [twj.relation] twj.joins) :
    ∀ twj ∈ (normalizeFrom aliasMap selection tables).1, JoinsScoped refersTo [twj.relation] twj.joins := by
  induction tables generalizing selection before with
  | nil => exact nofun
  | cons twj tables ih =>
    obtain ⟨hhere, hlater⟩ := hmovable
    rw [normalizeFrom_cons]
    intro t ht
    rcases List.mem_cons.mp ht with rfl | ht
    · exact normalizeJoins_scoped hhere (h twj List.mem_cons_self)
    · exact ih hlater (fun t ht => h t (List.mem_cons_of_mem _ ht)) t ht

end Extract

/-! ### The text that is returned -/

theorem JoinOperator.reparse_eq {operator : JoinOperator} (h : ∀ expr ∈ operator.onExpr, expr.Parsed) :
    operator.reparse = operator := by
  have hconstraint : ∀ constraint : JoinConstraint, (∀ expr, constraint = .on expr → expr.Parsed) →
      constraint.reparse = constraint := by
    intro constraint hon
    cases constraint with
    | on expr => exact congrArg _ (Expr.reparse_eq (hon expr rfl))
    | _ => rfl
  cases operator with
  | crossJoin => rfl
  | inner constraint => exact congrArg _ (hconstraint constraint fun expr he => h expr (he ▸ rfl))
  | leftOuter constraint => exact congrArg _ (hconstraint constraint fun expr he => h expr (he ▸ rfl))
  | rightOuter constraint => exact congrArg _ (hconstraint constraint fun expr he => h expr (he ▸ rfl))
  | fullOuter constraint => exact congrArg _ (hconstraint constraint fun expr he => h expr (he ▸ rfl))

theorem Select.Parsed.reparse_eq {select : Select} (h : select.Parsed) : select.reparse = select := by
  have hjoins : ∀ twj ∈ select.tables, twj.reparse = twj := by
    intro twj htwj
    have hjoin : ∀ join ∈ twj.joins, { join with joinOperator := join.joinOperator.reparse } = join :=
      fun join hjoin => congrArg (Join.mk join.relation) (JoinOperator.reparse_eq (h.on twj htwj join hjoin))
    exact congrArg (TableWithJoins.mk twj.relation) ((List.map_congr_left hjoin).trans (List.map_id _))
  have hselection : select.selection.map (·.reparse) = select.selection := by
    cases hexpr : select.selection with
    | none => rfl
    | some expr => exact congrArg some (Expr.reparse_eq (h.selection expr hexpr))
  rw [Select.reparse, hselection, (List.map_congr_left hjoins).trans (List.map_id _)]

section Select
variable {refersTo : NameResolution} {select : Select}

theorem Select.Parsed.conjunct (h : select.Parsed) : ∀ c ∈ conjuncts select.selection, c.Conjunct := by
  cases hexpr : select.selection with
  | none => exact nofun
  | some expr => exact (h.selection expr hexpr).conjuncts

theorem normalizeSelect_reduced (hparsed : select.Parsed) (hsafe : select.Safe refersTo) :
    ∃ moved, Reduced select.selection (normalizeSelect select).1.selection moved (normalizeSelect select).2 ∧
      ∀ (V : Type) [DecidableEq V] (db : Database V), fromRows refersTo db [[]] (normalizeSelect select).1.tables =
        (fromRows refersTo db [[]] select.tables).filter (keptAll refersTo db moved) := by
  obtain ⟨moved, hreduced, hrows⟩ := normalizeFrom_reduced hparsed.conjunct hsafe.movable
  exact ⟨moved, hreduced, fun V _ db => hrows V db [[]] fun l hl => List.mem_singleton.mp hl ▸ rfl⟩

theorem normalizeSelect_parsed (hparsed : select.Parsed) (hsafe : select.Safe refersTo) :
    (normalizeSelect select).1.Parsed where
  selection := by
    obtain ⟨moved, hreduced, -⟩ := normalizeSelect_reduced hparsed hsafe
    have hrebuilt := hreduced.rebuilt
    split_ifs at hrebuilt with hchanged
    · intro expr hexpr
      rw [hrebuilt] at hexpr
      exact parsed_rebuildAnd hreduced.conjunct (hsafe.readable hchanged) expr hexpr
    · rw [hrebuilt]
      exact hparsed.selection
  on := normalizeFrom_parsed hparsed.on

theorem normalizeSelect_scoped (hsafe : select.Safe refersTo) (h : select.Scoped refersTo) :
    (normalizeSelect select).1.Scoped refersTo :=
  normalizeFrom_scoped hsafe.movable h

theorem normalizeSelect_rows {V : Type} [DecidableEq V] {db : Database V} (hparsed : select.Parsed)
    (hsafe : select.Safe refersTo) : (normalizeSelect select).1.rows refersTo db = select.rows refersTo db := by
  obtain ⟨moved, hreduced, hrows⟩ := normalizeSelect_reduced hparsed hsafe
  rw [Select.rows, Select.rows, hrows V db, List.filter_filter]
  refine List.filter_congr fun env _ => ?_
  rw [kept_selection, kept_selection, hreduced.perm.all_eq, List.all_append, Bool.and_comm]
  rfl

/-- A SELECT is normalized without a change of what it returns. -/
structure Kept (refersTo : NameResolution) (select : Select) : Prop where
  parsed : select.Parsed
  safe : select.Safe refersTo

theorem Kept.reparse_eq (h : Kept refersTo select) : (normalizeSelect select).1.reparse = (normalizeSelect select).1 :=
  (normalizeSelect_parsed h.parsed h.safe).reparse_eq

theorem Kept.rows {V : Type} [DecidableEq V] {db : Database V} (h : Kept refersTo select) :
    (normalizeSelect select).1.reparse.rows refersTo db = select.rows refersTo db := by
  rw [h.reparse_eq, normalizeSelect_rows h.parsed h.safe]

theorem Kept.scoped (h : Kept refersTo select) (hscoped : select.Scoped refersTo) :
    (normalizeSelect select).1.reparse.Scoped refersTo := by
  rw [h.reparse_eq]
  exact normalizeSelect_scoped h.safe hscoped

end Select

theorem normalizeSetExpr_selects (expr : SetExpr) :
    (normalizeSetExpr expr).1.reparse.selects = expr.selects.map fun s => (normalizeSelect s).1.reparse := by
  induction expr with
  | select s => rfl
  | query body rest ih => exact ih
  | setOperation op left right ihl ihr =>
    rw [SetExpr.selects, List.map_append, ← ihl, ← ihr]
    rfl
  | other text => rfl

theorem normalizeStatement_selects (statement : Statement) :
    (normalizeStatement statement).1.reparse.selects = statement.selects.map fun s =>
      (normalizeSelect s).1.reparse := by
  cases statement with
  | query body rest => exact normalizeSetExpr_selects body
  | other text => rfl

section Meaning
variable {V : Type} [DecidableEq V] {refersTo : NameResolution} {db : Database V}

theorem normalizeSetExpr_meaning {expr : SetExpr} (h : ∀ s ∈ expr.selects, Kept refersTo s) :
    (normalizeSetExpr expr).1.reparse.meaning refersTo db = expr.meaning refersTo db := by
  induction expr with
  | select s => exact congrArg (fun rows => db.project s.rest (Multiset.ofList rows)) (h s List.mem_cons_self).rows
  | query body rest ih => exact congrArg (db.clauses rest) (ih h)
  | setOperation op left right ihl ihr =>
    have hl := ihl fun s hs => h s (List.mem_append_left _ hs)
    have hr := ihr fun s hs => h s (List.mem_append_right _ hs)
    exact congrArg₂ (db.combine op) hl hr
  | other text => rfl

theorem normalizeStatement_meaning {statement : Statement} (h : ∀ s ∈ statement.selects, Kept refersTo s) :
    (normalizeStatement statement).1.reparse.meaning refersTo db = statement.meaning refersTo db := by
  cases statement with
  | query body rest => exact congrArg (fun result => some (db.clauses rest result)) (normalizeSetExpr_meaning h)
  | other text => rfl

end Meaning

/-- The normalization keeps the meaning where what it moves may move and what it leaves can be read. -/
theorem meaningKept (refersTo : NameResolution) (statements : List Statement)
    (hparsed : ∀ statement ∈ statements, ∀ select ∈ statement.selects, select.Parsed)
    (hsafe : ∀ statement ∈ statements, ∀ select ∈ statement.selects, select.Safe refersTo) :
    MeaningKept refersTo statements := by
  have hkept : ∀ statement ∈ statements, ∀ select ∈ statement.selects, Kept refersTo select :=
    fun statement h select hs => ⟨hparsed statement h select hs, hsafe statement h select hs⟩
  refine ⟨fun hscoped => ?_, fun V _ db => ?_⟩
  · rw [normalizeCrossJoins]
    split
    · intro statement hstatement select hselect
      rw [List.map_map] at hstatement
      obtain ⟨given, hgiven, rfl⟩ := List.mem_map.mp hstatement
      rw [Function.comp_apply, normalizeStatement_selects] at hselect
      obtain ⟨s, hs, rfl⟩ := List.mem_map.mp hselect
      exact (hkept given hgiven s hs).scoped (hscoped given hgiven s hs)
    · exact hscoped
  · rw [normalizeCrossJoins]
    split
    · rw [List.map_map, List.map_map]
      exact List.map_congr_left fun statement h => normalizeStatement_meaning (hkept statement h)
    · rfl

/-! ### On queries -/

/-- A table is referred to by its alias, or else by its name. -/
def refersByName : NameResolution := fun factor qualifier =>
  match qualifier.getLast?, tableRefName factor with
  | some ident, some name => eqIgnoreAsciiCase ident.value name
  | _, _ => false

def table (name : String) (tableAlias : Option String) : TableFactor :=
  .table [{ value := name }] (tableAlias.map fun a => { name := { value := a } }) ""

def column (table name : String) : Expr := .compoundIdentifier [{ value := table }, { value := name }]

def selectFrom (first : TableFactor) (joins : List Join) (condition : Expr) : Select :=
  { tables := [{ relation := first, joins }], selection := some condition, rest := "*" }

/-- `SELECT * FROM a CROSS JOIN b WHERE a.id = b.a_id AND status` -/
def joinedSelect : Select :=
  selectFrom (table "a" none) [⟨table "b" none, .crossJoin⟩]
    (.binaryOp (.binaryOp (column "a" "id") .eq (column "b" "a_id")) .and (.other "status"))

theorem joinedSelect_meaningKept : MeaningKept refersByName [.query (.select joinedSelect) ""] := by
  have hparsed : joinedSelect.Parsed :=
    ⟨fun _ h => Option.some.inj h ▸ ⟨trivial, trivial, rfl, rfl, rfl⟩, fun twj htwj join hjoin expr hexpr => by
      obtain rfl := List.mem_singleton.mp htwj
      obtain rfl := List.mem_singleton.mp hjoin
      cases hexpr⟩
  have hsafe : joinedSelect.Safe refersByName := by decide +kernel
  refine meaningKept refersByName _ (fun statement hstatement select hselect => ?_)
    fun statement hstatement select hselect => ?_
  · obtain rfl := List.mem_singleton.mp hstatement
    exact List.mem_singleton.mp hselect ▸ hparsed
  · obtain rfl := List.mem_singleton.mp hstatement
    exact List.mem_singleton.mp hselect ▸ hsafe

/-- `SELECT * FROM a CROSS JOIN b WHERE a.id = b.a_id AND (x OR y) AND z` -/
def disjunctionSelect : Select :=
  selectFrom (table "a" none) [⟨table "b" none, .crossJoin⟩]
    (.binaryOp (.binaryOp (.binaryOp (column "a" "id") .eq (column "b" "a_id")) .and
      (.nested (.binaryOp (.other "x") .or (.other "y")))) .and (.other "z"))

/-- `SELECT * FROM t a CROSS JOIN t b CROSS JOIN t c WHERE a.x = c.y` -/
def selfJoinSelect : Select :=
  selectFrom (table "t" "a") [⟨table "t" "b", .crossJoin⟩, ⟨table "t" "c", .crossJoin⟩]
    (.binaryOp (column "a" "x") .eq (column "c" "y"))

/-- `SELECT * FROM a CROSS JOIN b RIGHT JOIN c ON b.k = c.k WHERE a.id = b.a_id` -/
def rightJoinSelect : Select :=
  selectFrom (table "a" none) [⟨table "b" none, .crossJoin⟩,
    ⟨table "c" none, .rightOuter (.on (.binaryOp (column "b" "k") .eq (column "c" "k")))⟩]
    (.binaryOp (column "a" "id") .eq (column "b" "a_id"))

/-- One row in every table, with 0 as the `id` of `a` and `others` in the other columns. Of other conditions only `x` is
    true. -/
def oneRow (others : Nat) : Database Nat where
  rows _ := [fun idents => some (if idents.map (·.value) = ["a", "id"] then 0 else others)]
  truth expr _ := some (expr = .other "x")
  agrees _ _ _ := true
  project _ := Multiset.map fun _ => []
  clauses _ result := result
  combine _ left _ := left
  values _ := Multiset.ofList []

theorem meaning_not_kept :
    ¬ MeaningKept refersByName [.query (.select disjunctionSelect) ""] ∧
      ¬ MeaningKept refersByName [.query (.select selfJoinSelect) ""] ∧
      ¬ MeaningKept refersByName [.query (.select rightJoinSelect) ""] := by
  refine ⟨fun h => ?_, fun h => ?_, fun h => ?_⟩
  · exact absurd (h.rows Nat (oneRow 0)) (by decide +kernel)
  · exact absurd (h.onScoped (by decide +kernel)) (by decide +kernel)
  · exact absurd (h.rows Nat (oneRow 1)) (by decide +kernel)

end Reiver.Pond.JoinNormalize
