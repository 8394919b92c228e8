import Reiver.Pond.Query.ColumnPruning

/-! # Columns that are pruned away

A reference stands in the scopes of the selects around it. What the walk collects are the references at the positions
it visits; a table keeps its columns exactly if each that is referred to anywhere is named at one of these, under a
qualifier that leads to the table. -/

namespace Reiver.Pond

/-! ### References and their scopes -/

/-- A relation of a FROM clause; `table` is its name where it is a table of the warehouse. -/
structure ScopeEntry where
  qualifier : String
  table : Option ObjectName
deriving DecidableEq

/-- The relations of the selects around a reference, the innermost first. -/
abbrev Frames := List (List ScopeEntry)

/-- A name of one part that a common table expression binds is no table. -/
def tableOf (ctes : List String) (name : ObjectName) : Option ObjectName :=
  match name with
  | [ident] => if ident.value ∈ ctes then none else some name
  | _ => some name

def aliasName (tableAlias : Option TableAlias) : String := (tableAlias.map (·.name.value)).getD ""

def fromEntries (ctes : List String) : {k : AstKind} → Ast k → List ScopeEntry
  | _, .cons a as => fromEntries ctes a ++ fromEntries ctes as
  | _, .tableWithJoins relation joins => fromEntries ctes relation ++ fromEntries ctes joins
  | _, .join _ relation _ => fromEntries ctes relation
  | _, .otherJoin relation _ => fromEntries ctes relation
  | _, .table name tableAlias _ => [⟨(tableAlias.map (·.name.value)).getD (shortName name), tableOf ctes name⟩]
  | _, .derived _ tableAlias => [⟨aliasName tableAlias, none⟩]
  | _, .nestedJoin tableWithJoins tableAlias =>
    let entries := fromEntries ctes tableWithJoins
    match tableAlias with
    | some tableAlias => entries.map fun e => { e with qualifier := tableAlias.name.value }
    | none => entries
  | _, .functionFactor _ _ _ tableAlias => [⟨aliasName tableAlias, none⟩]
  | _, .otherFactor tables _ => fromEntries ctes tables
  | _, _ => []

/-- The relations that the ORDER BY of a query sees. -/
def bodyEntries (ctes : List String) : {k : AstKind} → Ast k → List ScopeEntry
  | _, .selectSetExpr select => bodyEntries ctes select
  | _, .select _ from' _ _ _ _ => fromEntries ctes from'
  | _, _ => []

inductive ColumnUse where
  | reference (idents : List Ident)
  | wildcard
deriving DecidableEq

structure ScopedUse where
  frames : Frames
  use : ColumnUse

/-- All references to columns and all wildcards of select lists, wherever they stand. -/
def columnUses : {k : AstKind} → (ctes : List String) → Frames → Ast k → List ScopedUse
  | _, _, _, .nil => []
  | _, ctes, fs, .cons a as => columnUses ctes fs a ++ columnUses ctes fs as
  | _, _, _, .none => []
  | _, ctes, fs, .some a => columnUses ctes fs a
  | _, _, fs, .identifier ident => [⟨fs, .reference [ident]⟩]
  | _, _, fs, .compoundIdentifier idents => [⟨fs, .reference idents⟩]
  | _, _, _, .value _ => []
  | _, ctes, fs, .subquery query => columnUses ctes fs query
  | _, ctes, fs, .inSubquery expr subquery _ => columnUses ctes fs expr ++ columnUses ctes fs subquery
  | _, ctes, fs, .existsQuery subquery _ => columnUses ctes fs subquery
  | _, ctes, fs, .binaryOp left _ right => columnUses ctes fs left ++ columnUses ctes fs right
  | _, ctes, fs, .unaryOp _ expr => columnUses ctes fs expr
  | _, ctes, fs, .nested expr => columnUses ctes fs expr
  | _, ctes, fs, .between expr _ low high =>
    columnUses ctes fs expr ++ columnUses ctes fs low ++ columnUses ctes fs high
  | _, ctes, fs, .isNull expr => columnUses ctes fs expr
  | _, ctes, fs, .isNotNull expr => columnUses ctes fs expr
  | _, ctes, fs, .like _ expr pattern => columnUses ctes fs expr ++ columnUses ctes fs pattern
  | _, ctes, fs, .inList expr list _ => columnUses ctes fs expr ++ columnUses ctes fs list
  | _, ctes, fs, .case operand conditions results elseResult =>
    columnUses ctes fs operand ++ columnUses ctes fs conditions ++ columnUses ctes fs results ++
      columnUses ctes fs elseResult
  | _, ctes, fs, .cast expr => columnUses ctes fs expr
  | _, ctes, fs, .function _ args filter window rest =>
    columnUses ctes fs args ++ columnUses ctes fs filter ++ columnUses ctes fs window ++ columnUses ctes fs rest
  | _, ctes, fs, .otherExpr rest => columnUses ctes fs rest
  | _, ctes, fs, .unnamedArg expr => columnUses ctes fs expr
  | _, ctes, fs, .namedArg _ expr => columnUses ctes fs expr
  | _, _, _, .wildcardArg => []
  | _, _, _, .noArgs => []
  | _, ctes, fs, .subqueryArgs query => columnUses ctes fs query
  | _, ctes, fs, .listArgs args rest => columnUses ctes fs args ++ columnUses ctes fs rest
  | _, ctes, fs, .windowSpec partitionBy orderBy rest =>
    columnUses ctes fs partitionBy ++ columnUses ctes fs orderBy ++ columnUses ctes fs rest
  | _, ctes, fs, .query with' body orderBy rest =>
    let inner := cteNames with' ++ ctes
    columnUses ctes fs with' ++ columnUses inner fs body ++
      columnUses inner (bodyEntries inner body :: fs) orderBy ++ columnUses inner (bodyEntries inner body :: fs) rest
  | _, _, _, .noCte => []
  | _, ctes, fs, .cte (r := true) name query tail =>
    columnUses (name.value :: ctes) fs query ++ columnUses (name.value :: ctes) fs tail
  | _, ctes, fs, .cte (r := false) name query tail =>
    columnUses ctes fs query ++ columnUses (name.value :: ctes) fs tail
  | _, ctes, fs, .selectSetExpr select => columnUses ctes fs select
  | _, ctes, fs, .querySetExpr query => columnUses ctes fs query
  | _, ctes, fs, .setOperation left right => columnUses ctes fs left ++ columnUses ctes fs right
  | _, ctes, fs, .otherSetExpr _ rest => columnUses ctes fs rest
  | _, ctes, fs, .select projection from' selection having groupBy rest =>
    let own := fromEntries ctes from' :: fs
    columnUses ctes own projection ++ columnUses ctes own from' ++ columnUses ctes own selection ++
      columnUses ctes own having ++ columnUses ctes own groupBy ++ columnUses ctes own rest
  | _, ctes, fs, .unnamedExpr expr => columnUses ctes fs expr
  | _, ctes, fs, .exprWithAlias expr _ => columnUses ctes fs expr
  | _, ctes, fs, .wildcard rest => ⟨fs, .wildcard⟩ :: columnUses ctes fs rest
  | _, ctes, fs, .tableWithJoins relation joins => columnUses ctes fs relation ++ columnUses ctes fs joins
  | _, ctes, fs, .join _ relation on => columnUses ctes fs relation ++ columnUses ctes fs on
  | _, ctes, fs, .otherJoin relation rest => columnUses ctes fs relation ++ columnUses ctes fs rest
  | _, ctes, fs, .table _ _ rest => columnUses ctes fs rest
  | _, ctes, fs, .derived subquery _ => columnUses ctes fs subquery
  | _, ctes, fs, .nestedJoin tableWithJoins _ => columnUses ctes fs tableWithJoins
  | _, ctes, fs, .functionFactor _ _ args _ => columnUses ctes fs args
  | _, ctes, fs, .otherFactor tables rest => columnUses ctes fs tables ++ columnUses ctes fs rest

def columnOf (idents : List Ident) : Option String := idents.getLast?.map (·.value)

/-- The part before the last one; empty where there is none. -/
def qualifierOf (idents : List Ident) : String := (idents.reverse[1]?.map (·.value)).getD ""

/-- How the engine finds the column that is referred to: in a relation in scope, of the name before the column if there
    is one. What stands after the column leads into it, as a tuple or a nested column. -/
structure NameResolution where
  resolve : Frames → List Ident → Option (ScopeEntry × String)
  inScope : ∀ frames idents e column, resolve frames idents = some (e, column) → ∃ frame ∈ frames, e ∈ frame
  qualified : ∀ frames idents e column, resolve frames idents = some (e, column) →
    ∃ before parts after, idents = before ++ parts ++ after ∧ parts ≠ [] ∧
      column = ".".intercalate (parts.map (·.value)) ∧ ∀ qualifier ∈ before.getLast?, e.qualifier = qualifier.value

/-! ### The positions that are visited -/

/-- The reference stands where the walk looks. -/
inductive VisitedRef : {k : AstKind} → Ast k → List Ident → Prop
  | identifier (ident : Ident) : VisitedRef (.identifier ident) [ident]
  | compound (idents : List Ident) (h : 2 ≤ idents.length) : VisitedRef (.compoundIdentifier idents) idents
  | head {k : AstKind} {a : Ast k} {as : Ast (.vec k)} {r : List Ident} (h : VisitedRef a r) : VisitedRef (.cons a as) r
  | tail {k : AstKind} {a : Ast k} {as : Ast (.vec k)} {r : List Ident} (h : VisitedRef as r) :
    VisitedRef (.cons a as) r
  | some {k : AstKind} {a : Ast k} {r : List Ident} (h : VisitedRef a r) : VisitedRef (.some a) r
  | ctes {b : Bool} {w : Ast (.ctes b)} {body o rest r} (h : VisitedRef w r) : VisitedRef (.query w body o rest) r
  | body {b : Bool} {w : Ast (.ctes b)} {body o rest r} (h : VisitedRef body r) : VisitedRef (.query w body o rest) r
  | orderBy {b : Bool} {w : Ast (.ctes b)} {body o rest r} (h : VisitedRef o r) : VisitedRef (.query w body o rest) r
  | cte {b : Bool} {name query} {t : Ast (.ctes b)} {r} (h : VisitedRef query r) : VisitedRef (.cte name query t) r
  | laterCte {b : Bool} {name query} {t : Ast (.ctes b)} {r} (h : VisitedRef t r) : VisitedRef (.cte name query t) r
  | select {s r} (h : VisitedRef s r) : VisitedRef (.selectSetExpr s) r
  | parenthesized {q r} (h : VisitedRef q r) : VisitedRef (.querySetExpr q) r
  | leftBranch {l l' r} (h : VisitedRef l r) : VisitedRef (.setOperation l l') r
  | rightBranch {l l' r} (h : VisitedRef l' r) : VisitedRef (.setOperation l l') r
  | projection {p f s hv g rest r} (h : VisitedRef p r) : VisitedRef (.select p f s hv g rest) r
  | selection {p f s hv g rest r} (h : VisitedRef s r) : VisitedRef (.select p f s hv g rest) r
  | groupBy {p f s hv g rest r} (h : VisitedRef g r) : VisitedRef (.select p f s hv g rest) r
  | having {p f s hv g rest r} (h : VisitedRef hv r) : VisitedRef (.select p f s hv g rest) r
  | unnamedExpr {e r} (h : VisitedRef e r) : VisitedRef (.unnamedExpr e) r
  | exprWithAlias {e c r} (h : VisitedRef e r) : VisitedRef (.exprWithAlias e c) r
  | left {l op l' r} (h : VisitedRef l r) : VisitedRef (.binaryOp l op l') r
  | right {l op l' r} (h : VisitedRef l' r) : VisitedRef (.binaryOp l op l') r
  | arguments {n a f w rest r} (h : VisitedRef a r) : VisitedRef (.function n a f w rest) r
  | listArgs {a rest r} (h : VisitedRef a r) : VisitedRef (.listArgs a rest) r
  | unnamedArg {e r} (h : VisitedRef e r) : VisitedRef (.unnamedArg e) r
  | namedArg {n e r} (h : VisitedRef e r) : VisitedRef (.namedArg n e) r
  | nested {e r} (h : VisitedRef e r) : VisitedRef (.nested e) r
  | isNull {e r} (h : VisitedRef e r) : VisitedRef (.isNull e) r
  | isNotNull {e r} (h : VisitedRef e r) : VisitedRef (.isNotNull e) r
  | unaryOp {op e r} (h : VisitedRef e r) : VisitedRef (.unaryOp op e) r
  | member {e l n r} (h : VisitedRef e r) : VisitedRef (.inList e l n) r
  | list {e l n r} (h : VisitedRef l r) : VisitedRef (.inList e l n) r
  | between {e n lo hi r} (h : VisitedRef e r) : VisitedRef (.between e n lo hi) r
  | low {e n lo hi r} (h : VisitedRef lo r) : VisitedRef (.between e n lo hi) r
  | high {e n lo hi r} (h : VisitedRef hi r) : VisitedRef (.between e n lo hi) r
  | operand {o c rs el r} (h : VisitedRef o r) : VisitedRef (.case o c rs el) r
  | conditions {o c rs el r} (h : VisitedRef c r) : VisitedRef (.case o c rs el) r
  | results {o c rs el r} (h : VisitedRef rs r) : VisitedRef (.case o c rs el) r
  | elseResult {o c rs el r} (h : VisitedRef el r) : VisitedRef (.case o c rs el) r
  | cast {e r} (h : VisitedRef e r) : VisitedRef (.cast e) r
  | like {n e p r} (h : VisitedRef e r) : VisitedRef (.like n e p) r
  | pattern {n e p r} (h : VisitedRef p r) : VisitedRef (.like n e p) r
  | subquery {q r} (h : VisitedRef q r) : VisitedRef (.subquery q) r
  | inSubquery {e q n r} (h : VisitedRef e r) : VisitedRef (.inSubquery e q n) r
  | ofSubquery {e q n r} (h : VisitedRef q r) : VisitedRef (.inSubquery e q n) r
  | exists' {q n r} (h : VisitedRef q r) : VisitedRef (.existsQuery q n) r

/-- A wildcard stands in a select list of the query itself. -/
inductive TopWildcard : {k : AstKind} → Ast k → Prop
  | wildcard {rest} : TopWildcard (.wildcard rest)
  | head {k : AstKind} {a : Ast k} {as : Ast (.vec k)} (h : TopWildcard a) : TopWildcard (.cons a as)
  | tail {k : AstKind} {a : Ast k} {as : Ast (.vec k)} (h : TopWildcard as) : TopWildcard (.cons a as)
  | projection {p f s hv g rest} (h : TopWildcard p) : TopWildcard (.select p f s hv g rest)
  | select {s} (h : TopWildcard s) : TopWildcard (.selectSetExpr s)
  | parenthesized {q} (h : TopWildcard q) : TopWildcard (.querySetExpr q)
  | leftBranch {l l'} (h : TopWildcard l) : TopWildcard (.setOperation l l')
  | rightBranch {l l'} (h : TopWildcard l') : TopWildcard (.setOperation l l')
  | body {b : Bool} {w : Ast (.ctes b)} {body o rest} (h : TopWildcard body) : TopWildcard (.query w body o rest)

section Walks
variable {k : AstKind} {a : Ast k}

theorem queryHasWildcard_iff : queryHasWildcard a = true ↔ TopWildcard a := by
  constructor
  · intro h
    induction a with
    | cons a as iha ihas => exact (Bool.or_eq_true_iff.mp h).elim (fun h => .head (iha h)) fun h => .tail (ihas h)
    | wildcard rest => exact .wildcard
    | select p f s hv g rest ihp => exact .projection (ihp h)
    | selectSetExpr s ih => exact .select (ih h)
    | querySetExpr q ih => exact .parenthesized (ih h)
    | setOperation l r ihl ihr =>
      exact (Bool.or_eq_true_iff.mp h).elim (fun h => .leftBranch (ihl h)) fun h => .rightBranch (ihr h)
    | query w body o rest ihw ihbody => exact .body (ihbody h)
    | _ => exact absurd h Bool.false_ne_true
  · intro h
    induction h with
    | wildcard => rfl
    | head h ih => exact Bool.or_eq_true_iff.mpr (Or.inl ih)
    | tail h ih => exact Bool.or_eq_true_iff.mpr (Or.inr ih)
    | projection h ih => exact ih
    | select h ih => exact ih
    | parenthesized h ih => exact ih
    | leftBranch h ih => exact Bool.or_eq_true_iff.mpr (Or.inl ih)
    | rightBranch h ih => exact Bool.or_eq_true_iff.mpr (Or.inr ih)
    | body h ih => exact ih

def Collects (r : List Ident) (e : String × String) : Prop := qualifierOf r = e.1 ∧ columnOf r = some e.2

/-- The last two parts of a name, from its end. -/
def lastParts : List Ident → List (String × String)
  | column :: table :: _ => [(table.value, column.value)]
  | _ => []

theorem collectColumns_compound (idents : List Ident) :
    collectColumns (.compoundIdentifier idents) = lastParts idents.reverse := rfl

theorem collects_compound {idents : List Ident} {e : String × String} :
    e ∈ collectColumns (.compoundIdentifier idents) ↔ 2 ≤ idents.length ∧ Collects idents e := by
  obtain ⟨key, col⟩ := e
  rw [collectColumns_compound, Collects, qualifierOf, columnOf, List.getLast?_eq_head?_reverse, ← List.length_reverse]
  rcases idents.reverse with _ | ⟨column, _ | ⟨table, rest⟩⟩
  · simp [lastParts]
  · simp [lastParts]
  · simp [lastParts, eq_comm]

theorem visitedRef_of_mem {e : String × String} (h : e ∈ collectColumns a) : ∃ r, VisitedRef a r ∧ Collects r e := by
  induction a with
  | identifier ident =>
    cases List.mem_singleton.mp h
    exact ⟨[ident], .identifier ident, rfl, rfl⟩
  | compoundIdentifier idents =>
    obtain ⟨hlen, hcollects⟩ := collects_compound.mp h
    exact ⟨idents, .compound idents hlen, hcollects⟩
  | cons a as iha ihas =>
    rcases List.mem_append.mp h with h | h
    · exact (iha h).imp fun r hr => ⟨.head hr.1, hr.2⟩
    · exact (ihas h).imp fun r hr => ⟨.tail hr.1, hr.2⟩
  | some a ih => exact (ih h).imp fun r hr => ⟨.some hr.1, hr.2⟩
  | query w body o rest ihw ihbody iho =>
    rcases List.mem_append.mp h with h | h
    · rcases List.mem_append.mp h with h | h
      · exact (ihw h).imp fun r hr => ⟨.ctes hr.1, hr.2⟩
      · exact (ihbody h).imp fun r hr => ⟨.body hr.1, hr.2⟩
    · exact (iho h).imp fun r hr => ⟨.orderBy hr.1, hr.2⟩
  | cte name query tail ihq iht =>
    rcases List.mem_append.mp h with h | h
    · exact (ihq h).imp fun r hr => ⟨.cte hr.1, hr.2⟩
    · exact (iht h).imp fun r hr => ⟨.laterCte hr.1, hr.2⟩
  | selectSetExpr s ih => exact (ih h).imp fun r hr => ⟨.select hr.1, hr.2⟩
  | querySetExpr q ih => exact (ih h).imp fun r hr => ⟨.parenthesized hr.1, hr.2⟩
  | setOperation l l' ihl ihr =>
    rcases List.mem_append.mp h with h | h
    · exact (ihl h).imp fun r hr => ⟨.leftBranch hr.1, hr.2⟩
    · exact (ihr h).imp fun r hr => ⟨.rightBranch hr.1, hr.2⟩
  | select p f s hv g rest ihp ihf ihs ihhv ihg =>
    rcases List.mem_append.mp h with h | h
    · rcases List.mem_append.mp h with h | h
      · rcases List.mem_append.mp h with h | h
        · exact (ihp h).imp fun r hr => ⟨.projection hr.1, hr.2⟩
        · exact (ihs h).imp fun r hr => ⟨.selection hr.1, hr.2⟩
      · exact (ihg h).imp fun r hr => ⟨.groupBy hr.1, hr.2⟩
    · exact (ihhv h).imp fun r hr => ⟨.having hr.1, hr.2⟩
  | unnamedExpr e ih => exact (ih h).imp fun r hr => ⟨.unnamedExpr hr.1, hr.2⟩
  | exprWithAlias e c ih => exact (ih h).imp fun r hr => ⟨.exprWithAlias hr.1, hr.2⟩
  | binaryOp l op l' ihl ihr =>
    rcases List.mem_append.mp h with h | h
    · exact (ihl h).imp fun r hr => ⟨.left hr.1, hr.2⟩
    · exact (ihr h).imp fun r hr => ⟨.right hr.1, hr.2⟩
  | function n args f w rest iha => exact (iha h).imp fun r hr => ⟨.arguments hr.1, hr.2⟩
  | listArgs args rest iha => exact (iha h).imp fun r hr => ⟨.listArgs hr.1, hr.2⟩
  | unnamedArg e ih => exact (ih h).imp fun r hr => ⟨.unnamedArg hr.1, hr.2⟩
  | namedArg n e ih => exact (ih h).imp fun r hr => ⟨.namedArg hr.1, hr.2⟩
  | nested e ih => exact (ih h).imp fun r hr => ⟨.nested hr.1, hr.2⟩
  | isNull e ih => exact (ih h).imp fun r hr => ⟨.isNull hr.1, hr.2⟩
  | isNotNull e ih => exact (ih h).imp fun r hr => ⟨.isNotNull hr.1, hr.2⟩
  | unaryOp op e ih => exact (ih h).imp fun r hr => ⟨.unaryOp hr.1, hr.2⟩
  | inList e l n ihe ihl =>
    rcases List.mem_append.mp h with h | h
    · exact (ihe h).imp fun r hr => ⟨.member hr.1, hr.2⟩
    · exact (ihl h).imp fun r hr => ⟨.list hr.1, hr.2⟩
  | between e n lo hi ihe ihlo ihhi =>
    rcases List.mem_append.mp h with h | h
    · rcases List.mem_append.mp h with h | h
      · exact (ihe h).imp fun r hr => ⟨.between hr.1, hr.2⟩
      · exact (ihlo h).imp fun r hr => ⟨.low hr.1, hr.2⟩
    · exact (ihhi h).imp fun r hr => ⟨.high hr.1, hr.2⟩
  | case o c rs el iho ihc ihrs ihel =>
    rcases List.mem_append.mp h with h | h
    · rcases List.mem_append.mp h with h | h
      · rcases List.mem_append.mp h with h | h
        · exact (iho h).imp fun r hr => ⟨.operand hr.1, hr.2⟩
        · exact (ihc h).imp fun r hr => ⟨.conditions hr.1, hr.2⟩
      · exact (ihrs h).imp fun r hr => ⟨.results hr.1, hr.2⟩
    · exact (ihel h).imp fun r hr => ⟨.elseResult hr.1, hr.2⟩
  | cast e ih => exact (ih h).imp fun r hr => ⟨.cast hr.1, hr.2⟩
  | like n e p ihe ihp =>
    rcases List.mem_append.mp h with h | h
    · exact (ihe h).imp fun r hr => ⟨.like hr.1, hr.2⟩
    · exact (ihp h).imp fun r hr => ⟨.pattern hr.1, hr.2⟩
  | subquery q ih => exact (ih h).imp fun r hr => ⟨.subquery hr.1, hr.2⟩
  | inSubquery e q n ihe ihq =>
    rcases List.mem_append.mp h with h | h
    · exact (ihe h).imp fun r hr => ⟨.inSubquery hr.1, hr.2⟩
    · exact (ihq h).imp fun r hr => ⟨.ofSubquery hr.1, hr.2⟩
  | existsQuery q n ih => exact (ih h).imp fun r hr => ⟨.exists' hr.1, hr.2⟩
  | _ => exact absurd h List.not_mem_nil

theorem mem_of_visitedRef {r : List Ident} (h : VisitedRef a r) {e : String × String} (he : Collects r e) :
    e ∈ collectColumns a := by
  have hl : ∀ {l l' : List (String × String)}, e ∈ l → e ∈ l ++ l' := List.mem_append_left _
  have hr : ∀ {l l' : List (String × String)}, e ∈ l' → e ∈ l ++ l' := List.mem_append_right _
  induction h with
  | identifier ident =>
    obtain ⟨hkey, hcol⟩ := he
    exact List.mem_singleton.mpr (Prod.ext hkey.symm (Option.some.inj hcol).symm)
  | compound idents hlen => exact collects_compound.mpr ⟨hlen, he⟩
  | head h ih | cte h ih | leftBranch h ih | left h ih | member h ih | like h ih | inSubquery h ih => exact hl (ih he)
  | tail h ih | orderBy h ih | laterCte h ih | rightBranch h ih | having h ih | right h ih | list h ih | high h ih
  | elseResult h ih | pattern h ih | ofSubquery h ih => exact hr (ih he)
  | ctes h ih | between h ih => exact hl (hl (ih he))
  | body h ih | groupBy h ih | low h ih | results h ih => exact hl (hr (ih he))
  | projection h ih | operand h ih => exact hl (hl (hl (ih he)))
  | selection h ih | conditions h ih => exact hl (hl (hr (ih he)))
  | some h ih | select h ih | parenthesized h ih | unnamedExpr h ih | exprWithAlias h ih | arguments h ih
  | listArgs h ih | unnamedArg h ih | namedArg h ih | nested h ih | isNull h ih | isNotNull h ih | unaryOp h ih
  | cast h ih | subquery h ih | exists' h ih => exact ih he

theorem mem_collectColumns_iff {e : String × String} : e ∈ collectColumns a ↔ ∃ r, VisitedRef a r ∧ Collects r e :=
  ⟨visitedRef_of_mem, fun ⟨_, hr, he⟩ => mem_of_visitedRef hr he⟩

end Walks

/-! ### The structure hint -/

section Hint
variable (P : SqlParser) (R : NameResolution) (collectionName : String) (tables : Dict String R2TablePath)
  (schemas : Dict String TableSchema) (datePredicates : Dict String DateRange) (statements : List Statement)
  (tableName column : String)

/-- The columns of the hint that the rewrite puts for a table; none where there is no hint. -/
def hintedColumns : List String :=
  if (analyzeForColumnPruning P statements).hasWildcard then []
  else
    match tables.lookup tableName with
    | some path => ((columnPruningTransformer P collectionName tables schemas datePredicates statements).structureHint
        tableName path).map (·.1)
    | none => []

/-- The table that a qualifier leads to, by its last alias. -/
def qualifiedTable (qualifier : String) : String :=
  ((analyzeForColumnPruning P statements).tableAliases.lookup qualifier).getD qualifier

/-- A reference at a visited position names the column, for the table or for none. -/
def NamedFor : Prop :=
  ∃ q ∈ statementQueries statements, ∃ r, VisitedRef q r ∧ columnOf r = some column ∧
    (qualifiedTable P statements (qualifierOf r) = tableName ∨ qualifiedTable P statements (qualifierOf r) = "")

def InSchema : Prop := ∃ schema, schemas.lookup tableName = some schema ∧ (schema.columns.lookup column).isSome

/-- The query has no wildcard of its own, and no dates rule the table out. -/
structure Prunable : Prop where
  noWildcard : ∀ q ∈ statementQueries statements, ¬TopWildcard q
  possible : ∃ path, tables.lookup tableName = some path ∧
    (columnPruningTransformer P collectionName tables schemas datePredicates statements).isImpossible path = false

def knownAs (name : ObjectName) : Option String := lookupTable P (fun t => (tables.lookup t).map fun _ => t) name

/-- A reference anywhere in the statements is taken from the column of the table. -/
def RefersTo : Prop :=
  InSchema schemas tableName column ∧ ∃ q ∈ statementQueries statements, ∃ u ∈ columnUses [] [] q, ∃ r e name,
    u.use = .reference r ∧ R.resolve u.frames r = some (e, column) ∧ e.table = some name ∧
      knownAs P tables name = some tableName

/-- A select with a wildcard reads the table. -/
def WildcardReads : Prop :=
  ∃ q ∈ statementQueries statements, ∃ u ∈ columnUses [] [] q, u.use = .wildcard ∧
    ∃ e ∈ u.frames.head?.getD [], ∃ name, e.table = some name ∧ knownAs P tables name = some tableName

variable {P R collectionName tables schemas datePredicates statements tableName column}

theorem mem_selectColumns {key : String} :
    column ∈ (analyzeForColumnPruning P statements).selectColumns.found key ↔
      ∃ q ∈ statementQueries statements, ∃ r, VisitedRef q r ∧ qualifierOf r = key ∧ columnOf r = some column := by
  refine Dict.mem_found_extendAll.trans ((or_iff_right List.not_mem_nil).trans ?_)
  constructor
  · rintro ⟨e, he, hkey, hmem⟩
    obtain ⟨q, hq, he⟩ := List.mem_flatMap.mp he
    obtain ⟨c, hc, rfl⟩ := List.mem_map.mp he
    obtain ⟨r, hr, hqualifier, hcolumn⟩ := mem_collectColumns_iff.mp hc
    cases List.mem_singleton.mp hmem
    exact ⟨q, hq, r, hr, hqualifier.trans hkey, hcolumn⟩
  · rintro ⟨q, hq, r, hr, hkey, hcolumn⟩
    have hmem : (key, column) ∈ collectColumns q := mem_collectColumns_iff.mpr ⟨r, hr, hkey, hcolumn⟩
    exact ⟨(key, [column]), List.mem_flatMap.mpr ⟨q, hq, List.mem_map.mpr ⟨_, hmem, rfl⟩⟩, rfl,
      List.mem_singleton_self _⟩

theorem mem_resolveColumnAliases {columns : Dict String (List String)} {aliases : Dict String String} :
    column ∈ (resolveColumnAliases columns aliases).found tableName ↔
      ∃ key, column ∈ columns.found key ∧ (aliases.lookup key).getD key = tableName := by
  refine Dict.mem_found_extendAll.trans ((or_iff_right List.not_mem_nil).trans ?_)
  constructor
  · rintro ⟨e, he, hkey, hmem⟩
    obtain ⟨⟨key, cols⟩, hpair, rfl⟩ := List.mem_map.mp he
    exact ⟨key, Dict.mem_found_iff.mpr ⟨cols, Dict.mem_pairs.mp hpair, hmem⟩, hkey⟩
  · rintro ⟨key, hmem, hkey⟩
    obtain ⟨cols, hcols, hmem⟩ := Dict.mem_found_iff.mp hmem
    exact ⟨_, List.mem_map.mpr ⟨(key, cols), Dict.mem_pairs.mpr hcols, rfl⟩, hkey, hmem⟩

theorem mem_referencedColumns :
    column ∈
      (columnPruningTransformer P collectionName tables schemas datePredicates statements).referencedColumns.found
        tableName ↔
      ∃ q ∈ statementQueries statements, ∃ r, VisitedRef q r ∧ columnOf r = some column ∧
        qualifiedTable P statements (qualifierOf r) = tableName := by
  refine mem_resolveColumnAliases.trans ?_
  constructor
  · rintro ⟨key, hmem, htable⟩
    obtain ⟨q, hq, r, hr, rfl, hcolumn⟩ := mem_selectColumns.mp hmem
    exact ⟨q, hq, r, hr, hcolumn, htable⟩
  · rintro ⟨q, hq, r, hr, hcolumn, htable⟩
    exact ⟨qualifierOf r, mem_selectColumns.mpr ⟨q, hq, r, hr, rfl, hcolumn⟩, htable⟩

theorem namedFor_iff : NamedFor P statements tableName column ↔
    column ∈
      (columnPruningTransformer P collectionName tables schemas datePredicates statements).referencedColumns.found
        tableName ++
      (columnPruningTransformer P collectionName tables schemas datePredicates statements).referencedColumns.found
        "" := by
  rw [List.mem_append, mem_referencedColumns, mem_referencedColumns]
  constructor
  · rintro ⟨q, hq, r, hr, hcolumn, htable | hnone⟩
    · exact Or.inl ⟨q, hq, r, hr, hcolumn, htable⟩
    · exact Or.inr ⟨q, hq, r, hr, hcolumn, hnone⟩
  · rintro (⟨q, hq, r, hr, hcolumn, htable⟩ | ⟨q, hq, r, hr, hcolumn, hnone⟩)
    · exact ⟨q, hq, r, hr, hcolumn, Or.inl htable⟩
    · exact ⟨q, hq, r, hr, hcolumn, Or.inr hnone⟩

theorem getColumnTypes_isSome {schema : TableSchema} {names : List String} :
    ((schema.getColumnTypes names).lookup column).isSome ↔ column ∈ names ∧ (schema.columns.lookup column).isSome := by
  refine Dict.lookup_insertAll_isSome.trans ((or_iff_right (fun h => nomatch h)).trans ?_)
  constructor
  · rintro ⟨typ, h⟩
    obtain ⟨name, hname, hmap⟩ := List.mem_filterMap.mp h
    obtain ⟨typ', htyp, heq⟩ := Option.map_eq_some_iff.mp hmap
    cases heq
    exact ⟨hname, Option.isSome_of_eq_some htyp⟩
  · rintro ⟨hname, hsome⟩
    obtain ⟨typ, htyp⟩ := Option.isSome_iff_exists.mp hsome
    exact ⟨typ, List.mem_filterMap.mpr ⟨column, hname, by rw [htyp]; rfl⟩⟩

theorem mem_structureHint {T : ColumnPruningTransformer} {path : R2TablePath} :
    column ∈ (T.structureHint tableName path).map (·.1) ↔ T.isImpossible path = false ∧
      InSchema T.schemas tableName column ∧
        column ∈ T.referencedColumns.found tableName ++ T.referencedColumns.found "" := by
  have htypes :
    ∀ types : Dict String String, column ∈ (types.pairs.mergeSort (fun a b => decide (a.1 ≤ b.1))).map (·.1) ↔
      (types.lookup column).isSome := fun types => by
    rw [((List.mergeSort_perm _ _).map _).mem_iff, Dict.pairs_keys, Option.isSome_iff_exists]
    exact Dict.mem_keys
  rw [ColumnPruningTransformer.structureHint]
  split
  · next himpossible =>
    exact iff_of_false List.not_mem_nil fun h => Bool.false_ne_true (h.1.symm.trans himpossible)
  · next hpossible =>
    rw [and_iff_right (Bool.eq_false_of_not_eq_true hpossible), ColumnPruningTransformer.columnTypes, InSchema]
    cases T.schemas.lookup tableName with
    | none =>
      refine iff_of_false List.not_mem_nil ?_
      rintro ⟨⟨_, h, _⟩, _⟩
      cases h
    | some schema =>
      have hmem : ((schema.getColumnTypes (T.referencedColumns.found tableName ++ T.referencedColumns.found "")).lookup
          column).isSome ↔ (∃ schema', some schema = some schema' ∧ (schema'.columns.lookup column).isSome) ∧
            column ∈ T.referencedColumns.found tableName ++ T.referencedColumns.found "" := by
        rw [getColumnTypes_isSome, and_comm]
        refine and_congr_left fun _ => ⟨fun h => ⟨schema, rfl, h⟩, ?_⟩
        rintro ⟨_, heq, h⟩
        exact Option.some.inj heq ▸ h
      rw [← hmem, Option.bind_some]
      dsimp only
      split
      · next hnil =>
        refine iff_of_false List.not_mem_nil fun h => ?_
        have hkey := (htypes _).mpr h
        rw [Dict.found, Dict.found, hnil, List.mergeSort_nil] at hkey
        exact List.not_mem_nil hkey
      · exact htypes _

theorem mem_hintedColumns :
    column ∈ hintedColumns P collectionName tables schemas datePredicates statements tableName ↔
      Prunable P collectionName tables schemas datePredicates statements tableName ∧
        InSchema schemas tableName column ∧ NamedFor P statements tableName column := by
  have hwildcard : (analyzeForColumnPruning P statements).hasWildcard = true ↔
      ∃ q ∈ statementQueries statements, TopWildcard q :=
    List.any_eq_true.trans (exists_congr fun q => and_congr_right fun _ => queryHasWildcard_iff)
  rw [hintedColumns]
  split
  · next hhas =>
    obtain ⟨q, hq, htop⟩ := hwildcard.mp hhas
    exact iff_of_false List.not_mem_nil fun h => h.1.noWildcard q hq htop
  · next hnot =>
    have hnone : ∀ q ∈ statementQueries statements, ¬TopWildcard q :=
      fun q hq htop => hnot (hwildcard.mpr ⟨q, hq, htop⟩)
    cases hpath : tables.lookup tableName with
    | none =>
      refine iff_of_false List.not_mem_nil fun h => ?_
      obtain ⟨path, hsome, -⟩ := h.1.possible
      cases hpath.symm.trans hsome
    | some path =>
      refine mem_structureHint.trans (and_congr ?_ (and_congr_right fun _ => namedFor_iff.symm))
      constructor
      · exact fun hpossible => ⟨hnone, path, hpath, hpossible⟩
      · rintro ⟨-, path', hpath', hpossible⟩
        cases hpath.symm.trans hpath'
        exact hpossible

theorem rewriteWithColumnPruningAst_hints (now : CalendarDate) (partitionPruned : List Statement → List Statement)
    (hwildcard : (analyzeForColumnPruning P statements).hasWildcard = false) :
    ∃ T : TableTransformer,
      rewriteWithColumnPruningAst P now collectionName tables schemas datePredicates partitionPruned statements =
        P.print (statements.map (visitStatement P T)) ∧
      ∀ tableName path, tables.lookup tableName = some path → ∃ filePattern columns,
        T.transformTable tableName = some (.function s3Name
          (.listArgs (s3ArgsWithStructure collectionName filePattern columns) .nil) .none .none .nil) ∧
        columns.map (·.1) = hintedColumns P collectionName tables schemas datePredicates statements tableName := by
  refine ⟨(columnPruningTransformer P collectionName tables schemas datePredicates statements).toTableTransformer now,
    ?_, fun tableName path hpath => ⟨_, _, congrArg (Option.map _) hpath, ?_⟩⟩
  · rw [rewriteWithColumnPruningAst, hwildcard]
    rfl
  · rw [hintedColumns, hwildcard, if_neg Bool.false_ne_true, hpath]

end Hint

/-- Each hint has all the columns that are referred to, and no select with a wildcard reads a table with a hint, exactly
    if that is so of the visited references for each table that is pruned. -/
theorem columnsKept_iff (P : SqlParser) (R : NameResolution) (collectionName : String)
    (tables : Dict String R2TablePath) (schemas : Dict String TableSchema) (datePredicates : Dict String DateRange)
    (statements : List Statement) :
    ((∀ tableName column, RefersTo P R tables schemas statements tableName column →
          hintedColumns P collectionName tables schemas datePredicates statements tableName ≠ [] →
          column ∈ hintedColumns P collectionName tables schemas datePredicates statements tableName) ∧
        ∀ tableName, WildcardReads P tables statements tableName →
          hintedColumns P collectionName tables schemas datePredicates statements tableName = []) ↔
      ∀ tableName, Prunable P collectionName tables schemas datePredicates statements tableName →
        (∃ column, InSchema schemas tableName column ∧ NamedFor P statements tableName column) →
          (∀ column, RefersTo P R tables schemas statements tableName column → NamedFor P statements tableName column) ∧
            ¬WildcardReads P tables statements tableName := by
  constructor
  · rintro ⟨hcolumns, hwildcards⟩ tableName hprunable ⟨named, hnamed⟩
    have hmem : named ∈ hintedColumns P collectionName tables schemas datePredicates statements tableName :=
      mem_hintedColumns.mpr ⟨hprunable, hnamed⟩
    have hne := List.ne_nil_of_mem hmem
    exact ⟨fun column hrefers => (mem_hintedColumns.mp (hcolumns tableName column hrefers hne)).2.2,
      fun hreads => hne (hwildcards tableName hreads)⟩
  · intro h
    constructor
    · intro tableName column hrefers hne
      obtain ⟨named, hmem⟩ := List.exists_mem_of_ne_nil _ hne
      obtain ⟨hprunable, hnamed⟩ := mem_hintedColumns.mp hmem
      exact mem_hintedColumns.mpr ⟨hprunable, hrefers.1, (h tableName hprunable ⟨named, hnamed⟩).1 column hrefers⟩
    · intro tableName hreads
      by_contra hne
      obtain ⟨named, hmem⟩ := List.exists_mem_of_ne_nil _ hne
      obtain ⟨hprunable, hnamed⟩ := mem_hintedColumns.mp hmem
      exact (h tableName hprunable ⟨named, hnamed⟩).2 hreads

/-! ### A join condition -/

/-- The last part is the column, of the first relation that the part before it names, or of the first of all. -/
def firstInScope : NameResolution where
  resolve frames idents := idents.getLast?.bind fun column =>
    (frames.flatten.find? fun e => idents.dropLast.getLast?.all (e.qualifier = ·.value)).map fun e => (e, column.value)
  inScope frames idents e column h := by
    obtain ⟨_, -, h⟩ := Option.bind_eq_some_iff.mp h
    obtain ⟨_, hfind, h⟩ := Option.map_eq_some_iff.mp h
    cases h
    exact List.mem_flatten.mp (List.mem_of_find?_eq_some hfind)
  qualified frames idents e column h := by
    obtain ⟨ident, hlast, h⟩ := Option.bind_eq_some_iff.mp h
    obtain ⟨_, hfind, h⟩ := Option.map_eq_some_iff.mp h
    cases h
    refine ⟨idents.dropLast, [ident], [], ?_, List.cons_ne_nil _ _, rfl, fun qualifier hqualifier => ?_⟩
    · rw [List.append_nil, List.dropLast_append_getLast? ident hlast]
    · have hnamed := List.find?_some hfind
      rw [Option.mem_def.mp hqualifier] at hnamed
      exact of_decide_eq_true hnamed

def nameOf (name : String) : Ident := { value := name }

def qualifiedColumn (qualifier name : String) : Expr := .compoundIdentifier [nameOf qualifier, nameOf name]

/-- `SELECT o.id FROM orders o JOIN items i ON o.item_id = i.id`. -/
def joinedOrders : Statement := .query (.query (r := false) .noCte (.selectSetExpr (.select
  (.cons (.unnamedExpr (qualifiedColumn "o" "id")) .nil)
  (.cons (.tableWithJoins (.table [nameOf "orders"] (some ⟨nameOf "o", []⟩) .nil)
    (.cons (.join .inner (.table [nameOf "items"] (some ⟨nameOf "i", []⟩) .nil)
      (.some (.binaryOp (qualifiedColumn "o" "item_id") .eq (qualifiedColumn "i" "id")))) .nil)) .nil)
  .none .none .nil .nil)) .nil .nil)

/-- The column of the join condition is pruned away. -/
theorem joinColumn_pruned :
    ¬∀ (P : SqlParser) (R : NameResolution) (collectionName : String) (tables : Dict String R2TablePath)
      (schemas : Dict String TableSchema) (datePredicates : Dict String DateRange) (statements : List Statement),
      (∀ tableName column, RefersTo P R tables schemas statements tableName column →
          hintedColumns P collectionName tables schemas datePredicates statements tableName ≠ [] →
          column ∈ hintedColumns P collectionName tables schemas datePredicates statements tableName) ∧
        ∀ tableName, WildcardReads P tables statements tableName →
          hintedColumns P collectionName tables schemas datePredicates statements tableName = [] := by
  intro h
  let P : SqlParser := ⟨fun _ => none, fun _ => "", fun _ s => s⟩
  let tables : Dict String R2TablePath := Dict.insertAll ∅ [("orders", ⟨"r2/orders", none, false, none, none, none⟩),
    ("items", ⟨"r2/items", none, false, none, none, none⟩)]
  let schemas : Dict String TableSchema :=
    Dict.insertAll ∅ [("orders", ⟨Dict.insertAll ∅ [("id", "Int64"), ("item_id", "Int64")]⟩)]
  have hid : "id" ∈ hintedColumns P "r2" tables schemas ∅ [joinedOrders] "orders" := by
    refine mem_hintedColumns.mpr ⟨⟨fun q hq htop => ?_, ⟨"r2/orders", none, false, none, none, none⟩, rfl, rfl⟩,
      ⟨_, rfl, by decide⟩, _, List.mem_singleton_self _, [nameOf "o", nameOf "id"], ?_, rfl, Or.inl (by decide)⟩
    · cases List.mem_singleton.mp hq
      exact absurd (queryHasWildcard_iff.mpr htop) (by decide)
    · exact .body (.select (.projection (.head (.unnamedExpr (.compound _ (by decide))))))
  have hrefers : RefersTo P firstInScope tables schemas [joinedOrders] "orders" "item_id" := by
    refine ⟨⟨_, rfl, by decide⟩, _, List.mem_singleton_self _,
      ⟨[[⟨"o", some [nameOf "orders"]⟩, ⟨"i", some [nameOf "items"]⟩]], .reference [nameOf "o", nameOf "item_id"]⟩, ?_,
      [nameOf "o", nameOf "item_id"], ⟨"o", some [nameOf "orders"]⟩, [nameOf "orders"], rfl, by decide, rfl, by decide⟩
    exact .tail _ (.head _)
  have hmem := (h P firstInScope "r2" tables schemas ∅ [joinedOrders]).1 "orders" "item_id" hrefers
    (List.ne_nil_of_mem hid)
  have hnamed : "item_id" ∈
      (columnPruningTransformer P "r2" tables schemas ∅ [joinedOrders]).referencedColumns.found "orders" ++
        (columnPruningTransformer P "r2" tables schemas ∅ [joinedOrders]).referencedColumns.found "" :=
    namedFor_iff.mp (mem_hintedColumns.mp hmem).2.2
  exact absurd hnamed (by decide)

end Reiver.Pond
