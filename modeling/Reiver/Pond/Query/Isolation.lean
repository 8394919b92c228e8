import Reiver.Lib.Fallible
import Reiver.Pond.Query.Rewriter

/-! # Project isolation of the rewriter

What stands in a rewritten query in the place of each table reference, at any depth. The validation and the visitor
look at different positions and names; the rewritten query is isolated exactly if no reference falls between them
(`isolated_iff`). -/

namespace Reiver.Pond

/-! ### References -/

section References
variable (tableOk : List String → ObjectName → Prop) (functionOk : ObjectName → Ast (.vec .functionArg) → Prop)

/-- All table references of a tree, each in the scope of the common table expressions around it, and all function
    calls in the place of a table that the parser did not put there. -/
@[grind =]
def AllRefs : {k : AstKind} → (scope : List String) → Ast k → Prop
  | _, _, .nil => True
  | _, scope, .cons a as => AllRefs scope a ∧ AllRefs scope as
  | _, _, .none => True
  | _, scope, .some a => AllRefs scope a
  | _, scope, .query with' body orderBy rest =>
    AllRefs scope with' ∧ AllRefs (cteNames with' ++ scope) body ∧ AllRefs (cteNames with' ++ scope) orderBy ∧
      AllRefs (cteNames with' ++ scope) rest
  | _, _, .noCte => True
  | _, scope, .cte (r := true) name query tail =>
    AllRefs (name.value :: scope) query ∧ AllRefs (name.value :: scope) tail
  | _, scope, .cte (r := false) name query tail => AllRefs scope query ∧ AllRefs (name.value :: scope) tail
  | _, scope, .selectSetExpr select => AllRefs scope select
  | _, scope, .querySetExpr query => AllRefs scope query
  | _, scope, .setOperation left right => AllRefs scope left ∧ AllRefs scope right
  | _, scope, .otherSetExpr tables rest => (∀ name ∈ tables, tableOk scope name) ∧ AllRefs scope rest
  | _, scope, .select projection from' selection having groupBy rest =>
    AllRefs scope projection ∧ AllRefs scope from' ∧ AllRefs scope selection ∧ AllRefs scope having ∧
      AllRefs scope groupBy ∧ AllRefs scope rest
  | _, scope, .unnamedExpr expr => AllRefs scope expr
  | _, scope, .exprWithAlias expr _ => AllRefs scope expr
  | _, scope, .wildcard rest => AllRefs scope rest
  | _, scope, .subquery query => AllRefs scope query
  | _, scope, .inSubquery expr subquery _ => AllRefs scope expr ∧ AllRefs scope subquery
  | _, scope, .existsQuery subquery _ => AllRefs scope subquery
  | _, scope, .binaryOp left _ right => AllRefs scope left ∧ AllRefs scope right
  | _, scope, .unaryOp _ expr => AllRefs scope expr
  | _, scope, .nested expr => AllRefs scope expr
  | _, scope, .between expr _ low high => AllRefs scope expr ∧ AllRefs scope low ∧ AllRefs scope high
  | _, scope, .isNull expr => AllRefs scope expr
  | _, scope, .isNotNull expr => AllRefs scope expr
  | _, scope, .like _ expr pattern => AllRefs scope expr ∧ AllRefs scope pattern
  | _, scope, .inList expr list _ => AllRefs scope expr ∧ AllRefs scope list
  | _, scope, .case operand conditions results elseResult =>
    AllRefs scope operand ∧ AllRefs scope conditions ∧ AllRefs scope results ∧ AllRefs scope elseResult
  | _, scope, .cast expr => AllRefs scope expr
  | _, scope, .function _ args filter window rest =>
    AllRefs scope args ∧ AllRefs scope filter ∧ AllRefs scope window ∧ AllRefs scope rest
  | _, _, .identifier _ => True
  | _, _, .compoundIdentifier _ => True
  | _, _, .value _ => True
  | _, scope, .otherExpr rest => AllRefs scope rest
  | _, scope, .unnamedArg expr => AllRefs scope expr
  | _, scope, .namedArg _ expr => AllRefs scope expr
  | _, _, .wildcardArg => True
  | _, _, .noArgs => True
  | _, scope, .subqueryArgs query => AllRefs scope query
  | _, scope, .listArgs args rest => AllRefs scope args ∧ AllRefs scope rest
  | _, scope, .windowSpec partitionBy orderBy rest =>
    AllRefs scope partitionBy ∧ AllRefs scope orderBy ∧ AllRefs scope rest
  | _, scope, .tableWithJoins relation joins => AllRefs scope relation ∧ AllRefs scope joins
  | _, scope, .join _ relation on => AllRefs scope relation ∧ AllRefs scope on
  | _, scope, .otherJoin relation rest => AllRefs scope relation ∧ AllRefs scope rest
  | _, scope, .table name _ rest => tableOk scope name ∧ AllRefs scope rest
  | _, scope, .derived subquery _ => AllRefs scope subquery
  | _, scope, .nestedJoin tableWithJoins _ => AllRefs scope tableWithJoins
  | _, scope, .functionFactor lateral name args _ =>
    (lateral = false → functionOk name args) ∧ AllRefs scope args
  | _, scope, .otherFactor tables rest => AllRefs scope tables ∧ AllRefs scope rest

end References

/-! ### Isolation -/

section Isolation
variable (tables : Dict String R2TablePath) (projectId : Uuid)

/-- A path of one of the project's own tables. -/
def OwnPath (path : R2TablePath) : Prop :=
  (∃ table, tables.lookup table = some path) ∧ path.belongsToProject projectId = true

/-- A name bound by a common table expression in scope. -/
def BoundBy (scope : List String) : ObjectName → Prop
  | [ident] => ident.value ∈ scope
  | _ => False

/-- The hot buffer of one of the project's own tables. -/
def OwnBuffer (name : ObjectName) : Prop :=
  ∃ path buffer, OwnPath tables projectId path ∧ path.bufferChTable = some buffer ∧
    name = [{ value := buffer, quoteStyle := some '`' }]

def OwnFiles (filePattern : String) : Prop :=
  ∃ path, OwnPath tables projectId path ∧ path.keyPrefix ++ "/*.parquet" = filePattern

def TableOk (scope : List String) (name : ObjectName) : Prop := BoundBy scope name ∨ OwnBuffer tables projectId name

/-- A storage table function over a path of one of the project's own tables. -/
def StorageOk (collectionName : String) (name : ObjectName) (args : Ast (.vec .functionArg)) : Prop :=
  name = s3Name ∧ ∃ filePattern, args = s3Args collectionName filePattern ∧ OwnFiles tables projectId filePattern

def Isolated (collectionName : String) {k : AstKind} (scope : List String) (a : Ast k) : Prop :=
  AllRefs (TableOk tables projectId) (StorageOk tables projectId collectionName) scope a

variable (P : SqlParser) (collectionName : String)

/-- The last part of the name is what follows the last dot of its text. -/
def PlainName (name : ObjectName) : Prop := fullName P name ≠ "" ∧ afterLastDot (fullName P name) = shortName name

/-- What a visited reference must meet. A name the visitor skips must be bound; else a validated name must be plain,
    and any other must lead to a path of the project; a buffer must be the project's own. -/
def NoGapAt (validated : Bool) (scope : List String) (name : ObjectName) (rest : Ast (.vec .expr)) : Prop :=
  if skipsTable P scope name then TableOk tables projectId scope name ∧
    Isolated tables projectId collectionName scope rest
  else
    (∀ buffer ∈ lookupTable P (fun t => (tables.lookup t).bind (·.bufferChTable)) name,
      TableOk tables projectId scope [{ value := buffer, quoteStyle := some '`' }]) ∧
    ((validated = true ∧ PlainName P name) ∨
      match lookupTable P tables.lookup name with
      | some path => OwnFiles tables projectId (path.keyPrefix ++ "/*.parquet")
      | none => TableOk tables projectId scope name ∧ Isolated tables projectId collectionName scope rest)

/-- No reference falls between the two walks: where the visitor does not look, names are bound; where it does,
    references have no gap either. `validated` is whether the validation looks there too. -/
def NoGap : {k : AstKind} → (validated : Bool) → (scope : List String) → Ast k → Prop
  | _, _, _, .nil => True
  | _, v, scope, .cons a as => NoGap v scope a ∧ NoGap v scope as
  | _, _, _, .none => True
  | _, v, scope, .some a => NoGap v scope a
  | _, v, scope, .query with' body orderBy rest =>
    NoGap v scope with' ∧ NoGap v (cteNames with' ++ scope) body ∧ NoGap false (cteNames with' ++ scope) orderBy ∧
      Isolated tables projectId collectionName (cteNames with' ++ scope) rest
  | _, _, _, .noCte => True
  | _, v, scope, .cte (r := true) name query tail =>
    NoGap v (name.value :: scope) query ∧ NoGap v (name.value :: scope) tail
  | _, v, scope, .cte (r := false) name query tail => NoGap v scope query ∧ NoGap v (name.value :: scope) tail
  | _, v, scope, .selectSetExpr select => NoGap v scope select
  | _, v, scope, .querySetExpr query => NoGap v scope query
  | _, v, scope, .setOperation left right => NoGap v scope left ∧ NoGap v scope right
  | _, _, scope, .otherSetExpr names rest => Isolated tables projectId collectionName scope (.otherSetExpr names rest)
  | _, v, scope, .select projection from' selection having groupBy rest =>
    NoGap v scope projection ∧ NoGap v scope from' ∧ NoGap v scope selection ∧ NoGap v scope having ∧
      NoGap false scope groupBy ∧ Isolated tables projectId collectionName scope rest
  | _, v, scope, .unnamedExpr expr => NoGap v scope expr
  | _, v, scope, .exprWithAlias expr _ => NoGap v scope expr
  | _, _, scope, .wildcard rest => Isolated tables projectId collectionName scope rest
  | _, v, scope, .subquery query => NoGap v scope query
  | _, v, scope, .inSubquery expr subquery _ => NoGap false scope expr ∧ NoGap v scope subquery
  | _, v, scope, .existsQuery subquery _ => NoGap v scope subquery
  | _, v, scope, .binaryOp left _ right => NoGap v scope left ∧ NoGap v scope right
  | _, v, scope, .unaryOp _ expr => NoGap v scope expr
  | _, v, scope, .nested expr => NoGap v scope expr
  | _, v, scope, .between expr _ low high => NoGap v scope expr ∧ NoGap v scope low ∧ NoGap v scope high
  | _, _, scope, .isNull expr => NoGap false scope expr
  | _, _, scope, .isNotNull expr => NoGap false scope expr
  | _, _, scope, .like negated expr pattern =>
    Isolated tables projectId collectionName scope (.like negated expr pattern)
  | _, v, scope, .inList expr list _ => NoGap v scope expr ∧ NoGap v scope list
  | _, v, scope, .case operand conditions results elseResult =>
    NoGap v scope operand ∧ NoGap v scope conditions ∧ NoGap v scope results ∧ NoGap v scope elseResult
  | _, v, scope, .cast expr => NoGap v scope expr
  | _, v, scope, .function _ args filter window rest =>
    NoGap v scope args ∧ Isolated tables projectId collectionName scope filter ∧
      Isolated tables projectId collectionName scope window ∧ Isolated tables projectId collectionName scope rest
  | _, _, _, .identifier _ => True
  | _, _, _, .compoundIdentifier _ => True
  | _, _, _, .value _ => True
  | _, _, scope, .otherExpr rest => Isolated tables projectId collectionName scope rest
  | _, v, scope, .unnamedArg expr => NoGap v scope expr
  | _, v, scope, .namedArg _ expr => NoGap v scope expr
  | _, _, _, .wildcardArg => True
  | _, _, _, .noArgs => True
  | _, _, scope, .subqueryArgs query => Isolated tables projectId collectionName scope query
  | _, v, scope, .listArgs args rest => NoGap v scope args ∧ Isolated tables projectId collectionName scope rest
  | _, _, scope, .windowSpec partitionBy orderBy rest =>
    Isolated tables projectId collectionName scope (.windowSpec partitionBy orderBy rest)
  | _, v, scope, .tableWithJoins relation joins => NoGap v scope relation ∧ NoGap v scope joins
  | _, v, scope, .join _ relation on => NoGap v scope relation ∧ NoGap v scope on
  | _, v, scope, .otherJoin relation rest =>
    NoGap v scope relation ∧ Isolated tables projectId collectionName scope rest
  | _, v, scope, .table name _ rest => NoGapAt tables projectId P collectionName v scope name rest
  | _, v, scope, .derived subquery _ => NoGap v scope subquery
  | _, v, scope, .nestedJoin tableWithJoins _ => NoGap v scope tableWithJoins
  | _, _, scope, .functionFactor lateral name args tableAlias =>
    Isolated tables projectId collectionName scope (.functionFactor lateral name args tableAlias)
  | _, _, scope, .otherFactor names rest => Isolated tables projectId collectionName scope (.otherFactor names rest)

/-- The validation of a name that follows no common table expression. -/
def Known (table : String) : Prop :=
  ∃ path, (tables.lookup table).or (tables.lookup (afterLastDot table)) = some path ∧
    path.belongsToProject projectId = true

/-- What the validation has made sure of in a tree. -/
def Validated (validated : Bool) (scope names : List String) : Prop :=
  validated = true → ∀ table ∈ names, table ∉ scope → Known tables projectId table

end Isolation

section Lemmas
variable {tables : Dict String R2TablePath} {projectId : Uuid} {P : SqlParser} {collectionName : String} {v : Bool}
  {scope names names' : List String}

theorem validated_false : Validated tables projectId false scope names := fun h => (nomatch h)

theorem validated_append : Validated tables projectId v scope (names ++ names') ↔
    Validated tables projectId v scope names ∧ Validated tables projectId v scope names' := by
  unfold Validated
  rw [List.forall_mem_append, imp_and]

theorem validated_filter : Validated tables projectId v scope (names.filter (· ∉ names')) ↔
    Validated tables projectId v (names' ++ scope) names := by
  refine forall_congr' fun _ => ?_
  simp only [List.mem_filter, decide_eq_true_eq, and_imp, List.mem_append, not_or]

theorem validated_filter_ne {name : String} : Validated tables projectId v scope (names.filter (· ≠ name)) ↔
    Validated tables projectId v (name :: scope) names := by
  refine forall_congr' fun _ => ?_
  simp only [List.mem_filter, decide_eq_true_eq, and_imp, List.mem_cons, not_or]

theorem lookupTable_mem {name : ObjectName} {path : R2TablePath} (h : lookupTable P tables.lookup name = some path) :
    ∃ table, tables.lookup table = some path := by
  unfold lookupTable at h
  rcases Option.or_eq_some_iff.mp h with h | ⟨-, h⟩
  · exact ⟨_, h⟩
  · split at h
    · exact ⟨_, h⟩
    · cases h

theorem lookupTable_known {name : ObjectName} (hplain : PlainName P name)
    (hknown : Known tables projectId (fullName P name)) :
    ∃ path, lookupTable P tables.lookup name = some path ∧ OwnPath tables projectId path := by
  obtain ⟨path, hpath, hown⟩ := hknown
  have hlook : lookupTable P tables.lookup name = some path := by
    rw [hplain.2] at hpath
    unfold lookupTable
    dsimp only
    split
    · exact hpath
    · next heq =>
      rw [not_not] at heq
      rw [heq, Option.or_self] at hpath
      rw [hpath, Option.or_none]
  exact ⟨path, hlook, lookupTable_mem hlook, hown⟩

theorem lookupTable_buffer_of_none {name : ObjectName} (h : lookupTable P tables.lookup name = none) :
    lookupTable P (fun t => (tables.lookup t).bind (·.bufferChTable)) name = none := by
  unfold lookupTable at h ⊢
  rw [Option.or_eq_none_iff] at h ⊢
  refine ⟨by simp [h.1], ?_⟩
  split_ifs with heq
  · rw [if_pos heq] at h
    simp [h.2]
  · rfl

theorem s3Args_injective {filePattern filePattern' : String}
    (h : s3Args collectionName filePattern = s3Args collectionName filePattern') : filePattern = filePattern' := by
  simpa [s3Args] using h

theorem storageOk_s3 {filePattern : String} :
    StorageOk tables projectId collectionName s3Name (s3Args collectionName filePattern) ↔
      OwnFiles tables projectId filePattern := by
  refine ⟨fun ⟨_, _, hargs, hown⟩ => ?_, fun hown => ⟨rfl, _, rfl, hown⟩⟩
  rw [s3Args_injective hargs]
  exact hown

theorem isolated_s3 {filePattern : String} {tableAlias : Option TableAlias} :
    Isolated tables projectId collectionName scope
        (.functionFactor false s3Name (s3Args collectionName filePattern) tableAlias) ↔
      OwnFiles tables projectId filePattern := by
  simp only [Isolated, AllRefs, s3Args, and_true, forall_const]
  exact storageOk_s3

theorem replaceTable_isolated (name : ObjectName) (tableAlias : Option TableAlias) (rest : Ast (.vec .expr)) :
    Isolated tables projectId collectionName scope
        (replaceTable P (basicTableTransformer collectionName tables) name tableAlias rest) ↔
      (∀ buffer ∈ lookupTable P (fun t => (tables.lookup t).bind (·.bufferChTable)) name,
        TableOk tables projectId scope [{ value := buffer, quoteStyle := some '`' }]) ∧
      match lookupTable P tables.lookup name with
      | some path => OwnFiles tables projectId (path.keyPrefix ++ "/*.parquet")
      | none => TableOk tables projectId scope name ∧ Isolated tables projectId collectionName scope rest := by
  unfold replaceTable basicTableTransformer
  rw [lookupTable_map]
  rcases hpath : lookupTable P tables.lookup name with - | path
  · rw [lookupTable_buffer_of_none hpath]
    simp only [Option.map_none, Option.mem_def, reduceCtorEq, false_imp_iff, implies_true, true_and, Isolated, AllRefs]
  rcases lookupTable P (fun t => (tables.lookup t).bind (·.bufferChTable)) name with - | buffer
  · simp only [Option.map_some, buildS3Function, Option.mem_def, reduceCtorEq, false_imp_iff, implies_true, true_and]
    exact isolated_s3
  · simp only [Option.map_some, buildS3Function, Option.mem_def, Option.some_inj, forall_eq']
    have hs3 : Isolated tables projectId collectionName scope (.functionFactor false s3Name
        (s3Args collectionName (path.keyPrefix ++ "/*.parquet")) none) ↔ _ := isolated_s3
    rw [and_comm, ← hs3]
    simp only [Isolated, AllRefs, makeStarSelect, and_true, true_and, cteNames, List.nil_append]

theorem cteNames_visit (T : TableTransformer) (ctes : List String) {k : AstKind} (a : Ast k) (hk : ∃ r, k = .ctes r) :
    cteNames (visit P T ctes a) = cteNames a := by
  induction a generalizing ctes with
  | noCte => rfl
  | @cte r name query tail _ ih =>
    cases r <;> exact congrArg (name.value :: ·) (ih _ ⟨_, rfl⟩)
  | _ => obtain ⟨_, hk⟩ := hk; cases hk

theorem ownPath_ownFiles {path : R2TablePath} (h : OwnPath tables projectId path) :
    OwnFiles tables projectId (path.keyPrefix ++ "/*.parquet") := ⟨path, h, rfl⟩

/-- A table: the visitor skips what may be bound, and finds a path of the project for the other names that were
    validated and are plain. -/
theorem visitTable_isolated (name : ObjectName) (tableAlias : Option TableAlias) (rest : Ast (.vec .expr))
    (h : Validated tables projectId v scope (collectTables P (.table name tableAlias rest))) :
    Isolated tables projectId collectionName scope
        (visit P (basicTableTransformer collectionName tables) scope (.table name tableAlias rest)) ↔
      NoGapAt tables projectId P collectionName v scope name rest := by
  rw [visit_table, NoGapAt]
  split
  · rfl
  · next hskip =>
    rw [replaceTable_isolated]
    refine and_congr_right fun _ => ⟨.inr, ?_⟩
    rintro (⟨rfl, hplain⟩ | hfiles)
    · have hmem : fullName P name ∈ collectTables P (.table name tableAlias rest) := by
        simp [collectTables, hplain.1]
      obtain ⟨path, hlook, hown⟩ := lookupTable_known hplain (h rfl _ hmem fun hscope => hskip (.inl hscope))
      rw [hlook]
      exact ownPath_ownFiles hown
    · exact hfiles

/-- The rewritten tree is isolated exactly if no reference falls between the two walks. -/
theorem visit_isolated {k : AstKind} (a : Ast k) (h : Validated tables projectId v scope (collectTables P a)) :
    Isolated tables projectId collectionName scope (visit P (basicTableTransformer collectionName tables) scope a) ↔
      NoGap tables projectId P collectionName v scope a := by
  induction a generalizing scope v with
  | nil | none | noCte | identifier | compoundIdentifier | value | wildcardArg | noArgs => rfl
  | otherSetExpr | wildcard | like | otherExpr | subqueryArgs | windowSpec | functionFactor | otherFactor => rfl
  | some a ih => exact ih h
  | selectSetExpr select ih => exact ih h
  | querySetExpr query ih => exact ih h
  | subquery query ih => exact ih h
  | existsQuery query negated ih => exact ih h
  | unaryOp op expr ih => exact ih h
  | nested expr ih => exact ih h
  | cast expr ih => exact ih h
  | unnamedExpr expr ih => exact ih h
  | exprWithAlias expr columnAlias ih => exact ih h
  | unnamedArg expr ih => exact ih h
  | namedArg name expr ih => exact ih h
  | derived subquery tableAlias ih => exact ih h
  | nestedJoin tableWithJoins tableAlias ih => exact ih h
  -- visited but not validated
  | isNull expr ih => exact ih validated_false
  | isNotNull expr ih => exact ih validated_false
  | inSubquery expr subquery negated ihExpr ihSub => exact and_congr (ihExpr validated_false) (ihSub h)
  | cons a as iha ihas =>
    obtain ⟨ha, has⟩ := validated_append.mp h
    exact and_congr (iha ha) (ihas has)
  | setOperation left right ihl ihr =>
    obtain ⟨hl, hr⟩ := validated_append.mp h
    exact and_congr (ihl hl) (ihr hr)
  | binaryOp left op right ihl ihr =>
    obtain ⟨hl, hr⟩ := validated_append.mp h
    exact and_congr (ihl hl) (ihr hr)
  | inList expr list negated ihe ihl =>
    obtain ⟨he, hl⟩ := validated_append.mp h
    exact and_congr (ihe he) (ihl hl)
  | tableWithJoins relation joins ihr ihj =>
    obtain ⟨hr, hj⟩ := validated_append.mp h
    exact and_congr (ihr hr) (ihj hj)
  | join operator relation on ihr iho =>
    obtain ⟨hr, ho⟩ := validated_append.mp h
    exact and_congr (ihr hr) (iho ho)
  | between expr negated low high ihe ihl ihh =>
    obtain ⟨⟨he, hl⟩, hh⟩ := (validated_append.trans (and_congr_left' validated_append)).mp h
    exact and_congr (ihe he) (and_congr (ihl hl) (ihh hh))
  | case operand conditions results elseResult iho ihc ihr ihe =>
    obtain ⟨⟨⟨ho, hc⟩, hr⟩, he⟩ := by simpa only [collectTables, validated_append] using h
    exact and_congr (iho ho) (and_congr (ihc hc) (and_congr (ihr hr) (ihe he)))
  | function name args filter window rest iha =>
    obtain ⟨⟨ha, -⟩, -⟩ := (validated_append.trans (and_congr_left' validated_append)).mp h
    exact and_congr_left' (iha ha)
  | listArgs args rest iha => exact and_congr_left' (iha h)
  | otherJoin relation rest ihr => exact and_congr_left' (ihr h)
  | query ctes body orderBy rest ihc ihb iho =>
    obtain ⟨hc, hb⟩ := validated_append.mp h
    rw [visit, Isolated, AllRefs, cteNames_visit _ _ _ ⟨_, rfl⟩]
    exact and_congr (ihc hc) (and_congr (ihb (validated_filter.mp hb)) (and_congr_left' (iho validated_false)))
  | @cte r name query tail ihq iht =>
    cases r with
    | true =>
      obtain ⟨hq, ht⟩ := validated_append.mp h
      exact and_congr (ihq (validated_filter_ne.mp hq)) (iht (validated_filter_ne.mp ht))
    | false =>
      obtain ⟨hq, ht⟩ := validated_append.mp h
      exact and_congr (ihq hq) (iht (validated_filter_ne.mp ht))
  | select projection from' selection having groupBy rest ihp ihf ihs ihh ihg =>
    obtain ⟨⟨⟨hf, hs⟩, hh⟩, hp⟩ := by simpa only [collectTables, validated_append] using h
    exact and_congr (ihp hp) (and_congr (ihf hf) (and_congr (ihs hs) (and_congr (ihh hh)
      (and_congr_left' (ihg validated_false)))))
  | table name tableAlias rest => exact visitTable_isolated name tableAlias rest h

end Lemmas

/-! ### The rewriter -/

section Rewrite
variable {P : SqlParser} {collectionName sql out : String} {tables : Dict String R2TablePath} {projectId : Uuid}

theorem validateTable_known {table : String} (h : validateTable tables projectId table = .ok ()) :
    Known tables projectId table := by
  unfold validateTable at h
  split at h
  · next path hpath =>
    split at h
    · next hown => exact ⟨path, hpath, hown⟩
    · cases h
  · cases h

theorem rewriteWithValidation_ok (h : rewriteWithValidation P collectionName sql tables projectId = .ok out) :
    ∃ statements, P.parse sql = some statements ∧
      out = P.print (statements.map (visitStatement P (basicTableTransformer collectionName tables))) ∧
      ∀ q, .query q ∈ statements → Validated tables projectId true [] (collectTables P q) := by
  unfold rewriteWithValidation at h
  split at h
  · cases h
  · next statements hparse =>
    split at h
    · cases h
    split at h
    · cases h
    obtain ⟨_, hvalid, hout⟩ := bind_ok h
    refine ⟨statements, hparse, (Except.ok.inj hout).symm, fun q hq _ table htable _ => ?_⟩
    exact validateTable_known (forM_ok hvalid (List.mem_flatMap.mpr ⟨_, hq, htable⟩))

theorem query_mem_map_visit {T : TableTransformer} {statements : List Statement} {q : Query} :
    .query q ∈ statements.map (visitStatement P T) ↔ ∃ q', .query q' ∈ statements ∧ visit P T [] q' = q := by
  rw [List.mem_map]
  constructor
  · rintro ⟨statement, hmem, heq⟩
    cases statement with
    | query q' => exact ⟨q', hmem, Statement.query.inj heq⟩
    | other => cases heq
  · rintro ⟨q', hmem, rfl⟩
    exact ⟨_, hmem, rfl⟩

/-- The rewriter isolates the queries of a text it accepts exactly if no reference in them falls between the
    validation and the visitor. -/
theorem isolated_iff (h : rewriteWithValidation P collectionName sql tables projectId = .ok out) :
    ∃ statements, P.parse sql = some statements ∧
      out = P.print (statements.map (visitStatement P (basicTableTransformer collectionName tables))) ∧
      ((∀ q, .query q ∈ statements.map (visitStatement P (basicTableTransformer collectionName tables)) →
          Isolated tables projectId collectionName [] q) ↔
        ∀ q, .query q ∈ statements → NoGap tables projectId P collectionName true [] q) := by
  obtain ⟨statements, hparse, hout, hvalid⟩ := rewriteWithValidation_ok h
  refine ⟨statements, hparse, hout, ?_⟩
  simp only [query_mem_map_visit, forall_exists_index, and_imp]
  constructor
  · intro hiso q hq
    exact (visit_isolated q (hvalid q hq)).mp (hiso _ q hq rfl)
  · rintro hgap _ q hq rfl
    exact (visit_isolated q (hvalid q hq)).mpr (hgap q hq)

end Rewrite

/-! ### Two texts -/

def SqlParser.onText (sql : String) (query : Query) (output : String) : SqlParser where
  parse text := if text = sql then some [.query query] else none
  print _ := output
  quoted quote text := String.singleton quote ++ text ++ String.singleton quote

/-- `SELECT projection FROM table WHERE selection`. -/
def selectFrom (projection : Ast .selectItem) (table : ObjectName) (selection : Ast (.option .expr)) : Query :=
  .query (r := false) .noCte (.selectSetExpr (.select (.cons projection .nil)
    (.cons (.tableWithJoins (.table table none .nil) .nil) .nil) selection .none .nil .nil)) .nil .nil

def ordersPath : R2TablePath := { keyPrefix := "project/orders", projectId := some 1 }

def ordersTables : Dict String R2TablePath := AList.insert "orders" ordersPath ∅

def allOrders : Query := selectFrom (.wildcard .nil) [{ value := "orders" }] .none

def allOrdersParser : SqlParser :=
  .onText "SELECT * FROM orders" allOrders
    "SELECT * FROM s3(pond, filename = 'project/orders/*.parquet', format = 'Parquet') AS orders"

theorem allOrders_isolated :
    ∃ statements, allOrdersParser.parse "SELECT * FROM orders" = some statements ∧
      ∀ q, .query q ∈ statements.map (visitStatement allOrdersParser (basicTableTransformer "pond" ordersTables)) →
        Isolated ordersTables 1 "pond" [] q := by
  have hok : rewriteWithValidation allOrdersParser "pond" "SELECT * FROM orders" ordersTables 1 =
      .ok "SELECT * FROM s3(pond, filename = 'project/orders/*.parquet', format = 'Parquet') AS orders" := by decide
  obtain ⟨statements, hparse, -, hiff⟩ := isolated_iff hok
  refine ⟨statements, hparse, hiff.mpr ?_⟩
  obtain rfl : [.query allOrders] = statements := Option.some_inj.mp hparse
  intro q hq
  cases List.mem_singleton.mp hq
  have hplain : PlainName allOrdersParser [{ value := "orders" }] := by unfold PlainName; decide
  have hbuffer : lookupTable allOrdersParser (fun t => (ordersTables.lookup t).bind (·.bufferChTable))
      [{ value := "orders" }] = none := by decide
  have hskip : ¬ skipsTable allOrdersParser [] [{ value := "orders" }] := by decide
  simp [allOrders, selectFrom, NoGap, NoGapAt, Isolated, AllRefs, cteNames, hskip, hplain, hbuffer]

/-- `SELECT * FROM orders WHERE name LIKE (SELECT token FROM other_db.secrets)`. -/
def ordersLike : Query :=
  selectFrom (.wildcard .nil) [{ value := "orders" }] (.some (.like false (.identifier { value := "name" })
    (.subquery (selectFrom (.unnamedExpr (.identifier { value := "token" }))
      [{ value := "other_db" }, { value := "secrets" }] .none))))

def ordersLikeParser : SqlParser :=
  .onText "SELECT * FROM orders WHERE name LIKE (SELECT token FROM other_db.secrets)" ordersLike
    ("SELECT * FROM s3(pond, filename = 'project/orders/*.parquet', format = 'Parquet') AS orders " ++
      "WHERE name LIKE (SELECT token FROM other_db.secrets)")

/-- Neither walk looks into the pattern. -/
theorem ordersLike_not_isolated :
    rewriteWithValidation ordersLikeParser "pond"
        "SELECT * FROM orders WHERE name LIKE (SELECT token FROM other_db.secrets)" ordersTables 1 =
      .ok ("SELECT * FROM s3(pond, filename = 'project/orders/*.parquet', format = 'Parquet') AS orders " ++
        "WHERE name LIKE (SELECT token FROM other_db.secrets)") ∧
    ¬ Isolated ordersTables 1 "pond" []
        (visit ordersLikeParser (basicTableTransformer "pond" ordersTables) [] ordersLike) := by
  refine ⟨by decide +kernel, fun h => ?_⟩
  have htoken : TableOk ordersTables 1 [] [{ value := "other_db" }, { value := "secrets" }] :=
    h.2.1.2.2.1.2.2.1.2.1.1.1.1
  rcases htoken with hbound | ⟨_, _, -, -, hname⟩
  · exact hbound
  · simp at hname

end Reiver.Pond
