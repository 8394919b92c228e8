import Reiver.Pond.Query.Ast

/-! # The table rewriter

The model of `collect_tables_*`, the `AstVisitor` and `rewrite_with_validation` of `query/rewriter.rs`, without a
plan cache. The two walks are one function each, with a branch for each constructor. -/

namespace Reiver.Pond

/-- What the SQL parser decides: the statements of a text, their text, and the text of a quoted identifier. -/
structure SqlParser where
  parse : String → Option (List Statement)
  print : List Statement → String
  quoted : Char → String → String

def Ident.display (P : SqlParser) (ident : Ident) : String :=
  match ident.quoteStyle with
  | none => ident.value
  | some quote => P.quoted quote ident.value

/-- `name.to_string()`. -/
def fullName (P : SqlParser) (name : ObjectName) : String := ".".intercalate (name.map (·.display P))

def shortName (name : ObjectName) : String := (name.getLast?.map (·.value)).getD ""

/-- `rsplit('.').next()`. -/
def afterLastDot (s : String) : String := String.ofList (s.toList.reverse.takeWhile (· ≠ '.')).reverse

/-! ### Paths -/

/-- How the files of an external table are partitioned; the files of a bucket strategy are kept by path. -/
inductive PartitionStrategy where
  | hiveStyle (pattern : String) (columns : List String)
  | timestampBucket (column : String) (filePartitions : List (String × String))
  | hashBucket (numBuckets : Nat)
  | flat
deriving DecidableEq

structure R2TablePath where
  keyPrefix : String
  projectId : Option Uuid
  datePartitioned : Bool := false
  partitionColumn : Option String := none
  detectedPartitionScheme : Option PartitionStrategy := none
  bufferChTable : Option String := none
deriving DecidableEq

/-- The text of a UUID, in groups of hexadecimal digits. -/
def Uuid.text (id : Uuid) : String :=
  let digits := (Nat.toDigits 16 id).leftpad 32 '0'
  let group := fun from' len => String.ofList ((digits.drop from').take len)
  "-".intercalate [group 0 8, group 8 4, group 12 4, group 16 4, group 20 12]

/-- The second branch is for paths from before projects were recorded. -/
def R2TablePath.belongsToProject (path : R2TablePath) (projectId : Uuid) : Bool :=
  match path.projectId with
  | some pid => pid = projectId
  | none => (Uuid.text projectId).isPrefixOf path.keyPrefix

/-! ### Collecting -/

section Collect
variable (P : SqlParser)

/-- The full names of the tables that a tree refers to, without the common table expressions of its queries. -/
def collectTables : {k : AstKind} → Ast k → List String
  | _, .nil => []
  | _, .cons a as => collectTables a ++ collectTables as
  | _, .none => []
  | _, .some a => collectTables a
  -- collect_tables_from_query
  | _, .query ctes body _ _ => collectTables ctes ++ (collectTables body).filter (· ∉ cteNames ctes)
  | _, .noCte => []
  | _, .cte (r := true) name query tail =>
    (collectTables query).filter (· ≠ name.value) ++ (collectTables tail).filter (· ≠ name.value)
  | _, .cte (r := false) name query tail =>
    collectTables query ++ (collectTables tail).filter (· ≠ name.value)
  -- collect_tables_from_set_expr
  | _, .selectSetExpr select => collectTables select
  | _, .querySetExpr query => collectTables query
  | _, .setOperation left right => collectTables left ++ collectTables right
  | _, .otherSetExpr _ _ => []
  | _, .select projection from' selection having _ _ =>
    collectTables from' ++ collectTables selection ++ collectTables having ++ collectTables projection
  | _, .unnamedExpr expr => collectTables expr
  | _, .exprWithAlias expr _ => collectTables expr
  | _, .wildcard _ => []
  -- collect_tables_from_expr
  | _, .subquery query => collectTables query
  | _, .inSubquery _ subquery _ => collectTables subquery
  | _, .existsQuery subquery _ => collectTables subquery
  | _, .binaryOp left _ right => collectTables left ++ collectTables right
  | _, .unaryOp _ expr => collectTables expr
  | _, .nested expr => collectTables expr
  | _, .between expr _ low high => collectTables expr ++ collectTables low ++ collectTables high
  | _, .inList expr list _ => collectTables expr ++ collectTables list
  | _, .case operand conditions results elseResult =>
    collectTables operand ++ collectTables conditions ++ collectTables results ++ collectTables elseResult
  | _, .cast expr => collectTables expr
  | _, .function _ args filter window _ => collectTables args ++ collectTables filter ++ collectTables window
  | _, .identifier _ => []
  | _, .compoundIdentifier _ => []
  | _, .value _ => []
  | _, .isNull _ => []
  | _, .isNotNull _ => []
  | _, .like _ _ _ => []
  | _, .otherExpr _ => []
  | _, .unnamedArg expr => collectTables expr
  | _, .namedArg _ expr => collectTables expr
  | _, .wildcardArg => []
  | _, .noArgs => []
  | _, .subqueryArgs _ => []
  | _, .listArgs args _ => collectTables args
  | _, .windowSpec partitionBy orderBy _ => collectTables partitionBy ++ collectTables orderBy
  -- collect_tables_from_table_with_joins, collect_tables_from_table_factor
  | _, .tableWithJoins relation joins => collectTables relation ++ collectTables joins
  | _, .join _ relation on => collectTables relation ++ collectTables on
  | _, .otherJoin relation _ => collectTables relation
  | _, .table name _ _ => if fullName P name = "" then [] else [fullName P name]
  | _, .derived subquery _ => collectTables subquery
  | _, .nestedJoin tableWithJoins _ => collectTables tableWithJoins
  | _, .functionFactor _ _ _ _ => []
  | _, .otherFactor _ _ => []

end Collect

/-! ### Visiting -/

structure TableTransformer where
  transformTable : String → Option Expr
  bufferTable : String → Option String

/-- The name a transformer knows the table by: the full name, else the last part. -/
def lookupTable {α : Type} (P : SqlParser) (f : String → Option α) (name : ObjectName) : Option α :=
  (f (fullName P name)).or (if shortName name ≠ fullName P name then f (shortName name) else none)

theorem lookupTable_map {α β : Type} {P : SqlParser} (f : String → Option α) (g : α → β) (name : ObjectName) :
    lookupTable P (fun t => (f t).map g) name = (lookupTable P f name).map g := by
  unfold lookupTable
  rcases hfull : f (fullName P name) with - | a
  · split <;> simp [hfull]
  · simp [hfull]

/-- `SELECT * FROM factor`. -/
def makeStarSelect (factor : Ast .tableFactor) : Ast .setExpr :=
  .selectSetExpr
    (.select (.cons (.wildcard .nil) .nil) (.cons (.tableWithJoins factor .nil) .nil) .none .none .nil .nil)

def skipsTable (P : SqlParser) (ctes : List String) (name : ObjectName) : Prop :=
  fullName P name ∈ ctes ∨ shortName name ∈ ctes

instance (P : SqlParser) (ctes : List String) (name : ObjectName) : Decidable (skipsTable P ctes name) :=
  inferInstanceAs (Decidable (_ ∨ _))

/-- The factor that takes the place of a table: a call of the function the transformer returns, or its union with
    the buffer table. -/
def replaceTable (P : SqlParser) (T : TableTransformer) (name : ObjectName) (tableAlias : Option TableAlias)
    (rest : Ast (.vec .expr)) : Ast .tableFactor :=
  match lookupTable P T.transformTable name with
  | some (.function func args _ _ _) =>
    let args := match args with
      | .listArgs args _ => args
      | _ => .nil
    let effectiveAlias := tableAlias.or (name.getLast?.map fun ident => { name := ident })
    match lookupTable P T.bufferTable name with
    | some buffer =>
      .derived (.query (r := false) .noCte
        (.setOperation (makeStarSelect (.functionFactor false func args none))
          (makeStarSelect (.table [{ value := buffer, quoteStyle := some '`' }] none .nil))) .nil .nil) effectiveAlias
    | none => .functionFactor false func args effectiveAlias
  | _ => .table name tableAlias rest

section Visit
variable (P : SqlParser) (T : TableTransformer)

/-- `ctes` are the names registered when the visitor reaches the tree. -/
def visit : {k : AstKind} → (ctes : List String) → Ast k → Ast k
  | _, _, .nil => .nil
  | _, ctes, .cons a as => .cons (visit ctes a) (visit ctes as)
  | _, _, .none => .none
  | _, ctes, .some a => .some (visit ctes a)
  -- visit_query
  | _, ctes, .query with' body orderBy rest =>
    .query (visit ctes with') (visit (cteNames with' ++ ctes) body) (visit (cteNames with' ++ ctes) orderBy) rest
  | _, _, .noCte => .noCte
  | _, ctes, .cte (r := true) name query tail =>
    .cte name (visit (name.value :: ctes) query) (visit (name.value :: ctes) tail)
  | _, ctes, .cte (r := false) name query tail =>
    .cte name (visit ctes query) (visit (name.value :: ctes) tail)
  -- visit_set_expr
  | _, ctes, .selectSetExpr select => .selectSetExpr (visit ctes select)
  | _, ctes, .querySetExpr query => .querySetExpr (visit ctes query)
  | _, ctes, .setOperation left right => .setOperation (visit ctes left) (visit ctes right)
  | _, _, .otherSetExpr tables rest => .otherSetExpr tables rest
  | _, ctes, .select projection from' selection having groupBy rest =>
    .select (visit ctes projection) (visit ctes from') (visit ctes selection) (visit ctes having)
      (visit ctes groupBy) rest
  | _, ctes, .unnamedExpr expr => .unnamedExpr (visit ctes expr)
  | _, ctes, .exprWithAlias expr columnAlias => .exprWithAlias (visit ctes expr) columnAlias
  | _, _, .wildcard rest => .wildcard rest
  -- visit_expr
  | _, ctes, .subquery query => .subquery (visit ctes query)
  | _, ctes, .inSubquery expr subquery negated => .inSubquery (visit ctes expr) (visit ctes subquery) negated
  | _, ctes, .existsQuery subquery negated => .existsQuery (visit ctes subquery) negated
  | _, ctes, .binaryOp left op right => .binaryOp (visit ctes left) op (visit ctes right)
  | _, ctes, .unaryOp op expr => .unaryOp op (visit ctes expr)
  | _, ctes, .nested expr => .nested (visit ctes expr)
  | _, ctes, .between expr negated low high =>
    .between (visit ctes expr) negated (visit ctes low) (visit ctes high)
  | _, ctes, .isNull expr => .isNull (visit ctes expr)
  | _, ctes, .isNotNull expr => .isNotNull (visit ctes expr)
  | _, ctes, .inList expr list negated => .inList (visit ctes expr) (visit ctes list) negated
  | _, ctes, .case operand conditions results elseResult =>
    .case (visit ctes operand) (visit ctes conditions) (visit ctes results) (visit ctes elseResult)
  | _, ctes, .cast expr => .cast (visit ctes expr)
  | _, ctes, .function name args filter window rest => .function name (visit ctes args) filter window rest
  | _, _, .identifier ident => .identifier ident
  | _, _, .compoundIdentifier idents => .compoundIdentifier idents
  | _, _, .value v => .value v
  | _, _, .like negated expr pattern => .like negated expr pattern
  | _, _, .otherExpr rest => .otherExpr rest
  | _, ctes, .unnamedArg expr => .unnamedArg (visit ctes expr)
  | _, ctes, .namedArg name expr => .namedArg name (visit ctes expr)
  | _, _, .wildcardArg => .wildcardArg
  | _, _, .noArgs => .noArgs
  | _, _, .subqueryArgs query => .subqueryArgs query
  | _, ctes, .listArgs args rest => .listArgs (visit ctes args) rest
  | _, _, .windowSpec partitionBy orderBy rest => .windowSpec partitionBy orderBy rest
  -- visit_table_with_joins, visit_table_factor
  | _, ctes, .tableWithJoins relation joins => .tableWithJoins (visit ctes relation) (visit ctes joins)
  | _, ctes, .join operator relation on => .join operator (visit ctes relation) (visit ctes on)
  | _, ctes, .otherJoin relation rest => .otherJoin (visit ctes relation) rest
  | _, ctes, .table name tableAlias rest =>
    if skipsTable P ctes name then .table name tableAlias rest else replaceTable P T name tableAlias rest
  | _, ctes, .derived subquery tableAlias => .derived (visit ctes subquery) tableAlias
  | _, ctes, .nestedJoin tableWithJoins tableAlias => .nestedJoin (visit ctes tableWithJoins) tableAlias
  | _, _, .functionFactor lateral name args tableAlias => .functionFactor lateral name args tableAlias
  | _, _, .otherFactor tables rest => .otherFactor tables rest

theorem visit_table (ctes : List String) (name : ObjectName) (tableAlias : Option TableAlias)
    (rest : Ast (.vec .expr)) : visit P T ctes (.table name tableAlias rest) =
      if skipsTable P ctes name then .table name tableAlias rest else replaceTable P T name tableAlias rest := rfl

def visitStatement : Statement → Statement
  | .query q => .query (visit P T [] q)
  | .other => .other

end Visit

/-! ### Storage table functions -/

/-- The arguments of `s3(collection, filename='…', format='Parquet')`. -/
def s3Args (collectionName filePattern : String) : Ast (.vec .functionArg) :=
  .cons (.unnamedArg (.identifier { value := collectionName })) (.cons
    (.namedArg { value := "filename" } (.value (.singleQuotedString filePattern))) (.cons
      (.namedArg { value := "format" } (.value (.singleQuotedString "Parquet"))) .nil))

def s3Name : ObjectName := [{ value := "s3" }]

def buildS3Function (collectionName filePattern : String) : Expr :=
  .function s3Name (.listArgs (s3Args collectionName filePattern) .nil) .none .none .nil

def basicTableTransformer (collectionName : String) (tables : Dict String R2TablePath) : TableTransformer where
  transformTable name :=
    (tables.lookup name).map fun path => buildS3Function collectionName (path.keyPrefix ++ "/*.parquet")
  bufferTable name := (tables.lookup name).bind (·.bufferChTable)

/-! ### Validation -/

inductive RewriteError where
  | parse
  | unsupportedStatement
  | tableNotFound (table : String)
  | accessDenied (table : String) (projectId : Uuid)
  | noTablesProvided
deriving DecidableEq

def Statement.isQuery : Statement → Bool
  | .query _ => true
  | .other => false

def extractTablesFromAst (P : SqlParser) (statements : List Statement) : List String :=
  statements.flatMap fun
    | .query q => collectTables P q
    | .other => []

/-- A referenced table is known by its full name or by what follows the last dot. -/
def validateTable (tables : Dict String R2TablePath) (projectId : Uuid) (table : String) : Except RewriteError Unit :=
  match (tables.lookup table).or (tables.lookup (afterLastDot table)) with
  | some path => if path.belongsToProject projectId then .ok () else .error (.accessDenied table projectId)
  | none => .error (.tableNotFound table)

/-- `rewrite_with_validation` of a rewriter without a plan cache. -/
def rewriteWithValidation (P : SqlParser) (collectionName : String) (sql : String) (tables : Dict String R2TablePath)
    (projectId : Uuid) : Except RewriteError String :=
  match P.parse sql with
  | none => .error .parse
  | some statements =>
    if statements.any (!·.isQuery) then .error .unsupportedStatement
    else if extractTablesFromAst P statements = [] then .error .noTablesProvided
    else do
      (extractTablesFromAst P statements).forM (validateTable tables projectId)
      .ok (P.print (statements.map (visitStatement P (basicTableTransformer collectionName tables))))

end Reiver.Pond
