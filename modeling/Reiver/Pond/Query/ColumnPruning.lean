import Reiver.Lib.Dict
import Reiver.Pond.Query.DateRange
import Reiver.Pond.Query.Rewriter

/-! # Column pruning

The model of `rewrite_with_column_pruning_ast` and of the walks of its analysis in `query/rewriter.rs`. The date
predicates are an argument, and an ILIKE is read as the LIKE of its parts. The columns of a USING constraint are in
the rest of a join. -/

namespace Reiver.Pond

/-! ### Wildcards -/

/-- A `SELECT *` or `SELECT table.*` of the query itself; the walk looks into no table factor and into no
    expression. -/
def queryHasWildcard : {k : AstKind} → Ast k → Bool
  | _, .query _ body _ _ => queryHasWildcard body
  -- set_expr_has_wildcard
  | _, .selectSetExpr select => queryHasWildcard select
  | _, .querySetExpr query => queryHasWildcard query
  | _, .setOperation left right => queryHasWildcard left || queryHasWildcard right
  | _, .select projection _ _ _ _ _ => queryHasWildcard projection
  | _, .nil => false
  | _, .cons a as => queryHasWildcard a || queryHasWildcard as
  | _, .wildcard _ => true
  | _, _ => false

/-! ### Aliases -/

section Aliases
variable (P : SqlParser)

/-- The aliases of tables and their full names. -/
def collectAliases : {k : AstKind} → Ast k → List (String × String)
  | _, .nil => []
  | _, .cons a as => collectAliases a ++ collectAliases as
  -- collect_aliases_from_query
  | _, .query ctes body _ _ => collectAliases ctes ++ collectAliases body
  | _, .cte _ query tail => collectAliases query ++ collectAliases tail
  -- collect_aliases_from_set_expr
  | _, .selectSetExpr select => collectAliases select
  | _, .querySetExpr query => collectAliases query
  | _, .setOperation left right => collectAliases left ++ collectAliases right
  | _, .select _ from' _ _ _ _ => collectAliases from'
  | _, .tableWithJoins relation joins => aliasOf relation ++ collectAliases joins
  | _, .join _ relation _ => aliasOf relation
  | _, .otherJoin relation _ => aliasOf relation
  | _, _ => []
where
  aliasOf : Ast .tableFactor → List (String × String)
    | .table name (some tableAlias) _ => [(tableAlias.name.value, fullName P name)]
    | _ => []

end Aliases

/-! ### Columns -/

/-- What is collected, under the qualifier, which is empty where there is none. -/
def collectColumns : {k : AstKind} → Ast k → List (String × String)
  | _, .nil => []
  | _, .cons a as => collectColumns a ++ collectColumns as
  | _, .none => []
  | _, .some a => collectColumns a
  -- collect_columns_from_query
  | _, .query ctes body orderBy _ => collectColumns ctes ++ collectColumns body ++ collectColumns orderBy
  | _, .noCte => []
  | _, .cte _ query tail => collectColumns query ++ collectColumns tail
  -- collect_columns_from_set_expr
  | _, .selectSetExpr select => collectColumns select
  | _, .querySetExpr query => collectColumns query
  | _, .setOperation left right => collectColumns left ++ collectColumns right
  | _, .select projection _ selection having groupBy _ =>
    collectColumns projection ++ collectColumns selection ++ collectColumns groupBy ++ collectColumns having
  -- collect_columns_from_select_item
  | _, .unnamedExpr expr => collectColumns expr
  | _, .exprWithAlias expr _ => collectColumns expr
  | _, .wildcard _ => []
  -- collect_columns_from_expr
  | _, .identifier ident => [("", ident.value)]
  | _, .compoundIdentifier idents =>
    match idents.reverse with
    | column :: table :: _ => [(table.value, column.value)]
    | _ => []
  | _, .binaryOp left _ right => collectColumns left ++ collectColumns right
  | _, .function _ args _ _ _ => collectColumns args
  | _, .listArgs args _ => collectColumns args
  | _, .unnamedArg expr => collectColumns expr
  | _, .namedArg _ expr => collectColumns expr
  | _, .nested expr => collectColumns expr
  | _, .isNull expr => collectColumns expr
  | _, .isNotNull expr => collectColumns expr
  | _, .unaryOp _ expr => collectColumns expr
  | _, .inList expr list _ => collectColumns expr ++ collectColumns list
  | _, .between expr _ low high => collectColumns expr ++ collectColumns low ++ collectColumns high
  | _, .case operand conditions results elseResult =>
    collectColumns operand ++ collectColumns conditions ++ collectColumns results ++ collectColumns elseResult
  | _, .cast expr => collectColumns expr
  | _, .like _ expr pattern => collectColumns expr ++ collectColumns pattern
  | _, .subquery query => collectColumns query
  | _, .inSubquery expr subquery _ => collectColumns expr ++ collectColumns subquery
  | _, .existsQuery subquery _ => collectColumns subquery
  | _, _ => []

/-- Columns under an alias are merged into those of its table. -/
def resolveColumnAliases (columns : Dict String (List String)) (aliases : Dict String String) :
    Dict String (List String) :=
  Dict.extendAll ∅ (columns.pairs.map fun e => ((aliases.lookup e.1).getD e.1, e.2))

/-! ### Analysis -/

structure ColumnPruningAnalysis where
  selectColumns : Dict String (List String)
  hasWildcard : Bool
  tableAliases : Dict String String

def statementQueries (statements : List Statement) : List Query :=
  statements.filterMap fun
    | .query q => some q
    | .other => none

def analyzeForColumnPruning (P : SqlParser) (statements : List Statement) : ColumnPruningAnalysis where
  selectColumns := Dict.extendAll ∅ ((statementQueries statements).flatMap fun q =>
    (collectColumns q).map fun e => (e.1, [e.2]))
  hasWildcard := (statementQueries statements).any (queryHasWildcard ·)
  tableAliases := Dict.insertAll ∅ ((statementQueries statements).flatMap (collectAliases P ·))

/-! ### The transformer -/

structure TableSchema where
  columns : Dict String String

def TableSchema.getColumnTypes (schema : TableSchema) (columnNames : List String) : Dict String String :=
  Dict.insertAll ∅ (columnNames.filterMap fun name => (schema.columns.lookup name).map fun typ => (name, typ))

/-- The arguments of the `s3` call, with the structure of the columns that are given. -/
def s3ArgsWithStructure (collectionName filePattern : String) (columns : List (String × String)) :
    Ast (.vec .functionArg) :=
  .cons (.unnamedArg (.identifier { value := collectionName })) (.cons
    (.namedArg { value := "filename" } (.value (.singleQuotedString filePattern))) (.cons
      (.namedArg { value := "format" } (.value (.singleQuotedString "Parquet")))
      (if columns = [] then .nil
        else
          let structure' := ", ".intercalate (columns.map fun c => "`" ++ c.1 ++ "` " ++ c.2)
          .cons (.namedArg { value := "structure" } (.value (.singleQuotedString structure'))) .nil)))

structure ColumnPruningTransformer where
  collectionName : String
  tables : Dict String R2TablePath
  schemas : Dict String TableSchema
  referencedColumns : Dict String (List String)
  datePredicates : Dict String DateRange

namespace ColumnPruningTransformer
variable (T : ColumnPruningTransformer)

def dateRange (path : R2TablePath) : Option DateRange :=
  if path.datePartitioned then path.partitionColumn.bind (T.datePredicates.lookup ·) else none

def isImpossible (path : R2TablePath) : Bool := (T.dateRange path).any (·.isImpossible)

def filePattern (now : CalendarDate) (path : R2TablePath) : String :=
  if T.isImpossible path then path.keyPrefix ++ "/__dh_no_match__"
  else if path.datePartitioned then
    match T.dateRange path with
    | some range => range.toGlobPattern now path.keyPrefix
    | none => path.keyPrefix ++ "/**/*.parquet"
  else path.keyPrefix ++ "/*.parquet"

/-- The columns of the schema that are referenced for the table or without a qualifier. -/
def columnTypes (tableName : String) : Option (Dict String String) :=
  (T.schemas.lookup tableName).bind fun schema =>
    let allColumns := (T.referencedColumns.lookup tableName).getD [] ++ (T.referencedColumns.lookup "").getD []
    let types := schema.getColumnTypes allColumns
    if types.pairs = [] then none else some types

/-- The columns of the structure hint, by name; none where there is no hint. -/
def structureHint (tableName : String) (path : R2TablePath) : List (String × String) :=
  if T.isImpossible path then []
  else ((T.columnTypes tableName).map fun types => types.pairs.mergeSort (fun a b => decide (a.1 ≤ b.1))).getD []

def toTableTransformer (now : CalendarDate) : TableTransformer where
  transformTable name := (T.tables.lookup name).map fun path =>
    .function s3Name (.listArgs (s3ArgsWithStructure T.collectionName (T.filePattern now path)
      (T.structureHint name path)) .nil) .none .none .nil
  bufferTable name := (T.tables.lookup name).bind (·.bufferChTable)

end ColumnPruningTransformer

/-- The transformer for the columns that the statements refer to. -/
def columnPruningTransformer (P : SqlParser) (collectionName : String) (tables : Dict String R2TablePath)
    (schemas : Dict String TableSchema) (datePredicates : Dict String DateRange) (statements : List Statement) :
    ColumnPruningTransformer :=
  let analysis := analyzeForColumnPruning P statements
  { collectionName, tables, schemas, datePredicates
    referencedColumns := resolveColumnAliases analysis.selectColumns analysis.tableAliases }

/-- `rewrite_with_column_pruning_ast`; `partitionPruned` is the rewrite without column pruning. -/
def rewriteWithColumnPruningAst (P : SqlParser) (now : CalendarDate) (collectionName : String)
    (tables : Dict String R2TablePath) (schemas : Dict String TableSchema) (datePredicates : Dict String DateRange)
    (partitionPruned : List Statement → List Statement) (statements : List Statement) : String :=
  if (analyzeForColumnPruning P statements).hasWildcard then P.print (partitionPruned statements)
  else
    let transformer := columnPruningTransformer P collectionName tables schemas datePredicates statements
    P.print (statements.map (visitStatement P (transformer.toTableTransformer now)))

end Reiver.Pond
