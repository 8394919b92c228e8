import Mathlib.Data.List.Sort
import Reiver.Pond.Query.Isolation

/-! # The query plan cache

The model of `QueryPlanCache` of `query/rewriter.rs` and of the two rewrites that use it. The values that go into a
hash stand for it. The key of a plan leaves the hot buffers out, and the visitor reads them (`cachedPlan_iff`). -/

namespace Reiver.Pond

structure HashedPath where
  keyPrefix : String
  datePartitioned : Bool
  partitionColumn : Option String
  detectedPartitionScheme : Option PartitionStrategy
deriving DecidableEq

def R2TablePath.hashed (path : R2TablePath) : HashedPath where
  keyPrefix := path.keyPrefix
  datePartitioned := path.datePartitioned
  partitionColumn := path.partitionColumn
  detectedPartitionScheme := path.detectedPartitionScheme

abbrev TablesHash := List (String × Option HashedPath)

def hashTables (tables : Dict String R2TablePath) : TablesHash :=
  (tables.keys.insertionSort (· ≤ ·)).map fun name => (name, (tables.lookup name).map (·.hashed))

structure QueryPlanCacheKey where
  queryHash : String
  tablesHash : TablesHash
deriving DecidableEq

structure CachedQueryPlan where
  rewrittenSql : String
  generation : Nat
deriving DecidableEq

structure QueryPlanCache where
  cache : Dict QueryPlanCacheKey CachedQueryPlan := ∅
  generation : Nat := 0
  maxMemoryBytes : Nat

def planKey (sql : String) (tables : Dict String R2TablePath) : QueryPlanCacheKey where
  queryHash := sql
  tablesHash := hashTables tables

namespace QueryPlanCache

def get (c : QueryPlanCache) (sql : String) (tables : Dict String R2TablePath) : Option String :=
  match c.cache.lookup (planKey sql tables) with
  | some entry => if entry.generation = c.generation then some entry.rewrittenSql else none
  | none => none

/-- An entry over a tenth of the memory is refused. -/
def put (c : QueryPlanCache) (sql : String) (tables : Dict String R2TablePath) (rewrittenSql : String) :
    QueryPlanCache :=
  if rewrittenSql.utf8ByteSize + 48 > c.maxMemoryBytes / 10 then c
  else { c with cache := c.cache.insert (planKey sql tables) { rewrittenSql, generation := c.generation } }

def incrementGeneration (c : QueryPlanCache) : QueryPlanCache := { c with generation := c.generation + 1 }

def clear (c : QueryPlanCache) : QueryPlanCache := { c with cache := ∅ }

def evict (c : QueryPlanCache) (key : QueryPlanCacheKey) : QueryPlanCache := { c with cache := c.cache.erase key }

end QueryPlanCache

/-! ### Rewriting through the cache -/

section Rewrite
variable (P : SqlParser) (collectionName : String)

/-- The statements that are printed for some statements. -/
def rewritten (tables : Dict String R2TablePath) (statements : List Statement) : List Statement :=
  statements.map (visitStatement P (basicTableTransformer collectionName tables))

def freshRewrite (sql : String) (tables : Dict String R2TablePath) : Option String :=
  (P.parse sql).map fun statements => P.print (rewritten P collectionName tables statements)

/-- `rewrite`, and `rewrite_with_validation` once the validation has passed. -/
def rewrite (c : QueryPlanCache) (sql : String) (tables : Dict String R2TablePath) : QueryPlanCache × Option String :=
  match c.get sql tables with
  | some cached => (c, some cached)
  | none =>
    match freshRewrite P collectionName sql tables with
    | some result => (c.put sql tables result, some result)
    | none => (c, none)

end Rewrite

/-- What happens to a cache: rewrites put plans, syncs and configuration changes invalidate, and it makes room. -/
inductive PlanCacheAction where
  | put (sql : String) (tables : Dict String R2TablePath) (rewrittenSql : String)
  | incrementGeneration
  | clear
  | evict (key : QueryPlanCacheKey)

namespace PlanCacheAction

def apply (c : QueryPlanCache) : PlanCacheAction → QueryPlanCache
  | .put sql tables rewrittenSql => c.put sql tables rewrittenSql
  | .incrementGeneration => c.incrementGeneration
  | .clear => c.clear
  | .evict key => c.evict key

/-- The generation does not change, and no other plan takes the place of the one under the key. -/
def Keeps (key : QueryPlanCacheKey) : PlanCacheAction → Prop
  | .put sql tables _ => planKey sql tables ≠ key
  | .incrementGeneration => False
  | .clear => True
  | .evict _ => True

end PlanCacheAction

/-! ### What a cache holds -/

section Entries
variable {c : QueryPlanCache} {key : QueryPlanCacheKey} {entry : CachedQueryPlan} {generation : Nat}

/-- Under the key there is the entry, if anything. -/
structure HoldsOnly (key : QueryPlanCacheKey) (entry : CachedQueryPlan) (generation : Nat) (c : QueryPlanCache) :
    Prop where
  lookup : ∀ e ∈ c.cache.lookup key, e = entry
  generation : c.generation = generation

theorem HoldsOnly.apply {a : PlanCacheAction} (h : HoldsOnly key entry generation c) (ha : a.Keeps key) :
    HoldsOnly key entry generation (a.apply c) := by
  cases a with
  | put sql tables rewrittenSql =>
    show HoldsOnly key entry generation (c.put sql tables rewrittenSql)
    unfold QueryPlanCache.put
    split
    · exact h
    · refine ⟨fun e he => h.lookup e ?_, h.generation⟩
      rwa [Dict.lookup_insert', if_neg (Ne.symm ha)] at he
  | incrementGeneration => exact ha.elim
  | clear => exact ⟨fun e he => (nomatch he), h.generation⟩
  | evict key' =>
    refine ⟨fun e he => h.lookup e ?_, h.generation⟩
    have he : e ∈ AList.lookup key (c.cache.erase key') := he
    rw [Dict.lookup_erase'] at he
    split at he
    · cases he
    · exact he

theorem HoldsOnly.foldl {actions : List PlanCacheAction} (h : HoldsOnly key entry generation c)
    (hkeeps : ∀ a ∈ actions, a.Keeps key) :
    HoldsOnly key entry generation (actions.foldl PlanCacheAction.apply c) := by
  induction actions generalizing c with
  | nil => exact h
  | cons a actions ih =>
    exact ih (h.apply (hkeeps a List.mem_cons_self)) fun b hb => hkeeps b (List.mem_cons_of_mem _ hb)

theorem get_eq_some {sql plan : String} {tables : Dict String R2TablePath} (h : c.get sql tables = some plan) :
    c.cache.lookup (planKey sql tables) = some ⟨plan, c.generation⟩ := by
  unfold QueryPlanCache.get at h
  split at h
  · next entry hentry =>
    split at h
    · next hgen =>
      cases h
      rw [hentry, ← hgen]
    · cases h
  · cases h

end Entries

/-! ### What the key says of the tables -/

section Key
variable {tables tables' : Dict String R2TablePath}

theorem mem_hashTables {name : String} {path : Option HashedPath} : (name, path) ∈ hashTables tables ↔
    name ∈ tables ∧ (tables.lookup name).map (·.hashed) = path := by
  simp only [hashTables, List.mem_map, List.mem_insertionSort, Prod.mk.injEq, ← AList.mem_keys]
  constructor
  · rintro ⟨_, hmem, rfl, rfl⟩
    exact ⟨hmem, rfl⟩
  · rintro ⟨hmem, rfl⟩
    exact ⟨name, hmem, rfl, rfl⟩

theorem lookup_of_hashTables (h : hashTables tables = hashTables tables') (name : String) :
    (tables.lookup name).map (·.hashed) = (tables'.lookup name).map (·.hashed) := by
  by_cases hmem : name ∈ tables
  · have h' := mem_hashTables.mpr ⟨hmem, rfl⟩
    rw [h] at h'
    exact (mem_hashTables.mp h').2.symm
  · have hmem' : name ∉ tables' := fun hin => hmem (mem_hashTables.mp (h ▸ mem_hashTables.mpr ⟨hin, rfl⟩)).1
    rw [AList.lookup_eq_none.mpr hmem, AList.lookup_eq_none.mpr hmem']

end Key

/-! ### What the visitor reads of the tables -/

section Visit
variable (P : SqlParser)

/-- The names of the tables the visitor replaces if the transformer knows them. -/
def visitedTables : {k : AstKind} → (ctes : List String) → Ast k → List ObjectName
  | _, _, .nil => []
  | _, ctes, .cons a as => visitedTables ctes a ++ visitedTables ctes as
  | _, _, .none => []
  | _, ctes, .some a => visitedTables ctes a
  | _, ctes, .query with' body orderBy _ =>
    visitedTables ctes with' ++ visitedTables (cteNames with' ++ ctes) body ++
      visitedTables (cteNames with' ++ ctes) orderBy
  | _, _, .noCte => []
  | _, ctes, .cte (r := true) name query tail =>
    visitedTables (name.value :: ctes) query ++ visitedTables (name.value :: ctes) tail
  | _, ctes, .cte (r := false) name query tail => visitedTables ctes query ++ visitedTables (name.value :: ctes) tail
  | _, ctes, .selectSetExpr select => visitedTables ctes select
  | _, ctes, .querySetExpr query => visitedTables ctes query
  | _, ctes, .setOperation left right => visitedTables ctes left ++ visitedTables ctes right
  | _, _, .otherSetExpr _ _ => []
  | _, ctes, .select projection from' selection having groupBy _ =>
    visitedTables ctes projection ++ visitedTables ctes from' ++ visitedTables ctes selection ++
      visitedTables ctes having ++ visitedTables ctes groupBy
  | _, ctes, .unnamedExpr expr => visitedTables ctes expr
  | _, ctes, .exprWithAlias expr _ => visitedTables ctes expr
  | _, _, .wildcard _ => []
  | _, ctes, .subquery query => visitedTables ctes query
  | _, ctes, .inSubquery expr subquery _ => visitedTables ctes expr ++ visitedTables ctes subquery
  | _, ctes, .existsQuery subquery _ => visitedTables ctes subquery
  | _, ctes, .binaryOp left _ right => visitedTables ctes left ++ visitedTables ctes right
  | _, ctes, .unaryOp _ expr => visitedTables ctes expr
  | _, ctes, .nested expr => visitedTables ctes expr
  | _, ctes, .between expr _ low high => visitedTables ctes expr ++ visitedTables ctes low ++ visitedTables ctes high
  | _, ctes, .isNull expr => visitedTables ctes expr
  | _, ctes, .isNotNull expr => visitedTables ctes expr
  | _, ctes, .inList expr list _ => visitedTables ctes expr ++ visitedTables ctes list
  | _, ctes, .case operand conditions results elseResult =>
    visitedTables ctes operand ++ visitedTables ctes conditions ++ visitedTables ctes results ++
      visitedTables ctes elseResult
  | _, ctes, .cast expr => visitedTables ctes expr
  | _, ctes, .function _ args _ _ _ => visitedTables ctes args
  | _, _, .identifier _ => []
  | _, _, .compoundIdentifier _ => []
  | _, _, .value _ => []
  | _, _, .like _ _ _ => []
  | _, _, .otherExpr _ => []
  | _, ctes, .unnamedArg expr => visitedTables ctes expr
  | _, ctes, .namedArg _ expr => visitedTables ctes expr
  | _, _, .wildcardArg => []
  | _, _, .noArgs => []
  | _, _, .subqueryArgs _ => []
  | _, ctes, .listArgs args _ => visitedTables ctes args
  | _, _, .windowSpec _ _ _ => []
  | _, ctes, .tableWithJoins relation joins => visitedTables ctes relation ++ visitedTables ctes joins
  | _, ctes, .join _ relation on => visitedTables ctes relation ++ visitedTables ctes on
  | _, ctes, .otherJoin relation _ => visitedTables ctes relation
  | _, ctes, .table name _ _ => if skipsTable P ctes name then [] else [name]
  | _, ctes, .derived subquery _ => visitedTables ctes subquery
  | _, ctes, .nestedJoin tableWithJoins _ => visitedTables ctes tableWithJoins
  | _, _, .functionFactor _ _ _ _ => []
  | _, _, .otherFactor _ _ => []

variable {P} {T T' : TableTransformer} {agree : ObjectName → Prop}

theorem visit_eq_iff (hreplace : ∀ name tableAlias rest,
      replaceTable P T name tableAlias rest = replaceTable P T' name tableAlias rest ↔ agree name)
    {k : AstKind} (ctes : List String) (a : Ast k) :
    visit P T ctes a = visit P T' ctes a ↔ ∀ name ∈ visitedTables P ctes a, agree name := by
  induction a generalizing ctes with
  | table name tableAlias rest =>
    have hvisited : visitedTables P ctes (.table name tableAlias rest) =
      if skipsTable P ctes name then [] else [name] := rfl
    rw [visit_table, visit_table, hvisited]
    split
    · exact iff_of_true rfl fun _ h => (nomatch h)
    · rw [hreplace, List.forall_mem_singleton]
  | @cte r name query tail ihq iht => cases r <;> simp [visit, visitedTables, *, or_imp, forall_and]
  | _ => simp [visit, visitedTables, *, or_imp, forall_and]

end Visit

/-! ### A plan of other tables -/

section Plans
variable {P : SqlParser} {collectionName sql : String} {tables tables' : Dict String R2TablePath}

def bufferOf (P : SqlParser) (tables : Dict String R2TablePath) (name : ObjectName) : Option String :=
  lookupTable P (fun t => (tables.lookup t).bind (·.bufferChTable)) name

/-- A known table has one hot buffer in both, or none. -/
def SameBuffer (P : SqlParser) (tables tables' : Dict String R2TablePath) (name : ObjectName) : Prop :=
  lookupTable P tables'.lookup name ≠ none → bufferOf P tables name = bufferOf P tables' name

theorem replaceTable_eq_iff (h : hashTables tables = hashTables tables') (name : ObjectName)
    (tableAlias : Option TableAlias) (rest : Ast (.vec .expr)) :
    replaceTable P (basicTableTransformer collectionName tables) name tableAlias rest =
      replaceTable P (basicTableTransformer collectionName tables') name tableAlias rest ↔
        SameBuffer P tables tables' name := by
  have hhashed :
    (lookupTable P tables.lookup name).map (·.hashed) = (lookupTable P tables'.lookup name).map (·.hashed) := by
    rw [← lookupTable_map, ← lookupTable_map, funext (lookup_of_hashTables h)]
  unfold replaceTable basicTableTransformer SameBuffer
  rw [lookupTable_map, lookupTable_map]
  rcases hpath : lookupTable P tables.lookup name with - | path
  · rw [hpath] at hhashed
    rw [Option.map_eq_none_iff.mp hhashed.symm]
    exact iff_of_true rfl fun hne => (hne rfl).elim
  rw [hpath] at hhashed
  obtain ⟨path', hpath', hsame⟩ := Option.map_eq_some_iff.mp hhashed.symm
  have hkey : path'.keyPrefix = path.keyPrefix := congrArg HashedPath.keyPrefix hsame
  rw [hpath']
  show _ ↔ (some path' ≠ none → bufferOf P tables name = bufferOf P tables' name)
  simp only [Option.map_some, buildS3Function, hkey]
  rw [show lookupTable P (fun t => (tables.lookup t).bind (·.bufferChTable)) name = bufferOf P tables name from rfl,
    show lookupTable P (fun t => (tables'.lookup t).bind (·.bufferChTable)) name = bufferOf P tables' name from rfl]
  cases bufferOf P tables name with
  | none => cases bufferOf P tables' name <;> simp
  | some buffer => cases bufferOf P tables' name <;> simp [makeStarSelect]

theorem rewritten_eq_iff (h : hashTables tables = hashTables tables') (statements : List Statement) :
    rewritten P collectionName tables statements = rewritten P collectionName tables' statements ↔
      ∀ q, .query q ∈ statements → ∀ name ∈ visitedTables P [] q, SameBuffer P tables tables' name := by
  have hvisit : ∀ q : Query, visit P (basicTableTransformer collectionName tables) [] q =
      visit P (basicTableTransformer collectionName tables') [] q ↔
        ∀ name ∈ visitedTables P [] q, SameBuffer P tables tables' name := fun q =>
    visit_eq_iff (replaceTable_eq_iff h) [] q
  rw [rewritten, rewritten, List.map_inj_left]
  constructor
  · intro hall q hq
    exact (hvisit q).mp (Statement.query.inj (hall _ hq))
  · intro hall statement hmem
    cases statement with
    | query q => exact congrArg Statement.query ((hvisit q).mpr (hall q hmem))
    | other => rfl

/-- A plan that was put for some tables and is got for others, with no other plan put in its place and no change of
    generation in between, is what the others are rewritten to exactly if no visited table has another hot buffer. -/
theorem cachedPlan_iff {c : QueryPlanCache} {stored plan : String} {actions : List PlanCacheAction}
    (hstored : freshRewrite P collectionName sql tables = some stored)
    (hsize : stored.utf8ByteSize + 48 ≤ c.maxMemoryBytes / 10)
    (hkeeps : ∀ a ∈ actions, a.Keeps (planKey sql tables)) (hhit : hashTables tables = hashTables tables')
    (hget : (actions.foldl PlanCacheAction.apply (c.put sql tables stored)).get sql tables' = some plan) :
    ∃ statements, P.parse sql = some statements ∧ plan = P.print (rewritten P collectionName tables statements) ∧
      freshRewrite P collectionName sql tables' = some (P.print (rewritten P collectionName tables' statements)) ∧
      (rewritten P collectionName tables statements = rewritten P collectionName tables' statements ↔
        ∀ q, .query q ∈ statements → ∀ name ∈ visitedTables P [] q, SameBuffer P tables tables' name) := by
  have hput : HoldsOnly (planKey sql tables) ⟨stored, c.generation⟩ c.generation (c.put sql tables stored) := by
    rw [QueryPlanCache.put, if_neg (by omega)]
    refine ⟨fun e he => ?_, rfl⟩
    rw [AList.lookup_insert] at he
    exact (Option.some_inj.mp he).symm
  have hentry := get_eq_some hget
  rw [planKey, ← hhit, ← planKey] at hentry
  obtain rfl : plan = stored := congrArg CachedQueryPlan.rewrittenSql ((hput.foldl hkeeps).lookup _ hentry)
  obtain ⟨statements, hparse, hprint⟩ := Option.map_eq_some_iff.mp hstored
  exact ⟨statements, hparse, hprint.symm, by rw [freshRewrite, hparse, Option.map_some],
    rewritten_eq_iff hhit statements⟩

end Plans

/-! ### A buffer that appears -/

def ordersSql : String := "SELECT * FROM orders"

def storedOrders : String :=
  "SELECT * FROM s3(pond, filename = 'project/orders/*.parquet', format = 'Parquet') AS orders"

def bufferedOrders : String :=
  "SELECT * FROM (SELECT * FROM s3(pond, filename = 'project/orders/*.parquet', format = 'Parquet') " ++
    "UNION ALL SELECT * FROM `orders_buffer`) AS orders"

/-- The printer, on the two rewrites of `SELECT * FROM orders`. -/
def printOrders : List Statement → String
  | [.query (.query _ (.selectSetExpr (.select _ (.cons (.tableWithJoins (.derived _ _) _) _) _ _ _ _)) _ _)] =>
    bufferedOrders
  | _ => storedOrders

def ordersParser : SqlParser := { allOrdersParser with print := printOrders }

def bufferedTables : Dict String R2TablePath :=
  AList.insert "orders" { ordersPath with bufferChTable := some "orders_buffer" } ∅

def emptyPlanCache : QueryPlanCache := { maxMemoryBytes := 1000000 }

/-- The plan from before the buffer is returned: the rows in the buffer are missing. -/
theorem bufferedTables_get_stale_plan :
    (rewrite ordersParser "pond" emptyPlanCache ordersSql ordersTables).1.get ordersSql bufferedTables =
        some storedOrders ∧
      freshRewrite ordersParser "pond" ordersSql bufferedTables = some bufferedOrders ∧
      storedOrders ≠ bufferedOrders := by
  refine ⟨by decide +kernel, by decide +kernel, by decide +kernel⟩

/-- The tables as they were before projects were recorded. -/
def legacyTables : Dict String R2TablePath := AList.insert "orders" { ordersPath with projectId := none } ∅

/-- The project is not hashed, but nothing depends on it. -/
theorem legacyTables_get_fresh_plan : ∃ statements, ordersParser.parse ordersSql = some statements ∧
    rewritten ordersParser "pond" ordersTables statements = rewritten ordersParser "pond" legacyTables statements := by
  have hget : ([PlanCacheAction.evict (planKey "SELECT 1" ∅)].foldl PlanCacheAction.apply
      (emptyPlanCache.put ordersSql ordersTables storedOrders)).get ordersSql legacyTables = some storedOrders := by
    decide +kernel
  have hstored : freshRewrite ordersParser "pond" ordersSql ordersTables = some storedOrders := by decide +kernel
  obtain ⟨statements, hparse, -, -, hiff⟩ := cachedPlan_iff hstored (by decide +kernel)
    (by simp [PlanCacheAction.Keeps]) (by decide +kernel) hget
  refine ⟨statements, hparse, hiff.mpr fun q hq name hname _ => ?_⟩
  obtain rfl : [.query allOrders] = statements := Option.some_inj.mp hparse
  cases List.mem_singleton.mp hq
  have hvisited : visitedTables ordersParser [] allOrders = [[{ value := "orders" }]] := by decide +kernel
  rw [hvisited] at hname
  cases List.mem_singleton.mp hname
  decide +kernel

end Reiver.Pond
