import Mathlib.Data.List.Sections
import Reiver.Pond.Query.PredicateSplitter

/-! # Queries over external sources

The model of `materialize_and_query` of `query/federation_executor.rs`. Each table of the query is fetched from its
source with the predicates that the source takes, filtered by those that stay, and put into a temporary table; the query
then runs over the temporary tables. -/

namespace Reiver.Pond

/-- The types of Arrow columns, as far as the filter tells them apart. -/
inductive ArrowKind where
  | number
  | text
  | other
deriving DecidableEq

/-- A value. The numbers are integers or of `F`, and `other` is of a type that is not written as a text. -/
inductive FetchedCell (F : Type) where
  | text (s : String)
  | int (n : Int)
  | float (x : F)
  | boolean (b : Bool)
  | other

/-- The 64-bit floats, as far as they are used. -/
structure LocalFloats (F : Type) where
  parse : String → Option F
  ofInt : Int → F
  toText : F → String
  eq : F → F → Bool
  lt : F → F → Bool
  le : F → F → Bool

abbrev ArrowSchema := String → Option ArrowKind

/-- A row by column. A null is `none`. -/
abbrev FetchedRow (F : Type) := String → Option (FetchedCell F)

section Filter
variable {F : Type} (L : LocalFloats F)

/-! ### One predicate on one value -/

def stringValueAt : FetchedCell F → Option String
  | .text s => some s
  | .int n => some (toString n)
  | .float x => some (L.toText x)
  | .boolean b => some (toString b)
  | .other => none

def numericValueAt : FetchedCell F → Option F
  | .int n => some (L.ofInt n)
  | .float x => some x
  | _ => none

/-- A null fails. What has no text is not tested. -/
def testText (cell : Option (FetchedCell F)) (test : String → Bool) : Option Bool :=
  match cell with
  | none => some false
  | some cell => (stringValueAt L cell).map test

/-- A column of numbers is compared with a number, if there is one, and else by its texts. -/
def applyComparison (kind : ArrowKind) (cell : Option (FetchedCell F)) (value : String)
    (strCmp : String → String → Bool) (numCmp : F → F → Bool) : Option Bool :=
  match if kind = .number then L.parse value else none with
  | some parsed => some ((cell.bind (numericValueAt L)).any (numCmp · parsed))
  | none => testText L cell (strCmp · value)

/-- The regular expression made of a pattern: a backslash takes whatever follows it as it is. -/
def likeRegexItems : List Char → List LikeItem
  | [] => []
  | '\\' :: [] => []
  | '\\' :: next :: rest => .char next :: likeRegexItems rest
  | c :: rest => (if c = '%' then .anyText else if c = '_' then .anyChar else .char c) :: likeRegexItems rest

/-- The test of a simple predicate; `none` leaves the row as it is. -/
def testCell (kind : ArrowKind) (cell : Option (FetchedCell F)) : QueryPredicate → Option Bool
  | .equals _ value => applyComparison L kind cell value (· == ·) L.eq
  | .isIn _ values => testText L cell (values.contains ·)
  | .greaterThan _ value inclusive =>
    applyComparison L kind cell value (fun s v => if inclusive then v ≤ s else v < s)
      fun a b => if inclusive then L.le b a else L.lt b a
  | .lessThan _ value inclusive =>
    applyComparison L kind cell value (fun s v => if inclusive then s ≤ v else s < v)
      fun a b => if inclusive then L.le a b else L.lt a b
  | .between _ low high =>
    if kind = .number then
      match L.parse low, L.parse high with
      | some lo, some hi => some ((cell.bind (numericValueAt L)).any fun n => L.le lo n && L.le n hi)
      | _, _ => none
    else testText L cell fun s => low ≤ s && s ≤ high
  | .like _ pattern => testText L cell fun s => itemsMatch (likeRegexItems pattern.toList) s.toList
  | .contains _ substring => testText L cell fun s => substring.toList <:+: s.toList
  | .isNull _ isNull => some (cell.isNone == isNull)
  | .and _ | .or _ | .not _ => none

/-! ### Masks -/

variable (schema : ArrowSchema)

/-- A column that the table does not have is not tested. -/
def localTest (row : FetchedRow F) (pred : QueryPredicate) : Option Bool :=
  pred.column.bind fun column => (schema column).bind fun kind => testCell L kind (row column) pred

mutual

def predicateColumns : QueryPredicate → List String
  | .equals column _ | .isIn column _ | .greaterThan column _ _ | .lessThan column _ _ | .between column _ _
  | .like column _ | .contains column _ | .isNull column _ => [column]
  | .and preds | .or preds => columnsOfAll preds
  | .not inner => predicateColumns inner

def columnsOfAll : List QueryPredicate → List String
  | [] => []
  | pred :: preds => predicateColumns pred ++ columnsOfAll preds

end

/-- Some column of a negated predicate is null. -/
def anyNull (row : FetchedRow F) (pred : QueryPredicate) : Bool :=
  (predicateColumns pred).any fun column => (schema column).isSome && (row column).isNone

mutual

/-- `apply_predicate_to_mask`. -/
def applyPredicateToMask (rows : List (FetchedRow F)) : QueryPredicate → List Bool → List Bool
  | .and preds, mask => applyAllToMask rows preds mask
  | .or preds, mask => List.zipWith (· && ·) mask (orMask rows preds mask)
  | .not inner, mask =>
    let innerMask := applyPredicateToMask rows inner (mask.map fun _ => true)
    List.zipWith (fun row (m, i) => m && !i && !anyNull schema row inner) rows (mask.zip innerMask)
  | pred, mask => List.zipWith (fun row m => if m then (localTest L schema row pred).getD m else m) rows mask

def applyAllToMask (rows : List (FetchedRow F)) : List QueryPredicate → List Bool → List Bool
  | [], mask => mask
  | pred :: preds, mask => applyAllToMask rows preds (applyPredicateToMask rows pred mask)

/-- The rows that one of the predicates keeps. -/
def orMask (rows : List (FetchedRow F)) : List QueryPredicate → List Bool → List Bool
  | [], mask => mask.map fun _ => false
  | pred :: preds, mask => List.zipWith (· || ·) (applyPredicateToMask rows pred mask) (orMask rows preds mask)

end

def filterRecordBatch (rows : List (FetchedRow F)) (mask : List Bool) : List (FetchedRow F) :=
  ((rows.zip mask).filter (·.2)).map (·.1)

/-- `apply_local_predicates`: of filtered batches the empty ones are dropped. -/
def applyLocalPredicates (batches : List (List (FetchedRow F))) (preds : List QueryPredicate) :
    List (List (FetchedRow F)) :=
  if preds.isEmpty ∨ batches.isEmpty then batches
  else
    (batches.map fun rows =>
      filterRecordBatch rows (applyAllToMask L schema rows preds (rows.map fun _ => true))).filter
      (!·.isEmpty)

/-! ### Row by row -/

mutual

def keepsRow (row : FetchedRow F) : QueryPredicate → Bool
  | .and preds => keepsAll row preds
  | .or preds => keepsAny row preds
  | .not inner => !keepsRow row inner && !anyNull schema row inner
  | pred => (localTest L schema row pred).getD true

def keepsAll (row : FetchedRow F) : List QueryPredicate → Bool
  | [] => true
  | pred :: preds => keepsRow row pred && keepsAll row preds

def keepsAny (row : FetchedRow F) : List QueryPredicate → Bool
  | [] => false
  | pred :: preds => keepsRow row pred || keepsAny row preds

end

end Filter

/-! ### The query -/

/-- A table of the query: its source and what that takes, its columns, and what the connector returns, in batches, for
    the predicates it is given. -/
structure ExternalTable (F : Type) where
  source : String
  capabilities : SourceCapabilities
  schema : ArrowSchema
  fetch : List QueryPredicate → List (List (FetchedRow F))

section Query
variable {F : Type} (L : LocalFloats F) (R : ValueReader)

def ExternalTable.analysis (table : ExternalTable F) (preds : List QueryPredicate) : SourcePredicateAnalysis :=
  analyzeForSource R (AList.singleton table.source table.capabilities) table.source preds

/-- The batches that go into the temporary table. Every table gets every predicate of the condition. -/
def ExternalTable.materialize (table : ExternalTable F) (selection : FilterExpr) : List (List (FetchedRow F)) :=
  let analysis := table.analysis R (exprToPredicates selection)
  let batches := table.fetch (analysis.pushable.map (·.original))
  if analysis.localOnly.isEmpty then batches else applyLocalPredicates L table.schema batches analysis.localOnly

def joinedRows (accepts : List (FetchedRow F) → Bool) (tables : List (List (FetchedRow F))) :
    List (List (FetchedRow F)) :=
  tables.sections.filter accepts

/-- The rows that the query makes. A table without batches gets no temporary table, and the query fails. -/
def materializeAndQuery (tables : List (ExternalTable F)) (selection : FilterExpr)
    (accepts : List (FetchedRow F) → Bool) : Option (List (List (FetchedRow F))) :=
  let batches := tables.map fun table => table.materialize L R selection
  if batches.any (·.isEmpty) then none else some (joinedRows accepts (batches.map List.flatten))

end Query

/-! ### A mask keeps what its predicate keeps -/

section Masks
variable {F : Type} {L : LocalFloats F} {schema : ArrowSchema} {rows : List (FetchedRow F)}

theorem zipWith_zipWith {α β γ δ : Type} {f : α → γ → δ} {g : α → β → γ} {l : List α} {m : List β} :
    List.zipWith f l (List.zipWith g l m) = List.zipWith (fun a b => f a (g a b)) l m := by
  induction l generalizing m with
  | nil => rfl
  | cons a l ih =>
    cases m with
    | nil => rfl
    | cons b m => exact congrArg _ ih

theorem zipWith_pointwise {α β γ δ ε : Type} {f : α → β → γ} {g : α → β → δ} {op : γ → δ → ε} {l : List α}
    {m : List β} :
    List.zipWith op (List.zipWith f l m) (List.zipWith g l m) = List.zipWith (fun a b => op (f a b) (g a b)) l m := by
  induction l generalizing m with
  | nil => rfl
  | cons a l ih =>
    cases m with
    | nil => rfl
    | cons b m => exact congrArg _ ih

theorem zipWith_right {α β γ : Type} {g : β → γ} {l : List α} {m : List β} (hlength : m.length = l.length) :
    List.zipWith (fun _ b => g b) l m = m.map g := by
  induction l generalizing m with
  | nil =>
    rw [List.eq_nil_of_length_eq_zero hlength]
    rfl
  | cons a l ih =>
    cases m with
    | nil => cases hlength
    | cons b m => exact congrArg _ (ih (Nat.succ.inj hlength))

mutual

theorem applyPredicateToMask_eq : ∀ (pred : QueryPredicate) (mask : List Bool), mask.length = rows.length →
    applyPredicateToMask L schema rows pred mask = List.zipWith (fun row m => m && keepsRow L schema row pred) rows mask
  | .equals _ _, _, _ | .isIn _ _, _, _ | .greaterThan _ _ _, _, _ | .lessThan _ _ _, _, _ | .between _ _ _, _, _
  | .like _ _, _, _ | .contains _ _, _, _ | .isNull _ _, _, _ => by
    refine congrArg (fun f => List.zipWith f rows _) (funext₂ fun row m => ?_)
    cases m <;> rfl
  | .and preds, mask, hlength => applyAllToMask_eq preds mask hlength
  | .or preds, mask, hlength => by
    have hmask : List.zipWith (fun _ m => m) rows mask = mask := (zipWith_right hlength).trans (List.map_id _)
    rw [applyPredicateToMask, orMask_eq preds mask hlength]
    conv_lhs => arg 2; rw [← hmask]
    rw [zipWith_pointwise]
    refine congrArg (fun f => List.zipWith f rows _) (funext₂ fun row m => ?_)
    rw [← Bool.and_assoc, Bool.and_self]
    rfl
  | .not inner, mask, hlength => by
    have hmask : List.zipWith (fun _ m => m) rows mask = mask := (zipWith_right hlength).trans (List.map_id _)
    rw [applyPredicateToMask, applyPredicateToMask_eq inner (mask.map fun _ => true) (by simpa using hlength),
      List.zipWith_map_right, List.zip]
    conv_lhs => arg 3; arg 2; rw [← hmask]
    rw [zipWith_pointwise, zipWith_zipWith]
    exact congrArg (fun f => List.zipWith f rows mask) (funext₂ fun row m => Bool.and_assoc ..)

theorem applyAllToMask_eq : ∀ (preds : List QueryPredicate) (mask : List Bool), mask.length = rows.length →
    applyAllToMask L schema rows preds mask = List.zipWith (fun row m => m && keepsAll L schema row preds) rows mask
  | [], mask, hlength => by
    have hmask : List.zipWith (fun _ m => m && true) rows mask = mask :=
      (zipWith_right (g := (· && true)) hlength).trans (by simp)
    exact hmask.symm
  | pred :: preds, mask, hlength => by
    rw [applyAllToMask, applyPredicateToMask_eq pred mask hlength, applyAllToMask_eq preds _ (by simp [hlength]),
      zipWith_zipWith]
    simp only [Bool.and_assoc]
    rfl

theorem orMask_eq : ∀ (preds : List QueryPredicate) (mask : List Bool), mask.length = rows.length →
    orMask L schema rows preds mask = List.zipWith (fun row m => m && keepsAny L schema row preds) rows mask
  | [], mask, hlength => by
    have hmask : List.zipWith (fun _ m => m && false) rows mask = mask.map fun _ => false :=
      (zipWith_right (g := (· && false)) hlength).trans (by simp)
    exact hmask.symm
  | pred :: preds, mask, hlength => by
    rw [orMask, applyPredicateToMask_eq pred mask hlength, orMask_eq preds mask hlength, zipWith_pointwise]
    simp only [← Bool.and_or_distrib_left]
    rfl

end

theorem filterRecordBatch_eq (k : FetchedRow F → Bool) :
    filterRecordBatch rows (List.zipWith (fun row m => m && k row) rows (rows.map fun _ => true)) = rows.filter k := by
  rw [filterRecordBatch]
  induction rows with
  | nil => rfl
  | cons row rows ih =>
    rw [List.map_cons, List.zipWith_cons_cons, List.zip_cons_cons, Bool.true_and, List.filter_cons, List.filter_cons]
    split
    next => exact congrArg _ ih
    next => exact ih

theorem flatten_applyLocalPredicates (batches : List (List (FetchedRow F))) (preds : List QueryPredicate) :
    (applyLocalPredicates L schema batches preds).flatten =
      batches.flatten.filter fun row => keepsAll L schema row preds := by
  unfold applyLocalPredicates
  split
  next hempty =>
    rcases hempty with hnil | hnil
    · rw [List.isEmpty_iff.mp hnil]
      exact (List.filter_eq_self.mpr fun _ _ => rfl).symm
    · rw [List.isEmpty_iff.mp hnil]
      rfl
  next =>
    have hbatch : ∀ rows : List (FetchedRow F),
        filterRecordBatch rows (applyAllToMask L schema rows preds (rows.map fun _ => true)) =
          rows.filter fun row => keepsAll L schema row preds := by
      intro rows
      rw [applyAllToMask_eq preds _ (by simp), filterRecordBatch_eq]
    simp only [hbatch, List.filter_flatten]
    exact List.flatten_filter_not_isEmpty

end Masks

/-! ### What the filter may not drop -/

section Safe
variable {F V : Type} (L : LocalFloats F) (schema : ArrowSchema) (E : FilterEngine V) (joined : String → V)
  (row : FetchedRow F)

mutual

/-- On a row of a table and the joined row it is part of, the filter says what the engine says, where the engine says
    `side`. A simple predicate that is not tested does no harm unless it is negated. A negated predicate that is false
    has no null in its columns. -/
def Safe (side : Bool) : QueryPredicate → Prop
  | .and preds | .or preds => preds ≠ [] ∧ SafeAll side preds
  | .not inner => Safe (!side) inner ∧
      (side = true → E.holds joined inner = some false → anyNull schema row inner = false)
  | pred => (side = true ∧ localTest L schema row pred = none) ∨
      (E.holds joined pred = some side → localTest L schema row pred = some side)

def SafeAll (side : Bool) : List QueryPredicate → Prop
  | [] => True
  | pred :: preds => Safe side pred ∧ SafeAll side preds

end

end Safe

section Sound
variable {F V : Type} {L : LocalFloats F} {R : ValueReader} {schema : ArrowSchema} {E : FilterEngine V}
  {joined : String → V} {row : FetchedRow F} {side : Bool}

theorem keepsAll_eq_all (preds : List QueryPredicate) :
    keepsAll L schema row preds = preds.all (keepsRow L schema row) := by
  induction preds with
  | nil => rfl
  | cons pred preds ih => rw [keepsAll, ih, List.all_cons]

theorem keepsAny_eq_any (preds : List QueryPredicate) :
    keepsAny L schema row preds = preds.any (keepsRow L schema row) := by
  induction preds with
  | nil => rfl
  | cons pred preds ih => rw [keepsAny, ih, List.any_cons]

theorem getD_of_safe {test : Option Bool} {truth : Truth}
    (h : (side = true ∧ test = none) ∨ (truth = some side → test = some side)) (htruth : truth = some side) :
    test.getD true = side := by
  rcases h with ⟨rfl, rfl⟩ | h
  · rfl
  · rw [h htruth, Option.getD_some]

mutual

theorem keepsRow_of_safe : ∀ (pred : QueryPredicate) (side : Bool), Safe L schema E joined row side pred →
    E.holds joined pred = some side → keepsRow L schema row pred = side
  | .equals _ _, _, hsafe, htruth | .isIn _ _, _, hsafe, htruth | .greaterThan _ _ _, _, hsafe, htruth
  | .lessThan _ _ _, _, hsafe, htruth | .between _ _ _, _, hsafe, htruth | .like _ _, _, hsafe, htruth
  | .contains _ _, _, hsafe, htruth | .isNull _ _, _, hsafe, htruth => getD_of_safe hsafe htruth
  | .and preds, side, hsafe, htruth => by
    have ih := keepsRow_of_safeAll preds side hsafe.2
    rw [FilterEngine.holds_and hsafe.1] at htruth
    rw [keepsRow, keepsAll_eq_all]
    cases side with
    | true =>
      rw [Truth.all_eq_true, List.forall_mem_map] at htruth
      exact List.all_eq_true.mpr fun pred hpred => ih pred hpred (htruth pred hpred)
    | false =>
      obtain ⟨pred, hpred, htruth⟩ := List.mem_map.mp (Truth.all_eq_false.mp htruth)
      exact List.all_eq_false.mpr ⟨pred, hpred, Bool.eq_false_iff.mp (ih pred hpred htruth)⟩
  | .or preds, side, hsafe, htruth => by
    have ih := keepsRow_of_safeAll preds side hsafe.2
    rw [holds_or_eq_any hsafe.1] at htruth
    rw [keepsRow, keepsAny_eq_any]
    cases side with
    | true =>
      obtain ⟨pred, hpred, htruth⟩ := List.mem_map.mp (Truth.any_eq_true.mp htruth)
      exact List.any_eq_true.mpr ⟨pred, hpred, ih pred hpred htruth⟩
    | false =>
      rw [Truth.any_eq_false, List.forall_mem_map] at htruth
      exact List.any_eq_false.mpr fun pred hpred => Bool.eq_false_iff.mp (ih pred hpred (htruth pred hpred))
  | .not inner, side, hsafe, htruth => by
    rw [FilterEngine.holds_not, Truth.not_eq_some] at htruth
    have ih := keepsRow_of_safe inner (!side) hsafe.1 htruth
    rw [keepsRow, ih, Bool.not_not]
    cases side with
    | true => rw [hsafe.2 rfl htruth]; rfl
    | false => rfl

theorem keepsRow_of_safeAll : ∀ (preds : List QueryPredicate) (side : Bool), SafeAll L schema E joined row side preds →
    ∀ pred ∈ preds, E.holds joined pred = some side → keepsRow L schema row pred = side
  | [], _, _, _, hmem, _ => nomatch hmem
  | first :: preds, side, hsafe, pred, hmem, htruth => by
    rcases List.mem_cons.mp hmem with heq | hmem
    · rw [heq] at htruth ⊢
      exact keepsRow_of_safe first side hsafe.1 htruth
    · exact keepsRow_of_safeAll preds side hsafe.2 pred hmem htruth

end

end Sound

/-! ### The query over the temporary tables -/

section Federated
variable {F V : Type} {L : LocalFloats F} {R : ValueReader} {E : FilterEngine V}

theorem sections_filter {α : Type} (ps : List ((α → Bool) × List α)) :
    (ps.map fun p => p.2.filter p.1).sections =
      (ps.map (·.2)).sections.filter fun l => (ps.zip l).all fun x => x.1.1 x.2 := by
  induction ps with
  | nil => rfl
  | cons p ps ih =>
    rw [List.map_cons, List.sections, ih, List.map_cons, List.sections, List.filter_flatMap]
    generalize (ps.map (·.2)).sections = tails
    induction tails with
    | nil => rfl
    | cons tail tails ih =>
      have hhead : ((p.2.map fun a => a :: tail).filter fun l => ((p :: ps).zip l).all fun x => x.1.1 x.2) =
          if (ps.zip tail).all fun x => x.1.1 x.2 then (p.2.filter p.1).map fun a => a :: tail else [] := by
        rw [List.filter_map]
        split
        next hall => simp [Function.comp_def, hall]
        next hall => simp [Function.comp_def, hall]
      rw [List.flatMap_cons, hhead, ← ih, List.filter_cons]
      split
      next => rw [List.flatMap_cons]
      next => rfl

theorem ne_nil_of_mem_sections {α : Type} {ls : List (List α)} {l : List α} (h : l ∈ ls.sections) :
    ∀ m ∈ ls, m ≠ [] := by
  rw [List.mem_sections] at h
  induction h with
  | nil => exact fun m hm => nomatch hm
  | cons ha _ ih => exact List.forall_mem_cons.mpr ⟨List.ne_nil_of_mem ha, ih⟩

/-- The columns of a joined row. A column is its owner's. -/
def joinedColumns (toValue : Option (FetchedCell F) → V) (owner : String → Nat) (rows : List (FetchedRow F)) :
    String → V :=
  fun column => toValue (rows[owner column]?.bind fun row => row column)

/-- The rows of a table, which the connector returns when it is given no predicate. -/
def ExternalTable.rows (table : ExternalTable F) : List (FetchedRow F) := (table.fetch []).flatten

/-- For each row that the query makes of the whole tables: the condition is true of it and so are its predicates; the
    transformations keep what they mean; the connectors return its parts where the pushed predicates hold; and the
    filter may see its parts. -/
structure Undisturbed (L : LocalFloats F) (R : ValueReader) (E : FilterEngine V)
    (toValue : Option (FetchedCell F) → V) (owner : String → Nat)
    (taken : ExternalTable F → List QueryPredicate → FetchedRow F → Bool) (tables : List (ExternalTable F))
    (selection : FilterExpr) (accepts : List (FetchedRow F) → Bool) : Prop where
  fetched : ∀ table ∈ tables, ∀ pushed, (table.fetch pushed).flatten = table.rows.filter (taken table pushed)
  accepted : ∀ rows ∈ joinedRows accepts (tables.map ExternalTable.rows),
    E.Accepts (joinedColumns toValue owner rows) selection
  weakens : ∀ rows ∈ joinedRows accepts (tables.map ExternalTable.rows),
    Weakens E (joinedColumns toValue owner rows) selection
  transforms : ∀ rows ∈ joinedRows accepts (tables.map ExternalTable.rows), ∀ table ∈ tables,
    TransformsKeep R E (joinedColumns toValue owner rows) table.capabilities
  takes : ∀ rows ∈ joinedRows accepts (tables.map ExternalTable.rows), ∀ part ∈ tables.zip rows, ∀ pushed,
    (∀ pred ∈ pushed, E.holds (joinedColumns toValue owner rows) pred = some true) → taken part.1 pushed part.2 = true
  safe : ∀ rows ∈ joinedRows accepts (tables.map ExternalTable.rows), ∀ part ∈ tables.zip rows,
    ∀ pred ∈ (part.1.analysis R (exprToPredicates selection)).localOnly,
      Safe L part.1.schema E (joinedColumns toValue owner rows) part.2 true pred

/-- Which rows of a table get into its temporary table. -/
def ExternalTable.passes (L : LocalFloats F) (R : ValueReader)
    (taken : ExternalTable F → List QueryPredicate → FetchedRow F → Bool) (selection : FilterExpr)
    (table : ExternalTable F) (row : FetchedRow F) : Bool :=
  let analysis := table.analysis R (exprToPredicates selection)
  taken table (analysis.pushable.map (·.original)) row && keepsAll L table.schema row analysis.localOnly

variable {toValue : Option (FetchedCell F) → V} {owner : String → Nat}
  {taken : ExternalTable F → List QueryPredicate → FetchedRow F → Bool} {tables : List (ExternalTable F)}
  {selection : FilterExpr} {accepts : List (FetchedRow F) → Bool}

theorem flatten_materialize {table : ExternalTable F}
    (hfetched : ∀ pushed, (table.fetch pushed).flatten = table.rows.filter (taken table pushed)) :
    (table.materialize L R selection).flatten = table.rows.filter (table.passes L R taken selection) := by
  have hpasses : ∀ pushed preds, (table.fetch pushed).flatten.filter (fun row => keepsAll L table.schema row preds) =
      table.rows.filter fun row => taken table pushed row && keepsAll L table.schema row preds := by
    intro pushed preds
    rw [hfetched, List.filter_filter]
    exact List.filter_congr fun row _ => Bool.and_comm ..
  simp only [ExternalTable.materialize]
  split
  next hlocal =>
    rw [hfetched]
    refine List.filter_congr fun row _ => ?_
    rw [ExternalTable.passes, List.isEmpty_iff.mp hlocal]
    exact (Bool.and_true _).symm
  next => rw [flatten_applyLocalPredicates, hpasses]; rfl

theorem Undisturbed.passes (h : Undisturbed L R E toValue owner taken tables selection accepts)
    {rows : List (FetchedRow F)} (hrows : rows ∈ joinedRows accepts (tables.map ExternalTable.rows)) :
    ∀ part ∈ tables.zip rows, part.1.passes L R taken selection part.2 = true := by
  intro part hpart
  have hholds := h.weakens rows hrows (h.accepted rows hrows)
  have htable : part.1 ∈ tables := (List.of_mem_zip hpart).1
  set capabilities : Dict String SourceCapabilities := AList.singleton part.1.source part.1.capabilities with hsource
  have hlookup : (capabilities.lookup part.1.source).getD .noPushdown = part.1.capabilities := by
    rw [hsource]
    simp [AList.lookup]
  have hsplits := analyzeForSource_splits E (joinedColumns toValue owner rows) R
    capabilities part.1.source (exprToPredicates selection)
    (hlookup.symm ▸ h.transforms rows hrows part.1 htable)
  obtain ⟨hpushed, hlocal⟩ := hsplits.1.mp hholds
  refine Bool.and_eq_true_iff.mpr ⟨?_, ?_⟩
  · exact h.takes rows hrows part hpart _ (List.forall_mem_map.mpr hpushed)
  · rw [keepsAll_eq_all, List.all_eq_true]
    exact fun pred hpred => keepsRow_of_safe pred true (h.safe rows hrows part hpart pred hpred) (hlocal pred hpred)

/-- Neither what is pushed nor what is filtered changes the rows that the query makes. It fails only if it would make
    none. -/
theorem materializeAndQuery_eq (h : Undisturbed L R E toValue owner taken tables selection accepts) :
    let plain := joinedRows accepts (tables.map ExternalTable.rows)
    (plain ≠ [] → materializeAndQuery L R tables selection accepts = some plain) ∧
      ∀ result ∈ materializeAndQuery L R tables selection accepts, result = plain := by
  intro plain
  have hflatten : (tables.map fun table => table.materialize L R selection).map List.flatten =
      (tables.map fun table => (table.passes L R taken selection, table.rows)).map fun p => p.2.filter p.1 := by
    rw [List.map_map, List.map_map]
    exact List.map_congr_left fun table htable => flatten_materialize (h.fetched table htable)
  have hrows : (tables.map fun table => (table.passes L R taken selection, table.rows)).map (·.2) =
      tables.map ExternalTable.rows := List.map_map
  have hresult : joinedRows accepts ((tables.map fun table => table.materialize L R selection).map List.flatten) =
      plain := by
    rw [hflatten, joinedRows, sections_filter, hrows, List.filter_filter]
    refine List.filter_congr fun rows hmem => ?_
    cases haccepts : accepts rows with
    | false => rfl
    | true =>
      have hpasses := h.passes (List.mem_filter.mpr ⟨hmem, haccepts⟩)
      rw [Bool.true_and, List.all_eq_true]
      intro x hx
      rw [List.zip_map_left, List.mem_map] at hx
      obtain ⟨part, hpart, rfl⟩ := hx
      exact hpasses part hpart
  refine ⟨fun hne => ?_, fun result hsome => ?_⟩
  · obtain ⟨rows, hmem⟩ := List.exists_mem_of_ne_nil _ hne
    rw [← hresult, joinedRows, List.mem_filter] at hmem
    simp only [materializeAndQuery]
    rw [if_neg, hresult]
    intro hany
    obtain ⟨batches, hbatches, hempty⟩ := List.any_eq_true.mp hany
    refine ne_nil_of_mem_sections hmem.1 _ (List.mem_map_of_mem hbatches) ?_
    rw [List.isEmpty_iff.mp hempty]
    rfl
  · simp only [materializeAndQuery] at hsome
    split at hsome
    next => cases hsome
    next => exact (Option.some.inj hsome).symm.trans hresult

end Federated

/-! ### Charges and customers -/

def noFloats : LocalFloats Unit where
  parse _ := none
  ofInt _ := ()
  toText _ := ""
  eq _ _ := true
  lt _ _ := false
  le _ _ := true

def textRow (column s : String) : FetchedRow Unit := fun c => if c = column then some (.text s) else none

/-- A table of one column, which its connector returns whole. -/
def textTable (source column : String) (capabilities : SourceCapabilities) (texts : List String) :
    ExternalTable Unit where
  source := source
  capabilities := capabilities
  schema c := if c = column then some .text else none
  fetch _ := [texts.map (textRow column)]

def textCell : Option (FetchedCell Unit) → String ⊕ Truth
  | some (.text s) => .inl s
  | _ => .inr none

/-- `status = 'paid' AND (status = 'open' OR name = 'Ann')`. -/
def paidByAnn : FilterExpr :=
  .binaryOp (.binaryOp (.identifier { value := "status" }) .eq (textValue "paid")) .and
    (.nested (.binaryOp (.binaryOp (.identifier { value := "status" }) .eq (textValue "open")) .or
      (.binaryOp (.identifier { value := "name" }) .eq (textValue "Ann"))))

theorem materializeAndQuery_eq_paidByAnn :
    let tables := [textTable "stripe" "status" chargesApi ["paid", "open"],
      textTable "sheets" "name" .noPushdown ["Ann", "Bob"]]
    let owner := fun column => if column = "status" then 0 else 1
    let accepts := fun rows => textEngine.truthOf (joinedColumns textCell owner rows) paidByAnn == some true
    materializeAndQuery noFloats plainReader tables paidByAnn accepts =
      some [[textRow "status" "paid", textRow "name" "Ann"]] := by
  intro tables owner accepts
  have hplain : joinedRows accepts (tables.map ExternalTable.rows) =
      [[textRow "status" "paid", textRow "name" "Ann"]] := rfl
  have honly : ∀ {P : List (FetchedRow Unit) → Prop}, P [textRow "status" "paid", textRow "name" "Ann"] →
      ∀ rows ∈ joinedRows accepts (tables.map ExternalTable.rows), P rows := by
    intro P hP rows hrows
    rw [hplain] at hrows
    exact List.mem_singleton.mp hrows ▸ hP
  have h : Undisturbed noFloats plainReader textEngine textCell owner (fun _ _ _ => true) tables paidByAnn accepts := by
    refine ⟨?_, honly ?_, honly ?_, honly ?_, fun _ _ _ _ _ _ => rfl, honly ?_⟩
    · intro table htable pushed
      rcases List.mem_pair.mp htable with rfl | rfl <;> rfl
    · rfl
    · intro _ pred hpred
      rcases List.mem_pair.mp hpred with rfl | rfl <;> rfl
    · intro table htable
      rcases List.mem_pair.mp htable with rfl | rfl <;> exact transformsKeep_of_none (by decide)
    · intro part hpart pred hpred
      rcases List.mem_pair.mp hpart with rfl | rfl
      · obtain rfl := List.mem_singleton.mp hpred
        exact ⟨List.cons_ne_nil _ _, .inr fun h => absurd h (by decide), .inl ⟨rfl, rfl⟩, trivial⟩
      · rcases List.mem_pair.mp hpred with rfl | rfl
        · exact .inl ⟨rfl, rfl⟩
        · exact ⟨List.cons_ne_nil _ _, .inl ⟨rfl, rfl⟩, .inr fun _ => rfl, trivial⟩
  have hne : joinedRows accepts (tables.map ExternalTable.rows) ≠ [] := hplain ▸ List.cons_ne_nil _ _
  exact ((materializeAndQuery_eq h).1 hne).trans (congrArg some hplain)

end Reiver.Pond
