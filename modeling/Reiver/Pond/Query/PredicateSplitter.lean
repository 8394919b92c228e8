import Reiver.Lib.Dict
import Reiver.Lib.Int64
import Reiver.Pond.Query.PredicatesWeaken

/-! # Predicates split between a source and the executor

The model of `PredicateSplitter::analyze_for_source`. A source takes the operations it is capable of: all of them as
SQL, or those of some columns as parameters of its API. The rest of a query's predicates stays with the executor. -/

namespace Reiver.Pond

inductive FilterOperation where
  | equals
  | notEquals
  | lessThan
  | lessThanOrEquals
  | greaterThan
  | greaterThanOrEquals
  | between
  | isIn (maxValues : Option Nat)
  | like (supportsLeadingWildcard : Bool)
  | isNull
  | isNotNull
  | dateAfter
  | dateBefore
  | contains
  | regex
  | arrayContains
  | jsonPath
  | custom (name : String)
deriving DecidableEq

namespace FilterOperation

def matchesCapability : FilterOperation → FilterOperation → Bool
  | .isIn _, .isIn none => true
  | .isIn none, .isIn (some _) => false
  | .isIn (some query), .isIn (some cap) => query ≤ cap
  | .like queryLeading, .like capLeading => !queryLeading || capLeading
  | op, cap => op = cap

/-- The text of `{:?}`. -/
def debug : FilterOperation → String
  | .equals => "Equals"
  | .notEquals => "NotEquals"
  | .lessThan => "LessThan"
  | .lessThanOrEquals => "LessThanOrEquals"
  | .greaterThan => "GreaterThan"
  | .greaterThanOrEquals => "GreaterThanOrEquals"
  | .between => "Between"
  | .isIn none => "In \x7b max_values: None \x7d"
  | .isIn (some n) => "In \x7b max_values: Some(" ++ toString n ++ ") \x7d"
  | .like leading => "Like \x7b supports_leading_wildcard: " ++ toString leading ++ " \x7d"
  | .isNull => "IsNull"
  | .isNotNull => "IsNotNull"
  | .dateAfter => "DateAfter"
  | .dateBefore => "DateBefore"
  | .contains => "Contains"
  | .regex => "Regex"
  | .arrayContains => "ArrayContains"
  | .jsonPath => "JsonPath"
  | .custom name => "Custom(" ++ name.quote ++ ")"

end FilterOperation

inductive ValueTransform where
  | timestampToEpoch
  | timestampToEpochMs
  | dateToIso8601
  | dateTimeToIso8601
  | booleanToString
  | booleanToInt
  | centsToDollars
  | dollarsToCents
  | urlEncode
  | base64Encode
  | toLowercase
  | toUppercase
  | custom (expr : String)
deriving DecidableEq

structure ColumnFilterCapability where
  supportedOps : List FilterOperation
  apiParamName : Option String := none
  valueTransform : Option ValueTransform := none
  maxInValues : Option Nat := none

def ColumnFilterCapability.supports (cap : ColumnFilterCapability) (op : FilterOperation) : Bool :=
  cap.supportedOps.any op.matchesCapability

structure SourceCapabilities where
  supportedOperations : List FilterOperation
  columnFilters : Dict String ColumnFilterCapability
  supportsArbitrarySql : Bool
  supportsAnd : Bool
  supportsOr : Bool
  supportsNot : Bool
  maxFilters : Option Nat

namespace SourceCapabilities

def supportsOperation (caps : SourceCapabilities) (op : FilterOperation) : Bool :=
  caps.supportsArbitrarySql || caps.supportedOperations.any op.matchesCapability

/-- What is assumed of a source that is not registered. -/
def noPushdown : SourceCapabilities where
  supportedOperations := []
  columnFilters := ∅
  supportsArbitrarySql := false
  supportsAnd := false
  supportsOr := false
  supportsNot := false
  maxFilters := some 0

end SourceCapabilities

inductive PushdownWarningReason where
  | unsupportedOperation (operation source : String)
  | unsupportedColumn (column source : String)
  | complexPredicate (description : String)
  | orNotSupported
  | notNotSupported
  | tooManyFilters (max requested : Nat)
  | transformFailed (column value reason : String)
deriving DecidableEq

/-- The parts of a translation that this splitter makes: a condition in SQL, or parameters of an API. -/
inductive PredicateTranslation where
  | sqlFragment (sql : String)
  | apiParams (params : Dict String String)
  | passthrough

namespace PredicateTranslation

def asSql : PredicateTranslation → Option String
  | .sqlFragment sql => some sql
  | _ => none

def asApiParams : PredicateTranslation → Option (Dict String String)
  | .apiParams params => some params
  | _ => none

end PredicateTranslation

/-- A pushed predicate, its values transformed, and what is sent of it. -/
structure TranslatedPredicate where
  original : QueryPredicate
  translated : PredicateTranslation

/-- `split` is the `Partial` of the source. -/
inductive PushResult where
  | pushable (translated : TranslatedPredicate)
  | localOnly (reason : PushdownWarningReason)
  | split (pushable : TranslatedPredicate) (rest : QueryPredicate)

def QueryPredicate.column : QueryPredicate → Option String
  | .equals column _ | .isIn column _ | .greaterThan column _ _ | .lessThan column _ _ | .between column _ _
  | .like column _ | .contains column _ | .isNull column _ => some column
  | .and _ | .or _ => none
  | .not inner => inner.column

/-- `to_filter_operation`. -/
def QueryPredicate.filterOperation : QueryPredicate → Option FilterOperation
  | .equals _ _ => some .equals
  | .isIn _ values => some (.isIn (some values.length))
  | .greaterThan _ _ inclusive => some (if inclusive then .greaterThanOrEquals else .greaterThan)
  | .lessThan _ _ inclusive => some (if inclusive then .lessThanOrEquals else .lessThan)
  | .between _ _ _ => some .between
  | .like _ pattern => some (.like (pattern.toList.head? = some '%'))
  | .contains _ _ => some .contains
  | .isNull _ null => some (if null then .isNull else .isNotNull)
  | .and _ | .or _ | .not _ => none

/-! ### Values -/

/-- How texts are read and written outside of the repository: three forms of a time, in seconds; cases of letters; the
    encodings; and amounts, whose arithmetic is that of floats. -/
structure ValueReader where
  rfc3339 : String → Option Int
  date : String → Option Int
  dateTime : String → Option Int
  toLowercase : String → String
  toUppercase : String → String
  urlEncode : String → String
  base64Encode : String → String
  centsToDollars : Int → String
  dollarsToCents : String → Except String Int

section Values
variable (R : ValueReader)

/-- From ten billion on, seconds are taken for milliseconds. -/
def isEpochMs (epoch : Int) : Bool := 10000000000 ≤ epoch ∨ epoch ≤ -10000000000

def parseTimestampToEpoch (column value : String) : Except PushdownWarningReason String :=
  match parseI64 value with
  | some epoch => .ok (toString (if isEpochMs epoch.toInt then epoch.toInt / 1000 else epoch.toInt))
  | none =>
    match (R.rfc3339 value).or ((R.date value).or (R.dateTime value)) with
    | some epoch => .ok (toString epoch)
    | none => .error (.transformFailed column value "Cannot parse timestamp")

/-- `checked_mul(1000)`. -/
def epochToMs (column value : String) (epoch : Int) : Except PushdownWarningReason String :=
  if InInt64 (epoch * 1000) then .ok (toString (epoch * 1000))
  else .error (.transformFailed column value "Epoch to milliseconds conversion overflow")

def applyTransform (column value : String) : ValueTransform → Except PushdownWarningReason String
  | .timestampToEpoch => parseTimestampToEpoch R column value
  | .timestampToEpochMs =>
    match parseI64 value with
    | some epoch => if isEpochMs epoch.toInt then .ok (toString epoch.toInt) else epochToMs column value epoch.toInt
    | none => do
      let s ← parseTimestampToEpoch R column value
      match parseI64 s with
      | some epoch => epochToMs column value epoch.toInt
      | none => .error (.transformFailed column value "Epoch to milliseconds conversion overflow")
  | .dateToIso8601 | .dateTimeToIso8601 | .custom _ => .ok value
  | .booleanToString | .toLowercase => .ok (R.toLowercase value)
  | .booleanToInt =>
    let lower := R.toLowercase value
    .ok (if lower ∈ ["true", "1", "yes"] then "1" else if lower ∈ ["false", "0", "no"] then "0" else value)
  | .centsToDollars =>
    match parseI64 value with
    | some cents => .ok (R.centsToDollars cents.toInt)
    | none => .error (.transformFailed column value "Cannot parse as integer for cents conversion")
  | .dollarsToCents =>
    match R.dollarsToCents value with
    | .ok cents => .ok (toString cents)
    | .error reason => .error (.transformFailed column value reason)
  | .urlEncode => .ok (R.urlEncode value)
  | .base64Encode => .ok (R.base64Encode value)
  | .toUppercase => .ok (R.toUppercase value)

def transformPredicateValues (transform : ValueTransform) : QueryPredicate → Except PushdownWarningReason QueryPredicate
  | .equals column value => do return .equals column (← applyTransform R column value transform)
  | .greaterThan column value inclusive => do
    return .greaterThan column (← applyTransform R column value transform) inclusive
  | .lessThan column value inclusive => do
    return .lessThan column (← applyTransform R column value transform) inclusive
  | .isIn column values => do return .isIn column (← values.mapM (applyTransform R column · transform))
  | .between column low high => do
    return .between column (← applyTransform R column low transform) (← applyTransform R column high transform)
  | pred => .ok pred

/-- A value that cannot be transformed stays as it is. -/
def transformValueForApi (cap : ColumnFilterCapability) (column value : String) : String :=
  match cap.valueTransform with
  | some transform => (applyTransform R column value transform).toOption.getD value
  | none => value

def escapeComma (value : String) : String :=
  String.ofList (value.toList.flatMap fun c => if c = ',' then "%2C".toList else [c])

def generateApiTranslation (cap : ColumnFilterCapability) (pred : QueryPredicate) : PushResult :=
  let param := fun column : String => cap.apiParamName.getD column
  let pushed := fun params : List (String × String) =>
    PushResult.pushable { original := pred, translated := .apiParams (Dict.ofPairs params) }
  match pred with
  | .equals column value => pushed [(param column, transformValueForApi R cap column value)]
  | .isIn column values =>
    pushed [(param column,
      String.intercalate "," (values.map fun v => escapeComma (transformValueForApi R cap column v)))]
  | .greaterThan column value inclusive =>
    pushed [(param column ++ (if inclusive then "[gte]" else "[gt]"), transformValueForApi R cap column value)]
  | .lessThan column value inclusive =>
    pushed [(param column ++ (if inclusive then "[lte]" else "[lt]"), transformValueForApi R cap column value)]
  | .between column low high =>
    pushed [(param column ++ "[gte]", transformValueForApi R cap column low),
      (param column ++ "[lte]", transformValueForApi R cap column high)]
  | pred =>
    .localOnly (.unsupportedOperation
      (match pred.filterOperation with | some op => "Some(" ++ op.debug ++ ")" | none => "None") "API translation")

def sqlTranslation (pred : QueryPredicate) : TranslatedPredicate where
  original := pred
  translated := .sqlFragment (predicateToDisplaySql .clickHouse pred)

def translatePredicate (caps : SourceCapabilities) (cap : ColumnFilterCapability) (pred : QueryPredicate) :
    PushResult :=
  let transformed := match cap.valueTransform with
    | some transform => transformPredicateValues R transform pred
    | none => .ok pred
  match transformed with
  | .error reason => .localOnly reason
  | .ok transformed =>
    if caps.supportsArbitrarySql then .pushable (sqlTranslation transformed)
    else match transformed with
      | .equals _ value =>
        .pushable
          { original := transformed
            translated := .apiParams (Dict.ofPairs [(cap.apiParamName.getD (pred.column.getD ""), value)]) }
      | transformed => generateApiTranslation R cap transformed

/-! ### Splitting -/

def checkSimplePredicate (caps : SourceCapabilities) (source column : String) (op : FilterOperation)
    (pred : QueryPredicate) : PushResult :=
  match caps.columnFilters.lookup column with
  | some cap =>
    if cap.supports op then translatePredicate R caps cap pred else .localOnly (.unsupportedOperation op.debug source)
  | none =>
    if caps.supportsOperation op then
      if caps.supportsArbitrarySql then .pushable (sqlTranslation pred)
      else .localOnly (.unsupportedColumn column source)
    else .localOnly (.unsupportedOperation op.debug source)

def handleInPredicate (caps : SourceCapabilities) (source column : String) (values : List String)
    (pred : QueryPredicate) : PushResult :=
  match (caps.columnFilters.lookup column).bind (·.maxInValues) with
  | some max =>
    if max < values.length then
      .localOnly (.unsupportedOperation
        ("IN list with " ++ toString values.length ++ " values (max " ++ toString max ++ ")") source)
    else checkSimplePredicate R caps source column (.isIn (some values.length)) pred
  | none => checkSimplePredicate R caps source column (.isIn (some values.length)) pred

/-- A part whose parameter is there with another value is left out. -/
def mergeParams : List TranslatedPredicate → Dict String String →
    List TranslatedPredicate × List TranslatedPredicate × Dict String String
  | [], params => ([], [], params)
  | t :: ts, params =>
    match t.translated.asApiParams with
    | none =>
      let (kept, collided, params) := mergeParams ts params
      (t :: kept, collided, params)
    | some own =>
      if own.pairs.any fun (key, value) => (params.lookup key).any (· ≠ value) then
        let (kept, collided, params) := mergeParams ts params
        (kept, t :: collided, params)
      else
        let (kept, collided, params) :=
          mergeParams ts (own.pairs.foldl (fun ps (key, value) => ps.insert key value) params)
        (t :: kept, collided, params)

/-- What is pushed of a conjunction, with what is left of it. -/
def splitOff (pushed : TranslatedPredicate) (rest : List QueryPredicate) : PushResult :=
  if rest = [] then .pushable pushed else .split pushed (conjoin rest)

def pushableParts (results : List (QueryPredicate × PushResult)) : List TranslatedPredicate :=
  results.filterMap fun r => match r.2 with
    | .pushable t | .split t _ => some t
    | .localOnly _ => none

def localParts (results : List (QueryPredicate × PushResult)) : List QueryPredicate :=
  results.filterMap fun r => match r.2 with
    | .pushable _ => none
    | .localOnly _ => some r.1
    | .split _ rest => some rest

def handleAndPredicate (caps : SourceCapabilities) (results : List (QueryPredicate × PushResult)) : PushResult :=
  let pushableParts := pushableParts results
  let localParts := localParts results
  if pushableParts.isEmpty then .localOnly (.complexPredicate "No parts of AND condition can be pushed")
  else if caps.supportsArbitrarySql then
    let sqlTranslatable := pushableParts.filter (·.translated.asSql.isSome)
    if sqlTranslatable.isEmpty then .localOnly (.complexPredicate "AND parts have no SQL translation")
    else
      let sqlParts := sqlTranslatable.filterMap (·.translated.asSql)
      splitOff
        { original := .and (sqlTranslatable.map (·.original))
          translated := .sqlFragment ("(" ++ String.intercalate " AND " sqlParts ++ ")") }
        (localParts ++ (pushableParts.filter (!·.translated.asSql.isSome)).map (·.original))
  else
    let (kept, collided, params) := mergeParams pushableParts ∅
    if kept.isEmpty then .localOnly (.complexPredicate "All AND parts have API param collisions")
    else
      splitOff { original := .and (kept.map (·.original)), translated := .apiParams params }
        (localParts ++ collided.reverse.map (·.original))

/-- The parts of a disjunction, if all of them are pushed whole; else why not. -/
def allPushable : List PushResult → Except PushdownWarningReason (List TranslatedPredicate)
  | [] => .ok []
  | .pushable t :: rest => do return t :: (← allPushable rest)
  | .localOnly reason :: _ => .error reason
  | .split _ _ :: _ => .error (.complexPredicate "OR with partial pushdown not supported")

def handleOrPredicate (caps : SourceCapabilities) (results : List PushResult) : PushResult :=
  match allPushable results with
  | .error reason => .localOnly reason
  | .ok parts =>
    if parts.isEmpty then .localOnly (.complexPredicate "Empty OR predicate")
    else if caps.supportsArbitrarySql then
      let sqlParts := parts.filterMap (·.translated.asSql)
      if sqlParts.length = parts.length then
        .pushable
          { original := .or (parts.map (·.original))
            translated := .sqlFragment ("(" ++ String.intercalate " OR " sqlParts ++ ")") }
      else .localOnly (.complexPredicate "OR parts missing SQL translation")
    else .localOnly (.complexPredicate "API sources do not support OR predicates")

def handleNotPredicate (caps : SourceCapabilities) : PushResult → PushResult
  | .pushable t =>
    let translation := if caps.supportsArbitrarySql then
      match t.translated.asSql with
      | some sql => .sqlFragment ("NOT (" ++ sql ++ ")")
      | none => .passthrough
    else .passthrough
    .pushable { original := .not t.original, translated := translation }
  | _ => .localOnly (.complexPredicate "NOT with partially pushable inner predicate must be evaluated locally")

mutual

def canPushPredicate (caps : SourceCapabilities) (source : String) : QueryPredicate → PushResult
  | .equals column value => checkSimplePredicate R caps source column .equals (.equals column value)
  | .isIn column values => handleInPredicate R caps source column values (.isIn column values)
  | .greaterThan column value inclusive =>
    checkSimplePredicate R caps source column (if inclusive then .greaterThanOrEquals else .greaterThan)
      (.greaterThan column value inclusive)
  | .lessThan column value inclusive =>
    checkSimplePredicate R caps source column (if inclusive then .lessThanOrEquals else .lessThan)
      (.lessThan column value inclusive)
  | .between column low high => checkSimplePredicate R caps source column .between (.between column low high)
  | .like column pattern =>
    checkSimplePredicate R caps source column (.like (pattern.toList.head? = some '%')) (.like column pattern)
  -- A substring is looked for as a pattern that begins with a percent sign.
  | .contains column substring => checkSimplePredicate R caps source column (.like true) (.contains column substring)
  | .isNull column isNull =>
    checkSimplePredicate R caps source column (if isNull then .isNull else .isNotNull) (.isNull column isNull)
  | .and preds =>
    if !caps.supportsAnd ∧ 1 < preds.length then .localOnly (.complexPredicate "AND conditions not fully supported")
    else handleAndPredicate caps (preds.zip (canPushAll caps source preds))
  | .or preds =>
    if !caps.supportsOr then .localOnly .orNotSupported else handleOrPredicate caps (canPushAll caps source preds)
  | .not inner =>
    if !caps.supportsNot then .localOnly .notNotSupported else handleNotPredicate caps
      (canPushPredicate caps source inner)

def canPushAll (caps : SourceCapabilities) (source : String) : List QueryPredicate → List PushResult
  | [] => []
  | pred :: preds => canPushPredicate caps source pred :: canPushAll caps source preds

end

structure PushdownWarning where
  predicate : String
  reason : PushdownWarningReason
  source : String

structure SourcePredicateAnalysis where
  pushable : List TranslatedPredicate := []
  localOnly : List QueryPredicate := []
  warnings : List PushdownWarning := []

def SourcePredicateAnalysis.addLocalWithWarning (analysis : SourcePredicateAnalysis) (source : String)
    (pred : QueryPredicate) (reason : PushdownWarningReason) : SourcePredicateAnalysis :=
  { analysis with
    localOnly := analysis.localOnly ++ [pred]
    warnings := analysis.warnings ++ [{ predicate := predicateToDisplaySql .clickHouse pred, reason, source }] }

/-- One predicate. The number of filters counts the pushed ones. -/
def analyzePredicate (caps : SourceCapabilities) (source : String) (state : SourcePredicateAnalysis × Nat)
    (pred : QueryPredicate) : SourcePredicateAnalysis × Nat :=
  let (analysis, filterCount) := state
  match caps.maxFilters.filter (· ≤ filterCount) with
  | some max => (analysis.addLocalWithWarning source pred (.tooManyFilters max (filterCount + 1)), filterCount)
  | none =>
    match canPushPredicate R caps source pred with
    | .pushable t => ({ analysis with pushable := analysis.pushable ++ [t] }, filterCount + 1)
    | .localOnly reason => (analysis.addLocalWithWarning source pred reason, filterCount)
    | .split t rest =>
      ({ analysis with pushable := analysis.pushable ++ [t], localOnly := analysis.localOnly ++ [rest] },
        filterCount + 1)

/-- `analyze_for_source`, for the capabilities that the source is registered with. -/
def analyzeForSource (capabilities : Dict String SourceCapabilities) (source : String) (preds : List QueryPredicate) :
    SourcePredicateAnalysis :=
  (preds.foldl (analyzePredicate R ((capabilities.lookup source).getD .noPushdown) source) ({}, 0)).1

end Values

/-! ### What a split keeps -/

section Split
variable {V : Type} {E : FilterEngine V} {row : String → V} {R : ValueReader} {caps : SourceCapabilities}
  {source column : String} {op : FilterOperation} {pred : QueryPredicate} {preds : List QueryPredicate}
  {results : List (QueryPredicate × PushResult)} {t : TranslatedPredicate}

theorem holds_or_eq_any (hne : preds ≠ []) : E.holds row (.or preds) = Truth.any (preds.map (E.holds row)) := by
  have hfoldl : ∀ (exprs : List FilterExpr) (first : FilterExpr),
      E.truthOf row (exprs.foldl (fun acc e => .binaryOp acc .or e) first) =
        (E.truthOf row first).or (Truth.any (exprs.map (E.truthOf row))) := by
    intro exprs
    induction exprs with
    | nil => exact fun first => (Truth.or_false _).symm
    | cons e exprs ih =>
      intro first
      rw [List.foldl_cons, ih, FilterEngine.truthOf_or, Truth.or_assoc]
      rfl
  cases preds with
  | nil => exact absurd rfl hne
  | cons pred preds =>
    rw [FilterEngine.holds, predicateToExpr, predicatesToExprs, FilterEngine.predicatesToExprs_eq_map]
    simp only [chainExprs, FilterEngine.truthOf_nested, hfoldl, List.map_map]
    rfl

/-- On this row, a predicate on a column means what it means with its values transformed for the column. -/
def TransformsKeep (R : ValueReader) (E : FilterEngine V) (row : String → V) (caps : SourceCapabilities) : Prop :=
  ∀ column cap, caps.columnFilters.lookup column = some cap → ∀ transform ∈ cap.valueTransform, ∀ pred pred',
    QueryPredicate.column pred = some column → transformPredicateValues R transform pred = .ok pred' →
      E.holds row pred' = E.holds row pred

theorem transformsKeep_of_none (h : ∀ cap ∈ caps.columnFilters.values, cap.valueTransform = none) :
    TransformsKeep R E row caps := by
  intro column cap hcap transform htransform
  rw [h cap (Dict.mem_values.mpr ⟨column, hcap⟩)] at htransform
  cases htransform

/-- To a source that takes SQL, a predicate is sent as its text. -/
def SentWhole (caps : SourceCapabilities) (t : TranslatedPredicate) : Prop :=
  caps.supportsArbitrarySql = true → t.translated = .sqlFragment (predicateToDisplaySql .clickHouse t.original)

/-- What is pushed whole means what the predicate means. Of one that is split, the parts are true together exactly if it
    is. -/
def PushKept (E : FilterEngine V) (row : String → V) (caps : SourceCapabilities) (pred : QueryPredicate) :
    PushResult → Prop
  | .pushable t => E.holds row t.original = E.holds row pred ∧ SentWhole caps t
  | .localOnly _ => True
  | .split t rest =>
    (E.holds row pred = some true ↔ E.holds row t.original = some true ∧ E.holds row rest = some true) ∧
      SentWhole caps t

theorem sentWhole_sqlTranslation : SentWhole caps (sqlTranslation pred) := fun _ => rfl

theorem PushKept.congr {pred' : QueryPredicate} {result : PushResult} (hholds : E.holds row pred' = E.holds row pred)
    (h : PushKept E row caps pred' result) : PushKept E row caps pred result := by
  cases result with
  | pushable t => exact ⟨h.1.trans hholds, h.2⟩
  | localOnly reason => trivial
  | split t rest => exact ⟨hholds ▸ h.1, h.2⟩

theorem kept_generateApiTranslation (cap : ColumnFilterCapability) (hsql : caps.supportsArbitrarySql = false) :
    PushKept E row caps pred (generateApiTranslation R cap pred) := by
  have hsent : ∀ t, SentWhole caps t := fun t h => absurd (hsql.symm.trans h) Bool.false_ne_true
  cases pred <;> first | exact ⟨rfl, hsent _⟩ | trivial

theorem kept_translatePredicate {cap : ColumnFilterCapability} (hkeep : TransformsKeep R E row caps)
    (hcolumn : pred.column = some column) (hcap : caps.columnFilters.lookup column = some cap) :
    PushKept E row caps pred (translatePredicate R caps cap pred) := by
  -- Whatever the transformed predicate is, the rest of the translation keeps it.
  have hrest : ∀ pred', E.holds row pred' = E.holds row pred → PushKept E row caps pred
      (if caps.supportsArbitrarySql then .pushable (sqlTranslation pred')
        else match pred' with
          | .equals _ value =>
            .pushable
              { original := pred'
                translated := .apiParams (Dict.ofPairs [(cap.apiParamName.getD (pred.column.getD ""), value)]) }
          | pred' => generateApiTranslation R cap pred') := by
    intro pred' hholds
    split
    next => exact ⟨hholds, sentWhole_sqlTranslation⟩
    next hsql =>
      have hsql : caps.supportsArbitrarySql = false := Bool.eq_false_iff.mpr hsql
      have hsent : ∀ t, SentWhole caps t := fun t h => absurd (hsql.symm.trans h) Bool.false_ne_true
      split
      next => exact ⟨hholds, hsent _⟩
      next => exact PushKept.congr hholds (kept_generateApiTranslation cap hsql)
  unfold translatePredicate
  cases htransform : cap.valueTransform with
  | none => exact hrest pred rfl
  | some transform =>
    cases hresult : transformPredicateValues R transform pred with
    | error reason =>
      simp only [hresult]
      trivial
    | ok pred' =>
      simp only [hresult]
      exact hrest pred' (hkeep column cap hcap transform htransform pred pred' hcolumn hresult)

theorem kept_checkSimplePredicate (hkeep : TransformsKeep R E row caps) (hcolumn : pred.column = some column) :
    PushKept E row caps pred (checkSimplePredicate R caps source column op pred) := by
  unfold checkSimplePredicate
  split
  next cap hcap =>
    split
    next => exact kept_translatePredicate hkeep hcolumn hcap
    next => trivial
  next =>
    split
    next =>
      split
      next => exact ⟨rfl, sentWhole_sqlTranslation⟩
      next => trivial
    next => trivial

theorem kept_handleInPredicate {values : List String} (hkeep : TransformsKeep R E row caps) :
    PushKept E row caps (.isIn column values)
      (handleInPredicate R caps source column values (.isIn column values)) := by
  have hchecked : PushKept E row caps (.isIn column values)
      (checkSimplePredicate R caps source column (.isIn (some values.length)) (.isIn column values)) :=
    kept_checkSimplePredicate hkeep rfl
  unfold handleInPredicate
  split
  next =>
    split
    next => trivial
    next => exact hchecked
  next => exact hchecked

/-! ### Conjunctions -/

theorem mergeParams_forall (ts : List TranslatedPredicate) (params : Dict String String)
    (P : TranslatedPredicate → Prop) :
    (∀ t ∈ ts, P t) ↔ (∀ t ∈ (mergeParams ts params).1, P t) ∧ ∀ t ∈ (mergeParams ts params).2.1, P t := by
  induction ts generalizing params with
  | nil => simp [mergeParams]
  | cons t ts ih =>
    rw [List.forall_mem_cons, mergeParams]
    split
    next =>
      rw [ih params, List.forall_mem_cons, and_assoc]
    next own _ =>
      split
      next => rw [ih params, List.forall_mem_cons, and_left_comm]
      next => rw [ih (own.pairs.foldl _ params), List.forall_mem_cons, and_assoc]

theorem mergeParams_kept {ts : List TranslatedPredicate} {params : Dict String String}
    (h : (mergeParams ts params).2.1 = []) : (mergeParams ts params).1 = ts := by
  induction ts generalizing params with
  | nil => rfl
  | cons t ts ih =>
    rw [mergeParams] at h ⊢
    split at h
    next => exact congrArg _ (ih h)
    next own _ =>
      split at h
      next => cases h
      next hfree =>
        rw [if_neg hfree]
        exact congrArg _ (ih h)

theorem sentWhole_parts (hkept : ∀ r ∈ results, PushKept E row caps r.1 r.2) :
    ∀ t ∈ pushableParts results, SentWhole caps t := by
  intro t ht
  obtain ⟨⟨pred, result⟩, hr, hpart⟩ := List.mem_filterMap.mp ht
  have h := hkept (pred, result) hr
  cases result with
  | pushable t =>
    cases hpart
    exact h.2
  | localOnly reason => cases hpart
  | split t rest =>
    cases hpart
    exact h.2

theorem forall_parts (hkept : ∀ r ∈ results, PushKept E row caps r.1 r.2) :
    (∀ r ∈ results, E.holds row r.1 = some true) ↔
      (∀ t ∈ pushableParts results, E.holds row t.original = some true) ∧
        ∀ rest ∈ localParts results, E.holds row rest = some true := by
  induction results with
  | nil => exact iff_of_true (fun _ h => absurd h List.not_mem_nil) ⟨fun _ h => absurd h List.not_mem_nil,
      fun _ h => absurd h List.not_mem_nil⟩
  | cons r results ih =>
    obtain ⟨pred, result⟩ := r
    obtain ⟨h, hkept⟩ := List.forall_mem_cons.mp hkept
    rw [List.forall_mem_cons, ih hkept]
    cases result with
    | pushable t =>
      have hparts : pushableParts ((pred, .pushable t) :: results) = t :: pushableParts results := rfl
      have hrest : localParts ((pred, .pushable t) :: results) = localParts results := rfl
      rw [hparts, hrest, List.forall_mem_cons, h.1, and_assoc]
    | localOnly reason =>
      have hparts : pushableParts ((pred, .localOnly reason) :: results) = pushableParts results := rfl
      have hrest : localParts ((pred, .localOnly reason) :: results) = pred :: localParts results := rfl
      rw [hparts, hrest, List.forall_mem_cons, and_left_comm]
    | split t rest =>
      have hparts : pushableParts ((pred, .split t rest) :: results) = t :: pushableParts results := rfl
      have hrest : localParts ((pred, .split t rest) :: results) = rest :: localParts results := rfl
      rw [hparts, hrest, List.forall_mem_cons, List.forall_mem_cons]
      dsimp only
      rw [h.1]
      exact and_and_and_comm

theorem map_holds_parts (hkept : ∀ r ∈ results, PushKept E row caps r.1 r.2) (hrest : localParts results = []) :
    (pushableParts results).map (fun t => E.holds row t.original) = results.map fun r => E.holds row r.1 := by
  induction results with
  | nil => rfl
  | cons r results ih =>
    obtain ⟨pred, result⟩ := r
    obtain ⟨h, hresults⟩ := List.forall_mem_cons.mp hkept
    cases result with
    | pushable t =>
      have hparts : pushableParts ((pred, .pushable t) :: results) = t :: pushableParts results := rfl
      have hrest : localParts results = [] := hrest
      rw [hparts, List.map_cons, List.map_cons, ih hresults hrest, h.1]
    | localOnly reason => cases hrest
    | split t rest => cases hrest

theorem kept_splitOff {rest : List QueryPredicate}
    (htruth : E.holds row pred = some true ↔
      E.holds row t.original = some true ∧ ∀ l ∈ rest, E.holds row l = some true)
    (hwhole : rest = [] → E.holds row t.original = E.holds row pred) (hsent : SentWhole caps t) :
    PushKept E row caps pred (splitOff t rest) := by
  unfold splitOff
  split
  next hnil => exact ⟨hwhole hnil, hsent⟩
  next hne =>
    refine ⟨htruth.trans (and_congr_right' ?_), hsent⟩
    rw [FilterEngine.holds_conjoin hne, Truth.all_eq_true, List.forall_mem_map]

theorem displayAll_eq_map (dialect : SqlDialect) (preds : List QueryPredicate) :
    displayAll dialect preds = preds.map (predicateToDisplaySql dialect) := by
  induction preds with
  | nil => rfl
  | cons pred preds ih => rw [displayAll, ih, List.map_cons]

theorem filterMap_asSql {ts : List TranslatedPredicate} (hsql : caps.supportsArbitrarySql = true)
    (hsent : ∀ t ∈ ts, SentWhole caps t) :
    ts.filterMap (·.translated.asSql) = (ts.map (·.original)).map (predicateToDisplaySql .clickHouse) := by
  induction ts with
  | nil => rfl
  | cons t ts ih =>
    obtain ⟨ht, hts⟩ := List.forall_mem_cons.mp hsent
    have hsome : t.translated.asSql = some (predicateToDisplaySql .clickHouse t.original) := by rw [ht hsql]; rfl
    rw [List.filterMap_cons, hsome, List.map_cons, List.map_cons, ← ih hts]

theorem forall_holds_and (hne : preds ≠ []) :
    E.holds row (.and preds) = some true ↔ ∀ pred ∈ preds, E.holds row pred = some true := by
  rw [FilterEngine.holds_and hne, Truth.all_eq_true, List.forall_mem_map]

theorem kept_handleAndPredicate (hkept : ∀ r ∈ results, PushKept E row caps r.1 r.2) :
    PushKept E row caps (.and (results.map (·.1))) (handleAndPredicate caps results) := by
  simp only [handleAndPredicate]
  split
  next => trivial
  next hparts =>
    have hne : results.map (·.1) ≠ [] := by
      intro hnil
      rw [List.map_eq_nil_iff.mp hnil] at hparts
      exact hparts rfl
    have htruth : E.holds row (.and (results.map (·.1))) = some true ↔
        (∀ t ∈ pushableParts results, E.holds row t.original = some true) ∧
          ∀ rest ∈ localParts results, E.holds row rest = some true := by
      rw [forall_holds_and hne, List.forall_mem_map, forall_parts hkept]
    have hwhole : localParts results = [] → ∀ ts, ts = pushableParts results → ts ≠ [] →
        E.holds row (.and (ts.map (·.original))) = E.holds row (.and (results.map (·.1))) := by
      rintro hrest ts rfl hts
      rw [FilterEngine.holds_and hne, FilterEngine.holds_and (by simpa using hts), List.map_map, List.map_map]
      exact congrArg _ (map_holds_parts hkept hrest)
    split
    next hsql =>
      split
      next => trivial
      next hsome =>
        have hsome : (pushableParts results).filter (·.translated.asSql.isSome) ≠ [] := by simpa using hsome
        refine kept_splitOff ?_ (fun hnil => ?_) fun _ => ?_
        · rw [htruth, forall_holds_and (by simpa using hsome), List.forall_mem_map, List.forall_mem_append,
            List.forall_mem_map]
          simp only [List.mem_filter]
          constructor
          · rintro ⟨hall, hrest⟩
            exact ⟨fun t ht => hall t ht.1, hrest, fun t ht => hall t ht.1⟩
          · rintro ⟨hsqlparts, hrest, hothers⟩
            refine ⟨fun t ht => ?_, hrest⟩
            cases hsome : t.translated.asSql.isSome with
            | true => exact hsqlparts t ⟨ht, hsome⟩
            | false => exact hothers t ⟨ht, by rw [hsome]; rfl⟩
        · obtain ⟨hrest, hothers⟩ := List.append_eq_nil_iff.mp hnil
          have hall : (pushableParts results).filter (·.translated.asSql.isSome) = pushableParts results := by
            refine List.filter_eq_self.mpr fun t ht => ?_
            have hnot := List.filter_eq_nil_iff.mp (List.map_eq_nil_iff.mp hothers) t ht
            simpa [Option.isSome_iff_ne_none] using hnot
          exact hwhole hrest _ hall hsome
        · have hsent : ∀ t ∈ (pushableParts results).filter (·.translated.asSql.isSome), SentWhole caps t :=
            fun t ht => sentWhole_parts hkept t (List.mem_of_mem_filter ht)
          rw [filterMap_asSql hsql hsent, predicateToDisplaySql, if_neg (by simpa using hsome), displayAll_eq_map]
    next hsql =>
      have hsent : ∀ t, SentWhole caps t := fun t h => absurd h hsql
      split
      next => trivial
      next hsome =>
        have hsome : (mergeParams (pushableParts results) ∅).1 ≠ [] := by simpa using hsome
        refine kept_splitOff ?_ (fun hnil => ?_) (hsent _)
        · rw [htruth, mergeParams_forall _ ∅, forall_holds_and (by simpa using hsome), List.forall_mem_map,
            List.forall_mem_append, List.forall_mem_map]
          simp only [List.mem_reverse]
          rw [and_assoc, and_comm (a := ∀ t ∈ (mergeParams (pushableParts results) ∅).2.1, _)]
        · obtain ⟨hrest, hcollided⟩ := List.append_eq_nil_iff.mp hnil
          have hcollided : (mergeParams (pushableParts results) ∅).2.1 = [] := by simpa using hcollided
          exact hwhole hrest _ (mergeParams_kept hcollided) hsome

/-! ### Disjunctions and negations -/

theorem forall_allPushable {results : List PushResult} {parts : List TranslatedPredicate}
    (h : allPushable results = .ok parts) : results = parts.map .pushable := by
  induction results generalizing parts with
  | nil =>
    cases h
    rfl
  | cons result results ih =>
    cases result with
    | pushable t =>
      rw [allPushable] at h
      cases hrest : allPushable results with
      | error reason =>
        rw [hrest] at h
        cases h
      | ok rest =>
        rw [hrest] at h
        cases h
        rw [ih hrest, List.map_cons]
    | localOnly reason => cases h
    | split t rest => cases h

/-- A disjunction is pushed if all of its parts are, and means what they mean. -/
theorem kept_handleOrPredicate (hkept : ∀ r ∈ results, PushKept E row caps r.1 r.2) :
    PushKept E row caps (.or (results.map (·.1))) (handleOrPredicate caps (results.map (·.2))) := by
  unfold handleOrPredicate
  split
  next => trivial
  next parts hparts =>
    have hresults := forall_allPushable hparts
    have hsent : ∀ t ∈ parts, SentWhole caps t := by
      intro t ht
      obtain ⟨r, hr, hresult⟩ := List.mem_map.mp (hresults ▸ List.mem_map_of_mem ht)
      have h := hkept r hr
      rw [hresult] at h
      exact h.2
    split
    next => trivial
    next hne =>
      have hne : parts ≠ [] := by simpa using hne
      split
      next hsql =>
        dsimp only
        split
        next =>
          have hholds : (parts.map fun t => E.holds row t.original) = results.map fun r => E.holds row r.1 := by
            have hlength : parts.length = results.length := by
              simpa using (congrArg List.length hresults).symm
            refine List.ext_getElem (by simpa using hlength) fun n hn hn' => ?_
            rw [List.getElem_map, List.getElem_map]
            have hn : n < parts.length := by simpa using hn
            have hn' : n < results.length := by simpa using hn'
            have h := hkept results[n] (List.getElem_mem hn')
            have hresult : results[n].2 = .pushable parts[n] := by
              have hget := congrArg (·[n]?) hresults
              simpa [List.getElem?_eq_getElem hn, List.getElem?_eq_getElem hn'] using hget
            rw [hresult] at h
            exact h.1
          have hresults : results.map (·.1) ≠ [] := by
            intro hnil
            rw [List.map_eq_nil_iff.mp hnil] at hresults
            exact hne (List.map_eq_nil_iff.mp hresults.symm)
          refine ⟨?_, fun _ => ?_⟩
          · rw [holds_or_eq_any (by simpa using hne), holds_or_eq_any hresults, List.map_map, List.map_map]
            exact congrArg _ hholds
          · rw [filterMap_asSql hsql hsent, predicateToDisplaySql, if_neg (by simpa using hne), displayAll_eq_map]
        next => trivial
      next => trivial

theorem kept_handleNotPredicate {result : PushResult} (hkept : PushKept E row caps pred result) :
    PushKept E row caps (.not pred) (handleNotPredicate caps result) := by
  cases result with
  | pushable t =>
    refine ⟨?_, fun hsql => ?_⟩
    · rw [FilterEngine.holds_not, FilterEngine.holds_not, hkept.1]
    · have hsome : t.translated.asSql = some (predicateToDisplaySql .clickHouse t.original) := by
        rw [hkept.2 hsql]
        rfl
      dsimp only
      rw [if_pos hsql, hsome, predicateToDisplaySql]
  | localOnly reason => trivial
  | split t rest => trivial

/-! ### The analysis -/

theorem canPushAll_eq_map (preds : List QueryPredicate) :
    canPushAll R caps source preds = preds.map (canPushPredicate R caps source) := by
  induction preds with
  | nil => rfl
  | cons pred preds ih => rw [canPushAll, ih, List.map_cons]

theorem zip_canPushAll (preds : List QueryPredicate) :
    (preds.zip (canPushAll R caps source preds)).map (·.1) = preds ∧
      (preds.zip (canPushAll R caps source preds)).map (·.2) = canPushAll R caps source preds := by
  have hlength : preds.length = (canPushAll R caps source preds).length := by simp [canPushAll_eq_map]
  exact ⟨List.map_fst_zip (Nat.le_of_eq hlength), List.map_snd_zip (Nat.le_of_eq hlength.symm)⟩

mutual

theorem kept_canPushPredicate (hkeep : TransformsKeep R E row caps) :
    ∀ pred : QueryPredicate, PushKept E row caps pred (canPushPredicate R caps source pred)
  | .equals _ _ | .greaterThan _ _ _ | .lessThan _ _ _ | .between _ _ _ | .like _ _ | .contains _ _ | .isNull _ _ =>
    kept_checkSimplePredicate hkeep rfl
  | .isIn _ _ => kept_handleInPredicate hkeep
  | .and preds => by
    rw [canPushPredicate]
    split
    next => trivial
    next =>
      have h := kept_handleAndPredicate (kept_canPushAll hkeep preds)
      rwa [(zip_canPushAll preds).1] at h
  | .or preds => by
    rw [canPushPredicate]
    split
    next => trivial
    next =>
      have h := kept_handleOrPredicate (kept_canPushAll hkeep preds)
      rwa [(zip_canPushAll preds).1, (zip_canPushAll preds).2] at h
  | .not inner => by
    rw [canPushPredicate]
    split
    next => trivial
    next => exact kept_handleNotPredicate (kept_canPushPredicate hkeep inner)

theorem kept_canPushAll (hkeep : TransformsKeep R E row caps) :
    ∀ preds : List QueryPredicate, ∀ r ∈ preds.zip (canPushAll R caps source preds), PushKept E row caps r.1 r.2
  | [], _, hr => nomatch hr
  | pred :: preds, r, hr => by
    rw [canPushAll, List.zip_cons_cons, List.mem_cons] at hr
    rcases hr with rfl | hr
    · exact kept_canPushPredicate hkeep pred
    · exact kept_canPushAll hkeep preds r hr

end

/-- One predicate more: what is pushed and what stays are true together exactly if it is true as well. -/
theorem analyzePredicate_keeps (source : String) (hkeep : TransformsKeep R E row caps)
    (state : SourcePredicateAnalysis × Nat) (pred : QueryPredicate)
    (hsent : ∀ t ∈ state.1.pushable, SentWhole caps t) (hcount : state.1.pushable.length = state.2)
    (hmax : ∀ max ∈ caps.maxFilters, state.2 ≤ max) :
    let state' := analyzePredicate R caps source state pred
    (((∀ t ∈ state'.1.pushable, E.holds row t.original = some true) ∧
        ∀ p ∈ state'.1.localOnly, E.holds row p = some true) ↔
      ((∀ t ∈ state.1.pushable, E.holds row t.original = some true) ∧
        ∀ p ∈ state.1.localOnly, E.holds row p = some true) ∧ E.holds row pred = some true) ∧
      (∀ t ∈ state'.1.pushable, SentWhole caps t) ∧ state'.1.pushable.length = state'.2 ∧
      ∀ max ∈ caps.maxFilters, state'.2 ≤ max := by
  obtain ⟨analysis, filterCount⟩ := state
  have hlocal : ∀ reason, (∀ p ∈ (analysis.addLocalWithWarning source pred reason).localOnly,
      E.holds row p = some true) ↔ (∀ p ∈ analysis.localOnly, E.holds row p = some true) ∧
        E.holds row pred = some true := by
    intro reason
    rw [SourcePredicateAnalysis.addLocalWithWarning, List.forall_mem_append, List.forall_mem_singleton]
  simp only [analyzePredicate]
  split
  next => exact ⟨by rw [hlocal, and_assoc]; rfl, hsent, hcount, hmax⟩
  next hfree =>
    have hlt : ∀ max ∈ caps.maxFilters, filterCount + 1 ≤ max := by
      intro max hmem
      rw [Option.filter_eq_none_iff] at hfree
      have hnot := hfree max hmem
      have hnot : ¬max ≤ filterCount := by simpa using hnot
      omega
    have hkept : PushKept E row caps pred (canPushPredicate R caps source pred) := kept_canPushPredicate hkeep pred
    split
    next t hresult =>
      rw [hresult] at hkept
      simp only [List.forall_mem_append, List.forall_mem_singleton, List.length_append, List.length_singleton]
      exact ⟨by rw [hkept.1, and_right_comm], ⟨hsent, hkept.2⟩, congrArg (· + 1) hcount, hlt⟩
    next => exact ⟨by rw [hlocal, and_assoc]; rfl, hsent, hcount, hmax⟩
    next t rest hresult =>
      rw [hresult] at hkept
      simp only [List.forall_mem_append, List.forall_mem_singleton, List.length_append, List.length_singleton]
      exact ⟨by rw [hkept.1, and_and_and_comm], ⟨hsent, hkept.2⟩, congrArg (· + 1) hcount, hlt⟩

end Split

/-- Where a source's value transformations keep what its predicates mean, the pushed predicates and those that stay are
    true together exactly if all of the query's are. A source that takes SQL is sent the text of each pushed predicate,
    and none is sent more than it takes. -/
theorem analyzeForSource_splits {V : Type} (E : FilterEngine V) (row : String → V) (R : ValueReader)
    (capabilities : Dict String SourceCapabilities) (source : String) (preds : List QueryPredicate)
    (hkeep : TransformsKeep R E row ((capabilities.lookup source).getD .noPushdown)) :
    let caps := (capabilities.lookup source).getD .noPushdown
    let analysis := analyzeForSource R capabilities source preds
    ((∀ pred ∈ preds, E.holds row pred = some true) ↔
      (∀ t ∈ analysis.pushable, E.holds row t.original = some true) ∧
        ∀ pred ∈ analysis.localOnly, E.holds row pred = some true) ∧
      (∀ t ∈ analysis.pushable, SentWhole caps t) ∧ ∀ max ∈ caps.maxFilters, analysis.pushable.length ≤ max := by
  intro caps analysis
  have hfold : ∀ (preds : List QueryPredicate) (state : SourcePredicateAnalysis × Nat),
      (∀ t ∈ state.1.pushable, SentWhole caps t) → state.1.pushable.length = state.2 →
      (∀ max ∈ caps.maxFilters, state.2 ≤ max) →
      let state' := preds.foldl (analyzePredicate R caps source) state
      (((∀ t ∈ state'.1.pushable, E.holds row t.original = some true) ∧
          ∀ p ∈ state'.1.localOnly, E.holds row p = some true) ↔
        ((∀ t ∈ state.1.pushable, E.holds row t.original = some true) ∧
          ∀ p ∈ state.1.localOnly, E.holds row p = some true) ∧ ∀ pred ∈ preds, E.holds row pred = some true) ∧
        (∀ t ∈ state'.1.pushable, SentWhole caps t) ∧ state'.1.pushable.length = state'.2 ∧
        ∀ max ∈ caps.maxFilters, state'.2 ≤ max := by
    intro preds
    induction preds with
    | nil =>
      intro state hsent hcount hmax
      exact ⟨by simp, hsent, hcount, hmax⟩
    | cons pred preds ih =>
      intro state hsent hcount hmax
      obtain ⟨htruth, hsent, hcount, hmax⟩ := analyzePredicate_keeps source hkeep state pred hsent hcount hmax
      obtain ⟨hrest, hdone⟩ := ih _ hsent hcount hmax
      refine ⟨?_, hdone⟩
      rw [List.foldl_cons, hrest, htruth, List.forall_mem_cons, and_assoc]
  obtain ⟨htruth, hsent, hcount, hmax⟩ :=
    hfold preds ({}, 0) (fun _ h => nomatch h) rfl (fun _ _ => Nat.zero_le _)
  refine ⟨?_, hsent, fun max hmem => ?_⟩
  · exact (htruth.trans (by simp)).symm
  · exact Nat.le_trans (Nat.le_of_eq hcount) (hmax max hmem)

/-- Nothing is a time or an amount, and texts stay as they are. -/
def plainReader : ValueReader where
  rfc3339 _ := none
  date _ := none
  dateTime _ := none
  toLowercase := id
  toUppercase := id
  urlEncode := id
  base64Encode := id
  centsToDollars := toString
  dollarsToCents _ := .error "Cannot parse as number for dollars conversion"

/-- An API with two parameters, one request's worth of filters. -/
def chargesApi : SourceCapabilities where
  supportedOperations := []
  columnFilters := Dict.ofPairs [("customer", { supportedOps := [.equals] }), ("status", { supportedOps := [.equals] })]
  supportsArbitrarySql := false
  supportsAnd := true
  supportsOr := false
  supportsNot := false
  maxFilters := some 1

/-- The second status has no parameter left, and the third predicate comes after the limit. -/
theorem analyzeForSource_splits_charges :
    let capabilities := Dict.ofPairs [("stripe", chargesApi)]
    let preds : List QueryPredicate := [.and [.equals "status" "paid", .equals "customer" "c", .equals "status" "open"],
      .greaterThan "amount" "5" true, .equals "customer" "c"]
    let analysis := analyzeForSource plainReader capabilities "stripe" preds
    analysis.pushable.length = 1 ∧ analysis.localOnly.length = 3 ∧
      ((∀ pred ∈ preds, textEngine.holds (fun _ => .inl "paid") pred = some true) ↔
        (∀ t ∈ analysis.pushable, textEngine.holds (fun _ => .inl "paid") t.original = some true) ∧
          ∀ pred ∈ analysis.localOnly, textEngine.holds (fun _ => .inl "paid") pred = some true) := by
  intro capabilities preds analysis
  have hkeep : TransformsKeep plainReader textEngine (fun _ => .inl "paid") chargesApi :=
    transformsKeep_of_none (by decide)
  have hsplits :=
    analyzeForSource_splits textEngine (fun _ => .inl "paid") plainReader capabilities "stripe" preds hkeep
  exact ⟨by decide +kernel, by decide +kernel, hsplits.1⟩

end Reiver.Pond
