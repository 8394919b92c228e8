import Mathlib.Algebra.BigOperators.Group.List.Basic
import Mathlib.Algebra.Order.Ring.Nat
import Mathlib.Data.List.Basic
import Mathlib.Data.Rat.Defs

/-! # Prices of models

The choice of a pricing row in `calculate_cost` of `cost.rs`. Names are lists of characters; lower case and the digits
of a regular expression are parameters. The table is listed in the order in which it is iterated. -/

namespace Reiver.Core.Llm

structure ModelPricing where
  provider : List Char
  model : List Char
  inputCostPerToken : ℚ
  outputCostPerToken : ℚ
  cacheReadCostPerToken : ℚ
  cacheWriteCostPerToken : ℚ
deriving DecidableEq

namespace ModelPricing

def key (e : ModelPricing) : List Char × List Char := (e.provider, e.model)

def prices (e : ModelPricing) : ℚ × ℚ × ℚ × ℚ :=
  (e.inputCostPerToken, e.outputCostPerToken, e.cacheReadCostPerToken, e.cacheWriteCostPerToken)

end ModelPricing

/-- The cache: one row for each provider and model. -/
structure PricingTable where
  rows : List ModelPricing
  nodup : (rows.map ModelPricing.key).Nodup

/-- `cache.get`. -/
def PricingTable.get (cache : PricingTable) (provider model : List Char) : Option ModelPricing :=
  cache.rows.find? (·.key = (provider, model))

def byteLen (text : List Char) : Nat := (text.map Char.utf8Size).sum

section Suffixes
variable (isDigit : Char → Bool)

def matchesShape : List Char → List Char → Bool
  | [], [] => true
  | '-' :: shape, c :: cs => c = '-' && matchesShape shape cs
  | _ :: shape, c :: cs => isDigit c && matchesShape shape cs
  | _, _ => false

/-- `-\d{4}-\d{2}-\d{2}`, from end to end. -/
def isDateSuffix (suffix : List Char) : Bool := matchesShape isDigit "-dddd-dd-dd".toList suffix

/-- `-\d{3,}`, from end to end. -/
def isNumericSuffix : List Char → Bool
  | '-' :: digits => 3 ≤ digits.length && digits.all isDigit
  | _ => false

/-- `is_match` of a pattern that is tied to the end of the text. -/
def matchesAtEnd (pattern : List Char → Bool) (text : List Char) : Bool := text.tails.any pattern

/-- `replace(text, "")`, of the leftmost match. -/
def stripAtEnd (pattern : List Char → Bool) : List Char → List Char
  | [] => []
  | c :: cs => if pattern (c :: cs) then [] else c :: stripAtEnd pattern cs

def extractBaseModel (model : List Char) : List Char :=
  stripAtEnd (isNumericSuffix isDigit) (stripAtEnd (isDateSuffix isDigit) model)

def startsWithDigits (afterDash : List Char) : Bool :=
  (afterDash.head?.map fun c => c.isDigit).getD false && 3 ≤ byteLen afterDash && (afterDash.take 4).all Char.isDigit

/-- `is_version_suffix`. -/
def isVersionSuffix (suffix : List Char) : Bool :=
  if suffix.isEmpty then true
  else if [':'] <+: suffix then true
  else if ['-'] <+: suffix then
    matchesAtEnd (isDateSuffix isDigit) ('x' :: suffix) || matchesAtEnd (isNumericSuffix isDigit) ('x' :: suffix) ||
      startsWithDigits suffix.tail
  else false

end Suffixes

variable (toLowercase : List Char → List Char) (isDigit : Char → Bool)

/-- One round of the loop over the rows; the length of the best one so far goes with it. -/
def betterPrefix (provider model : List Char) (best : Option ModelPricing × Nat) (e : ModelPricing) :
    Option ModelPricing × Nat :=
  if e.provider = provider ∧ e.model <+: model ∧ best.2 < byteLen e.model then
    if isVersionSuffix isDigit (model.drop e.model.length) then (some e, byteLen e.model) else best
  else best

def findModelFamilyMatch (cache : PricingTable) (provider model : List Char) : Option ModelPricing :=
  let providerLower := toLowercase provider
  let modelLower := toLowercase model
  let baseModel := extractBaseModel isDigit modelLower
  match if baseModel ≠ modelLower then cache.get providerLower baseModel else none with
  | some pricing => some pricing
  | none => (cache.rows.foldl (betterPrefix isDigit providerLower modelLower) (none, 0)).1

def findAnyProviderMatch (cache : PricingTable) (model : List Char) : Option ModelPricing :=
  let modelLower := toLowercase model
  match cache.rows.find? (·.model = modelLower) with
  | some pricing => some pricing
  | none =>
    let baseModel := extractBaseModel isDigit modelLower
    if baseModel ≠ modelLower then cache.rows.find? (·.model = baseModel) else none

/-- The part behind the first slash, unless it is empty. -/
def stripProviderPrefix (model : List Char) : List Char :=
  if (model.dropWhile (· ≠ '/')).tail.isEmpty then model else (model.dropWhile (· ≠ '/')).tail

/-- The row `calculate_cost` takes its prices from. -/
def pricingOf (cache : PricingTable) (provider model : List Char) : Option ModelPricing :=
  let providerLower := toLowercase provider
  let modelLower := stripProviderPrefix (toLowercase model)
  match cache.get providerLower modelLower with
  | some pricing => some pricing
  | none =>
    match findModelFamilyMatch toLowercase isDigit cache providerLower modelLower with
    | some pricing => some pricing
    | none => findAnyProviderMatch toLowercase isDigit cache modelLower

end Reiver.Core.Llm
