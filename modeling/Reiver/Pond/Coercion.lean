import Reiver.Pond.FieldJson

/-! # Coercion of column types

`coerce_arrow_types` of `types.rs`: what becomes of two columns whose values are to be compared. The display of a type
in a message is a parameter. -/

namespace Reiver.Pond

inductive CoercionResult where
  | same
  | autoCoerce (target : ArrowType) (warning : Option String)
  | requiresExplicit (reason suggestion : String)
  | incompatible (reason : String)

def TimeUnit.rank : TimeUnit → Nat
  | .second => 0
  | .millisecond => 1
  | .microsecond => 2
  | .nanosecond => 3

def TimeUnit.finer (u v : TimeUnit) : TimeUnit := if u.rank ≤ v.rank then v else u

def precisionWarning (u v : TimeUnit) : Option String :=
  if u ≠ v then
    some s!"Timestamp precision mismatch ({u.debug} vs {v.debug}), aligning to {(u.finer v).debug}"
  else none

def decimalWarning (p q : UInt8) (s t : Int8) : Option String :=
  if p ≠ q ∨ s ≠ t then some s!"Decimal precision mismatch ({p},{s}) vs ({q},{t})" else none

def floatToInteger : CoercionResult :=
  .requiresExplicit "Float to integer conversion loses fractional part"
    "Use CAST(column AS Int32/Int64) or FLOOR()/CEIL() if truncation is intended"

def stringConversion : CoercionResult :=
  .requiresExplicit "String conversion may lose data or fail" "Use explicit CAST(column AS type)"

/-- What becomes of lists by what becomes of their elements. -/
def CoercionResult.ofElements (name : String) (nullable nullable' : Bool) : CoercionResult → CoercionResult
  | .autoCoerce target warning => .autoCoerce (.list (.new name target (nullable || nullable'))) warning
  | result => result

variable (debug : ArrowType → String)

-- Whether a statement holds of every width is not to be decided by enumerating them: the equations of the match below
-- would be searched that way.
noncomputable local instance (priority := high) decidableForallPrecision (p : UInt8 → Prop) : Decidable (∀ w, p w) :=
  Classical.propDecidable _

noncomputable local instance (priority := high) decidableForallScale (p : Int8 → Prop) : Decidable (∀ w, p w) :=
  Classical.propDecidable _

/-- The arms in the order of the source; the first that fits counts. -/
def coerceArrowTypes (left right : ArrowType) : CoercionResult :=
  if left = right then .same
  else
    match left, right with
    -- wider integers
    | .int8, .int16 | .int8, .int32 | .int8, .int64 | .int16, .int32 | .int16, .int64 | .int32, .int64 =>
      .autoCoerce right none
    | .int16, .int8 | .int32, .int8 | .int64, .int8 | .int32, .int16 | .int64, .int16 | .int64, .int32 =>
      .requiresExplicit "Integer narrowing may lose data"
        s!"Use CAST(column AS {debug right}) if you're sure values fit"
    | .uint8, .int16 | .uint8, .int32 | .uint8, .int64 | .uint16, .int32 | .uint16, .int64 | .uint32, .int64 =>
      .autoCoerce right none
    | .uint8, .uint16 | .uint8, .uint32 | .uint8, .uint64 | .uint16, .uint32 | .uint16, .uint64 | .uint32, .uint64 =>
      .autoCoerce right none
    -- floats
    | .float32, .float64 => .autoCoerce .float64 none
    | .float64, .float32 =>
      .requiresExplicit "Float narrowing may lose precision"
        "Use CAST(column AS FLOAT) if precision loss is acceptable"
    | .int32, .float64 | .int64, .float64 =>
      .autoCoerce .float64 (some "Large integers may lose precision when converted to Float64")
    | .float64, .int32 | .float64, .int64 | .float32, .int32 | .float32, .int64 => floatToInteger
    -- times
    | .timestamp u none, .timestamp v (some tz) | .timestamp v (some tz), .timestamp u none =>
      .autoCoerce (.timestamp (u.finer v) (some tz)) (some "Timestamp without timezone interpreted as UTC")
    | .timestamp u tz, .timestamp v tz' => .autoCoerce (.timestamp (u.finer v) (tz.or tz')) (precisionWarning u v)
    | .date32, .timestamp unit tz | .date64, .timestamp unit tz =>
      .autoCoerce (.timestamp unit tz) (some "Date interpreted as midnight UTC")
    | .timestamp .., .date32 | .timestamp .., .date64 =>
      .requiresExplicit "Converting timestamp to date loses time component"
        "Use CAST(column AS DATE) or date_trunc()"
    -- decimals
    | .decimal128 p s, .decimal128 p' s' => .autoCoerce (.decimal128 (max p p') (max s s')) (decimalWarning p p' s s')
    | .decimal128 .., .float64 => .autoCoerce .float64 (some "Decimal to Float64 may lose precision")
    | .float64, .decimal128 p s => .autoCoerce (.decimal128 p s) (some "Float64 to Decimal may lose precision")
    -- texts
    | .utf8, .largeUtf8 | .largeUtf8, .utf8 => .autoCoerce .largeUtf8 none
    | .utf8, _ | .largeUtf8, _ | _, .utf8 | _, .largeUtf8 => stringConversion
    | .binary, .largeBinary | .largeBinary, .binary => .autoCoerce .largeBinary none
    | .boolean, .int8 | .boolean, .int16 | .boolean, .int32 | .boolean, .int64 =>
      .autoCoerce right (some "Boolean converted to 0/1")
    | .int8, .boolean | .int16, .boolean | .int32, .boolean | .int64, .boolean =>
      .requiresExplicit "Integer to boolean is ambiguous (what is truthy?)"
        "Use column != 0 or CAST(column AS BOOLEAN)"
    | .time32 u, .time64 v | .time64 v, .time32 u => .autoCoerce (.time64 (u.finer v)) none
    | .duration u, .duration v => .autoCoerce (.duration (u.finer v)) none
    | .list (.new name element nullable), .list (.new _ element' nullable')
    | .largeList (.new name element nullable), .largeList (.new _ element' nullable') =>
      (coerceArrowTypes element element').ofElements name nullable nullable'
    | _, _ => .incompatible s!"Cannot coerce {debug left} to {debug right}"

attribute [grind =] coerceArrowTypes.eq_def

def commonSupertype (left right : ArrowType) : Option ArrowType :=
  match coerceArrowTypes debug left right with
  | .same => some left
  | .autoCoerce target _ => some target
  | _ => none

end Reiver.Pond
