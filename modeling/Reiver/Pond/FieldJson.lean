import Reiver.Lib.JsonValue
import Reiver.Pond.Arrow

/-! # Fields as JSON

`field_to_json` and `json_to_field` of `types.rs`, over the whole type grammar of Arrow. The types the encoder does
not know are `unsupported`, with their display. -/

namespace Reiver.Pond

mutual

inductive ArrowType where
  | boolean
  | int8
  | int16
  | int32
  | int64
  | uint8
  | uint16
  | uint32
  | uint64
  | float16
  | float32
  | float64
  | utf8
  | largeUtf8
  | binary
  | largeBinary
  | date32
  | date64
  | time32 (unit : TimeUnit)
  | time64 (unit : TimeUnit)
  | timestamp (unit : TimeUnit) (tz : Option String)
  | duration (unit : TimeUnit)
  | decimal128 (precision : UInt8) (scale : Int8)
  | decimal256 (precision : UInt8) (scale : Int8)
  | fixedSizeBinary (size : Int32)
  | list (item : ArrowField)
  | largeList (item : ArrowField)
  | fixedSizeList (item : ArrowField) (size : Int32)
  | map (entries : ArrowField) (sorted : Bool)
  | struct (fields : List ArrowField)
  | unsupported (display : String)

inductive ArrowField where
  | new (name : String) (dataType : ArrowType) (nullable : Bool)

end

/-- The `{:?}` of a unit. -/
def TimeUnit.debug : TimeUnit → String
  | .second => "Second"
  | .millisecond => "Millisecond"
  | .microsecond => "Microsecond"
  | .nanosecond => "Nanosecond"

def parseTimeUnit : String → TimeUnit
  | "Second" => .second
  | "Millisecond" => .millisecond
  | "Microsecond" => .microsecond
  | "Nanosecond" => .nanosecond
  | _ => .microsecond

@[simp] theorem parseTimeUnit_debug (unit : TimeUnit) : parseTimeUnit unit.debug = unit := by
  cases unit <;> rfl

/-! ### The encoder -/

/-- A type's own object: its tag, then its parameters. -/
def typeJson (tag : String) (parameters : List (String × JsonValue)) : JsonValue :=
  .object (("type", .string tag) :: parameters)

def unitJson (unit : TimeUnit) : String × JsonValue := ("unit", .string unit.debug)

def decimalJson (precision : UInt8) (scale : Int8) : List (String × JsonValue) :=
  [("precision", .int precision.toNat), ("scale", .int scale.toInt)]

def tzJson : Option String → JsonValue
  | some tz => .string tz
  | none => .null

mutual

def dataTypeToJson : ArrowType → JsonValue
  | .boolean => typeJson "bool" []
  | .int8 => typeJson "int8" []
  | .int16 => typeJson "int16" []
  | .int32 => typeJson "int32" []
  | .int64 => typeJson "int64" []
  | .uint8 => typeJson "uint8" []
  | .uint16 => typeJson "uint16" []
  | .uint32 => typeJson "uint32" []
  | .uint64 => typeJson "uint64" []
  | .float16 => typeJson "float16" []
  | .float32 => typeJson "float32" []
  | .float64 => typeJson "float64" []
  | .utf8 => typeJson "utf8" []
  | .largeUtf8 => typeJson "largeutf8" []
  | .binary => typeJson "binary" []
  | .largeBinary => typeJson "largebinary" []
  | .date32 => typeJson "date32" []
  | .date64 => typeJson "date64" []
  | .time32 unit => typeJson "time32" [unitJson unit]
  | .time64 unit => typeJson "time64" [unitJson unit]
  | .timestamp unit tz => typeJson "timestamp" [unitJson unit, ("tz", tzJson tz)]
  | .duration unit => typeJson "duration" [unitJson unit]
  | .decimal128 precision scale => typeJson "decimal128" (decimalJson precision scale)
  | .decimal256 precision scale => typeJson "decimal256" (decimalJson precision scale)
  | .fixedSizeBinary size => typeJson "fixedsizebinary" [("size", .int size.toInt)]
  | .list item => typeJson "list" [("item", fieldToJson item)]
  | .largeList item => typeJson "largelist" [("item", fieldToJson item)]
  | .fixedSizeList item size => typeJson "fixedsizelist" [("item", fieldToJson item), ("size", .int size.toInt)]
  | .map entries sorted => typeJson "map" [("entries", fieldToJson entries), ("sorted", .bool sorted)]
  | .struct fields => typeJson "struct" [("fields", .array (fieldsToJson fields))]
  | .unsupported _ => typeJson "utf8" []

def fieldToJson : ArrowField → JsonValue
  | .new name dataType nullable =>
    .object [("name", .string name), ("nullable", .bool nullable), ("dataType", dataTypeToJson dataType)]

def fieldsToJson : List ArrowField → List JsonValue
  | [] => []
  | field :: fields => fieldToJson field :: fieldsToJson fields

end

/-! ### The decoder -/

def unitOf (dtJson : JsonValue) (unstated : String) : TimeUnit :=
  parseTimeUnit (((dtJson.get "unit").bind JsonValue.asStr).getD unstated)

def precisionOf (dtJson : JsonValue) (unstated : Nat) : UInt8 :=
  UInt8.ofNat (((dtJson.get "precision").bind JsonValue.asU64).getD unstated)

def scaleOf (dtJson : JsonValue) : Int8 := Int8.ofInt (((dtJson.get "scale").bind JsonValue.asI64).getD 0)

def sizeIn (dtJson : JsonValue) (unstated : Int) : Int32 :=
  Int32.ofInt (((dtJson.get "size").bind JsonValue.asI64).getD unstated)

mutual

/-- `json_to_field`; the objects it goes down into are smaller than the one it is given. -/
def jsonToField (json : JsonValue) : Option ArrowField :=
  match (json.get "name").bind JsonValue.asStr, json.get "nullable", h : json.get "dataType" with
  | some name, some nullable, some dtJson =>
    (jsonToDataType dtJson).map fun dataType => .new name dataType (nullable.asBool.getD true)
  | _, _, _ => none
termination_by (sizeOf json, 0)
decreasing_by exact Prod.Lex.left _ _ (JsonValue.sizeOf_get h)

def jsonToDataType (dtJson : JsonValue) : Option ArrowType :=
  match (dtJson.get "type").bind JsonValue.asStr with
  | none => none
  | some typeName =>
    match typeName with
    | "bool" => some .boolean
    | "int8" => some .int8
    | "int16" => some .int16
    | "int32" => some .int32
    | "int64" => some .int64
    | "uint8" => some .uint8
    | "uint16" => some .uint16
    | "uint32" => some .uint32
    | "uint64" => some .uint64
    | "float16" => some .float16
    | "float32" => some .float32
    | "float64" => some .float64
    | "utf8" => some .utf8
    | "largeutf8" => some .largeUtf8
    | "binary" => some .binary
    | "largebinary" => some .largeBinary
    | "date32" => some .date32
    | "date64" => some .date64
    | "time32" => some (.time32 (unitOf dtJson "Millisecond"))
    | "time64" => some (.time64 (unitOf dtJson "Microsecond"))
    | "timestamp" =>
      some (.timestamp (unitOf dtJson "Microsecond") ((dtJson.get "tz").bind JsonValue.asStr))
    | "duration" => some (.duration (unitOf dtJson "Microsecond"))
    | "decimal128" => some (.decimal128 (precisionOf dtJson 38) (scaleOf dtJson))
    | "decimal256" => some (.decimal256 (precisionOf dtJson 76) (scaleOf dtJson))
    | "fixedsizebinary" => some (.fixedSizeBinary (sizeIn dtJson 16))
    | "list" => (fieldIn dtJson "item").map .list
    | "largelist" => (fieldIn dtJson "item").map .largeList
    | "fixedsizelist" => (fieldIn dtJson "item").map fun item => .fixedSizeList item (sizeIn dtJson 1)
    | "struct" => (fieldsIn dtJson).map .struct
    | "map" =>
      (fieldIn dtJson "entries").map fun entries =>
        .map entries (((dtJson.get "sorted").bind JsonValue.asBool).getD false)
    | _ => some .utf8
termination_by (sizeOf dtJson, 2)
decreasing_by all_goals exact Prod.Lex.right _ (by decide)

def fieldIn (dtJson : JsonValue) (name : String) : Option ArrowField :=
  match h : dtJson.get name with
  | some json => jsonToField json
  | none => none
termination_by (sizeOf dtJson, 1)
decreasing_by exact Prod.Lex.left _ _ (JsonValue.sizeOf_get h)

/-- The fields of a struct; one that cannot be read is left out. -/
def fieldsIn (dtJson : JsonValue) : Option (List ArrowField) :=
  match h : dtJson.get "fields" with
  | some fieldsJson =>
    match hitems : fieldsJson.asArray with
    | some items => some (items.attach.filterMap fun json => jsonToField json.1)
    | none => none
  | none => none
termination_by (sizeOf dtJson, 1)
decreasing_by
  exact Prod.Lex.left _ _ ((JsonValue.sizeOf_asArray hitems json.2).trans (JsonValue.sizeOf_get h))

end

/-! ### The round trip -/

mutual

/-- Built from the types the encoder knows, at every depth. -/
def ArrowType.Supported : ArrowType → Prop
  | .list item | .largeList item | .fixedSizeList item _ => item.Supported
  | .map entries _ => entries.Supported
  | .struct fields => fieldsSupported fields
  | .unsupported _ => False
  | _ => True

def ArrowField.Supported : ArrowField → Prop
  | .new _ dataType _ => dataType.Supported

def fieldsSupported : List ArrowField → Prop
  | [] => True
  | field :: fields => field.Supported ∧ fieldsSupported fields

end

theorem unitOf_typeJson {tag unstated : String} {unit : TimeUnit} {parameters : List (String × JsonValue)} :
    unitOf (typeJson tag (unitJson unit :: parameters)) unstated = unit := by
  simp [unitOf, typeJson, unitJson]

theorem precisionOf_typeJson {tag : String} {precision : UInt8} {scale : Int8} {unstated : Nat} :
    precisionOf (typeJson tag (decimalJson precision scale)) unstated = precision := by
  have hlt := precision.toNat_lt
  have hprecision : (JsonValue.int precision.toNat).asU64 = some precision.toNat := JsonValue.asU64_int (by omega)
  have hget : (typeJson tag (decimalJson precision scale)).get "precision" = some (.int precision.toNat) := by
    simp [typeJson, decimalJson]
  rw [precisionOf, hget, Option.bind_some, hprecision, Option.getD_some, UInt8.ofNat_toNat]

theorem scaleOf_typeJson {tag : String} {precision : UInt8} {scale : Int8} :
    scaleOf (typeJson tag (decimalJson precision scale)) = scale := by
  have hlo := scale.le_toInt
  have hhi := scale.toInt_lt
  have hscale : (JsonValue.int scale.toInt).asI64 = some scale.toInt := JsonValue.asI64_int (by omega) (by omega)
  simp [scaleOf, typeJson, decimalJson, hscale]

theorem asI64_size (size : Int32) : (JsonValue.int size.toInt).asI64 = some size.toInt := by
  have hlo := size.le_toInt
  have hhi := size.toInt_lt
  exact JsonValue.asI64_int (by omega) (by omega)

theorem tag_typeJson {tag : String} {parameters : List (String × JsonValue)} :
    ((typeJson tag parameters).get "type").bind JsonValue.asStr = some tag := by
  simp [typeJson]

theorem fieldIn_eq {dtJson json : JsonValue} {name : String} (h : dtJson.get name = some json) :
    fieldIn dtJson name = jsonToField json := by
  rw [fieldIn]
  split
  · next held hheld => rw [Option.some.inj (hheld.symm.trans h)]
  · next hnone => cases hnone.symm.trans h

theorem fieldIn_typeJson (name : String) (h : name ≠ "type") {tag : String} {json : JsonValue}
    {parameters : List (String × JsonValue)} :
    fieldIn (typeJson tag ((name, json) :: parameters)) name = jsonToField json :=
  fieldIn_eq ((JsonValue.get_object_cons_of_ne h).trans JsonValue.get_object_cons_self)

theorem fieldsIn_eq {dtJson : JsonValue} {items : List JsonValue} (h : dtJson.get "fields" = some (.array items)) :
    fieldsIn dtJson = some (items.filterMap jsonToField) := by
  rw [fieldsIn]
  split
  · next held hheld =>
    obtain rfl := Option.some.inj (hheld.symm.trans h)
    have hmap := List.filterMap_map (f := Subtype.val) (g := jsonToField) (l := items.attach)
    rw [List.attach_map_subtype_val] at hmap
    exact congrArg some hmap.symm
  · next hnone => cases hnone.symm.trans h

mutual

theorem dataType_roundTrip : ∀ t : ArrowType, t.Supported → jsonToDataType (dataTypeToJson t) = some t
  | .boolean, _ | .int8, _ | .int16, _ | .int32, _ | .int64, _ | .uint8, _ | .uint16, _ | .uint32, _ | .uint64, _
  | .float16, _ | .float32, _ | .float64, _ | .utf8, _ | .largeUtf8, _ | .binary, _ | .largeBinary, _
  | .date32, _ | .date64, _ => by
    rw [dataTypeToJson, jsonToDataType, tag_typeJson]
    rfl
  | .time32 unit, _ | .time64 unit, _ | .duration unit, _ => by
    rw [dataTypeToJson, jsonToDataType, tag_typeJson]
    simp only [unitOf_typeJson]
  | .timestamp unit tz, _ => by
    have htz : ((typeJson "timestamp" [unitJson unit, ("tz", tzJson tz)]).get "tz").bind JsonValue.asStr = tz := by
      cases tz <;> simp [typeJson, unitJson, tzJson, JsonValue.asStr]
    rw [dataTypeToJson, jsonToDataType, tag_typeJson]
    simp only [unitOf_typeJson, htz]
  | .decimal128 precision scale, _ | .decimal256 precision scale, _ => by
    rw [dataTypeToJson, jsonToDataType, tag_typeJson]
    simp only [precisionOf_typeJson, scaleOf_typeJson]
  | .fixedSizeBinary size, _ => by
    have hsize : sizeIn (typeJson "fixedsizebinary" [("size", .int size.toInt)]) 16 = size := by
      simp [sizeIn, typeJson, asI64_size]
    rw [dataTypeToJson, jsonToDataType, tag_typeJson]
    simp only [hsize]
  | .list item, h | .largeList item, h => by
    rw [dataTypeToJson, jsonToDataType, tag_typeJson]
    simp only [fieldIn_typeJson "item" (by decide), field_roundTrip item h, Option.map_some]
  | .fixedSizeList item size, h => by
    have hsize :
      sizeIn (typeJson "fixedsizelist" [("item", fieldToJson item), ("size", .int size.toInt)]) 1 = size := by
      simp [sizeIn, typeJson, asI64_size]
    rw [dataTypeToJson, jsonToDataType, tag_typeJson]
    simp only [fieldIn_typeJson "item" (by decide), field_roundTrip item h, Option.map_some, hsize]
  | .map entries sorted, h => by
    have hsorted : ((typeJson "map" [("entries", fieldToJson entries), ("sorted", .bool sorted)]).get "sorted").bind
        JsonValue.asBool = some sorted := by
      simp [typeJson]
    rw [dataTypeToJson, jsonToDataType, tag_typeJson]
    simp only [fieldIn_typeJson "entries" (by decide), field_roundTrip entries h, Option.map_some, hsorted,
      Option.getD_some]
  | .struct fields, h => by
    have hfields : (typeJson "struct" [("fields", .array (fieldsToJson fields))]).get "fields" =
        some (.array (fieldsToJson fields)) := by
      simp [typeJson]
    rw [dataTypeToJson, jsonToDataType, tag_typeJson]
    simp only [fieldsIn_eq hfields, fields_roundTrip fields h, Option.map_some]
  | .unsupported _, h => h.elim

theorem field_roundTrip : ∀ field : ArrowField, field.Supported → jsonToField (fieldToJson field) = some field
  | .new name dataType nullable, h => by
    have hdataType : (fieldToJson (.new name dataType nullable)).get "dataType" = some (dataTypeToJson dataType) := by
      simp [fieldToJson]
    have hname : ((fieldToJson (.new name dataType nullable)).get "name").bind JsonValue.asStr = some name := by
      simp [fieldToJson]
    have hnullable : (fieldToJson (.new name dataType nullable)).get "nullable" = some (.bool nullable) := by
      simp [fieldToJson]
    rw [jsonToField, hname, hnullable]
    split
    · next hread hnull hheld =>
      obtain rfl := Option.some.inj (hheld.symm.trans hdataType)
      cases hread
      cases hnull
      rw [dataType_roundTrip dataType h]
      rfl
    · next hnone => exact (hnone name (.bool nullable) (dataTypeToJson dataType) rfl rfl hdataType).elim

theorem fields_roundTrip : ∀ fields : List ArrowField, fieldsSupported fields →
    (fieldsToJson fields).filterMap jsonToField = fields
  | [], _ => rfl
  | field :: fields, h => by
    rw [fieldsToJson, List.filterMap_cons, field_roundTrip field h.1, fields_roundTrip fields h.2]

end

theorem jsonToField_fieldToJson (field : ArrowField) (h : field.Supported) :
    jsonToField (fieldToJson field) = some field :=
  field_roundTrip field h

/-- Payments by day, in a map of nullable entries. -/
def paymentsByDay : ArrowField :=
  .new "payments" (.map (.new "entries" (.struct
    [.new "day" (.timestamp .second (some "Europe/Oslo")) false,
     .new "amounts" (.largeList (.new "item" (.decimal128 18 (-4)) true)) true]) false) true) true

theorem jsonToField_fieldToJson_payments : jsonToField (fieldToJson paymentsByDay) = some paymentsByDay :=
  jsonToField_fieldToJson paymentsByDay ⟨trivial, trivial, trivial⟩

end Reiver.Pond

/-! # Equality of types

`==` on the types of Arrow and their fields decides equality. -/

namespace Reiver.Pond

mutual

/-- `==` of types. -/
def ArrowType.same : ArrowType → ArrowType → Bool
  | .time32 u, .time32 v | .time64 u, .time64 v | .duration u, .duration v => u = v
  | .timestamp u tz, .timestamp v tz' => u = v && tz = tz'
  | .decimal128 p s, .decimal128 p' s' | .decimal256 p s, .decimal256 p' s' => p = p' && s = s'
  | .fixedSizeBinary m, .fixedSizeBinary n => m = n
  | .list item, .list item' | .largeList item, .largeList item' => item.same item'
  | .fixedSizeList item m, .fixedSizeList item' n => item.same item' && m = n
  | .map entries sorted, .map entries' sorted' => entries.same entries' && sorted = sorted'
  | .struct fields, .struct fields' => fieldsSame fields fields'
  | .unsupported display, .unsupported display' => display = display'
  | .boolean, .boolean | .int8, .int8 | .int16, .int16 | .int32, .int32 | .int64, .int64 | .uint8, .uint8
  | .uint16, .uint16 | .uint32, .uint32 | .uint64, .uint64 | .float16, .float16 | .float32, .float32
  | .float64, .float64 | .utf8, .utf8 | .largeUtf8, .largeUtf8 | .binary, .binary | .largeBinary, .largeBinary
  | .date32, .date32 | .date64, .date64 => true
  | _, _ => false

def ArrowField.same : ArrowField → ArrowField → Bool
  | .new name dataType nullable, .new name' dataType' nullable' =>
    name = name' && dataType.same dataType' && nullable = nullable'

def fieldsSame : List ArrowField → List ArrowField → Bool
  | [], [] => true
  | field :: fields, field' :: fields' => field.same field' && fieldsSame fields fields'
  | _, _ => false

end

mutual

theorem ArrowType.eq_of_same : ∀ l r : ArrowType, l.same r = true → l = r := by
  intro l r h
  unfold ArrowType.same at h
  split at h
  case h_8 | h_9 => rw [ArrowField.eq_of_same _ _ h]
  case h_10 | h_11 =>
    rw [Bool.and_eq_true, decide_eq_true_eq] at h
    rw [ArrowField.eq_of_same _ _ h.1, h.2]
  case h_12 => rw [eq_of_fieldsSame _ _ h]
  all_goals simp_all only [Bool.and_eq_true, decide_eq_true_eq, Bool.false_eq_true]

theorem ArrowField.eq_of_same : ∀ f g : ArrowField, f.same g = true → f = g
  | .new name dataType nullable, .new name' dataType' nullable', h => by
    simp only [ArrowField.same, Bool.and_eq_true, decide_eq_true_eq] at h
    rw [h.1.1, ArrowType.eq_of_same _ _ h.1.2, h.2]

theorem eq_of_fieldsSame : ∀ fs gs : List ArrowField, fieldsSame fs gs = true → fs = gs
  | [], [], _ => rfl
  | f :: fs, g :: gs, h => by
    simp only [fieldsSame, Bool.and_eq_true] at h
    rw [ArrowField.eq_of_same f g h.1, eq_of_fieldsSame fs gs h.2]

end

mutual

theorem ArrowType.same_self : ∀ t : ArrowType, t.same t = true
  | .list item | .largeList item => item.same_self
  | .fixedSizeList item size => by simp [ArrowType.same, item.same_self]
  | .map entries sorted => by simp [ArrowType.same, entries.same_self]
  | .struct fields => fieldsSame_self fields
  | .time32 u | .time64 u | .duration u | .timestamp u tz | .decimal128 p s | .decimal256 p s | .fixedSizeBinary n
  | .unsupported display => by simp [ArrowType.same]
  | .boolean | .int8 | .int16 | .int32 | .int64 | .uint8 | .uint16 | .uint32 | .uint64 | .float16 | .float32
  | .float64 | .utf8 | .largeUtf8 | .binary | .largeBinary | .date32 | .date64 => rfl

theorem ArrowField.same_self : ∀ f : ArrowField, f.same f = true
  | .new name dataType nullable => by simp [ArrowField.same, dataType.same_self]

theorem fieldsSame_self : ∀ fs : List ArrowField, fieldsSame fs fs = true
  | [] => rfl
  | f :: fs => by simp [fieldsSame, f.same_self, fieldsSame_self fs]

end

theorem ArrowType.same_iff {l r : ArrowType} : l.same r = true ↔ l = r :=
  ⟨ArrowType.eq_of_same l r, fun h => h ▸ l.same_self⟩

instance : DecidableEq ArrowType := fun _ _ => decidable_of_iff _ ArrowType.same_iff

end Reiver.Pond
