import Reiver.Lib.Binary64
import Reiver.Pond.Sync.ParquetReplay

/-! # Values of events in files

What `build_batch_from_values` stores for the values of an event, and when it denotes what they do. -/

namespace Reiver.Pond

namespace ParquetRewriter

/-! ### What values denote -/

/-- The number that the bits of a float denote, if any; an integer is rounded to a float. -/
structure FloatReading (codec : CellCodec) where
  value : Nat → Option ExtRat
  value_intAsFloat : ∀ v : Int64, value (codec.intAsFloat v) = some (toBinary64 v.toInt)

def unitNanos : TimeUnit → Int
  | .second => 1000000000
  | .millisecond => 1000000
  | .microsecond => 1000
  | .nanosecond => 1

section Denoting
variable {codec : CellCodec} (reading : FloatReading codec)

/-- A cell of a column denotes what the value of an event does; the log counts time in milliseconds. -/
def Denotes : DataType → Cell → ColumnValue → Prop
  | _, none, .null => True
  | .int64, some (.int i), .int64 v | .int32, some (.int i), .int64 v => i = v.toInt
  | .float64, some (.bits n), .int64 v => reading.value n = some (((v.toInt : ℚ) : WithTop ℚ) : ExtRat)
  | .float64, some (.bits n), .float64 bits => n = bits.toNat
  | .utf8, some (.text s), .string t => s = t
  | .boolean, some (.bits n), .bool b => n = b.toNat
  | .timestamp unit _, some (.int i), .timestamp millis => i * unitNanos unit = millis.toInt * unitNanos .millisecond
  | .timestamp _ _, some (.int i), .int64 v => i = v.toInt
  | .binary, some (.bits n), .bytes b => n = codec.bytes b
  | _, _, _ => False

def Buildable : DataType → Prop
  | .int64 | .int32 | .float64 | .utf8 | .boolean | .timestamp .. | .binary => True
  | _ => False

/-- The value of a column; one that the event does not give is null. -/
def valueOf (columns : List (String × ColumnValue)) (name : String) : ColumnValue := (lastValue columns name).getD .null

/-- What is built holds, column by column, what the events say, and every column has a type that can be built. -/
def ValuesKept (schema : Schema) (rows : List (List (String × ColumnValue))) : Prop :=
  ∀ b, buildBatchFromValues codec schema (rows.map toValues) = .ok b →
    (∀ field ∈ schema, Buildable field.dataType) ∧
      ∀ e ∈ rows.zip b.rows, ∀ f ∈ schema.zip e.2, Denotes reading f.1.dataType f.2 (valueOf e.1 f.1.name)

end Denoting

/-! ### What is stored -/

def Taken : DataType → ColumnValue → Prop
  | .int64, .int64 _ => True
  | .int32, .int64 v => Int32.minValue.toInt ≤ v.toInt ∧ v.toInt ≤ Int32.maxValue.toInt
  | .float64, .float64 _ | .float64, .int64 _ => True
  | .utf8, .string _ => True
  | .boolean, .bool _ => True
  | .timestamp .., .timestamp _ | .timestamp .., .int64 _ => True
  | .binary, .bytes _ => True
  | _, _ => False

/-- The value keeps its meaning: an integer that is a float, and a time in milliseconds or the epoch itself. -/
def Exact : DataType → ColumnValue → Prop
  | .float64, .int64 v => toBinary64 v.toInt = (((v.toInt : ℚ) : WithTop ℚ) : ExtRat)
  | .timestamp unit _, .timestamp millis => unit = .millisecond ∨ millis.toInt = 0
  | _, _ => True

/-- There is an error for the value: the column has a time zone, or it needs a value that is not taken. -/
def Refused (field : Field) (value : ColumnValue) : Prop :=
  arrayType field.dataType ≠ field.dataType ∨ field.nullable = false ∧ ¬Taken field.dataType value

/-- The value is null, or it is taken and keeps its meaning. -/
def Kept (field : Field) (value : ColumnValue) : Prop :=
  value = .null ∨ Taken field.dataType value ∧ Exact field.dataType value

section Appending
variable {codec : CellCodec} (reading : FloatReading codec)

theorem appendInt32_ok {field : Field} {v : Int64}
    (h : Int32.minValue.toInt ≤ v.toInt ∧ v.toInt ≤ Int32.maxValue.toInt) :
    appendInt32 field v = .ok (some (.int v.toInt)) := if_pos h

theorem appendInt32_lost {field : Field} {v : Int64} {cell : Cell}
    (h : ¬(Int32.minValue.toInt ≤ v.toInt ∧ v.toInt ≤ Int32.maxValue.toInt)) :
    appendInt32 field v = .ok cell ↔ field.nullable = true ∧ cell = none := by
  rw [appendInt32, if_neg h]
  split
  · next hnullable => simp [hnullable, eq_comm]
  · next hnullable => simp [hnullable]

theorem nanos_eq_iff {unit : TimeUnit} {millis : Int} :
    millis * unitNanos unit = millis * unitNanos .millisecond ↔ unit = .millisecond ∨ millis = 0 := by
  constructor
  · intro h
    rcases mul_eq_mul_left_iff.mp h with hunit | hzero
    · cases unit <;> first | exact Or.inl rfl | exact absurd hunit (by decide)
    · exact Or.inr hzero
  · rintro (rfl | rfl)
    · rfl
    · simp

theorem appendValue_taken {field : Field} {v : ColumnValue} (h : Taken field.dataType v) :
    ∃ c, appendValue codec field (some (fromWal v)) = .ok (some c) ∧
      (Denotes reading field.dataType (some c) v ↔ Exact field.dataType v) := by
  obtain ⟨name, dt, nullable⟩ := field
  cases dt with
  | int64 =>
    cases v with
    | int64 v => exact ⟨_, rfl, by simp [Denotes, Exact]⟩
    | _ => exact h.elim
  | int32 =>
    cases v with
    | int64 v => exact ⟨_, appendInt32_ok h, by simp [Denotes, Exact]⟩
    | _ => exact h.elim
  | float64 =>
    cases v with
    | float64 bits => exact ⟨_, rfl, by simp [Denotes, Exact]⟩
    | int64 v =>
      refine ⟨_, rfl, ?_⟩
      rw [Denotes, Exact, reading.value_intAsFloat, Option.some.injEq]
    | _ => exact h.elim
  | utf8 =>
    cases v with
    | string s => exact ⟨_, rfl, by simp [Denotes, Exact]⟩
    | _ => exact h.elim
  | boolean =>
    cases v with
    | bool b => exact ⟨_, rfl, by simp [Denotes, Exact]⟩
    | _ => exact h.elim
  | timestamp unit tz =>
    cases v with
    | timestamp millis => exact ⟨_, rfl, nanos_eq_iff⟩
    | int64 v => exact ⟨_, rfl, by simp [Denotes, Exact]⟩
    | _ => exact h.elim
  | binary =>
    cases v with
    | bytes b => exact ⟨_, rfl, by simp [Denotes, Exact]⟩
    | _ => exact h.elim
  | _ => exact h.elim

theorem appendValue_not_taken {field : Field} {value : Option ColumnValue}
    (h : ¬Taken field.dataType (value.getD .null)) :
    (∀ cell, appendValue codec field (value.map fromWal) = .ok cell → cell = none) ∧
      (field.nullable = true → appendValue codec field (value.map fromWal) = .ok none) := by
  obtain ⟨name, dt, nullable⟩ := field
  have hnone : appendValue codec ⟨name, dt, nullable⟩ (value.map fromWal) = .ok none →
      (∀ cell, appendValue codec ⟨name, dt, nullable⟩ (value.map fromWal) = .ok cell → cell = none) ∧
        (nullable = true → appendValue codec ⟨name, dt, nullable⟩ (value.map fromWal) = .ok none) := by
    intro heq
    refine ⟨fun cell hcell => ?_, fun _ => heq⟩
    exact (Except.ok.inj (heq.symm.trans hcell)).symm
  cases value with
  | none => exact hnone (by cases dt <;> rfl)
  | some v =>
    cases dt with
    | int32 =>
      cases v with
      | int64 v =>
        exact ⟨fun cell hcell => ((appendInt32_lost h).mp hcell).2,
          fun hnullable => (appendInt32_lost h).mpr ⟨hnullable, rfl⟩⟩
      | _ => exact hnone rfl
    | int64 | float64 | utf8 | boolean | timestamp | binary =>
      cases v <;> first | exact hnone rfl | exact absurd trivial h
    | _ => exact hnone rfl

theorem not_taken_null (dt : DataType) : ¬Taken dt .null := by
  cases dt <;> exact id

theorem denotes_none_iff {dt : DataType} {v : ColumnValue} : Denotes reading dt none v ↔ v = .null := by
  cases v <;> cases dt <;> simp [Denotes]

end Appending

/-! ### Batches -/

section Batches
variable {codec : CellCodec} (reading : FloatReading codec) {schema : Schema}
  {rows : List (List (String × ColumnValue))}

theorem storable_iff (floats : FloatReading codec) {columns : List (String × ColumnValue)} :
    Storable codec schema columns ↔ ∀ field ∈ schema, ¬Refused field (valueOf columns field.name) := by
  refine forall_congr' fun field => forall_congr' fun _ => ?_
  rw [lookup_toValues, Refused, not_or, not_not, not_and, not_not]
  refine and_congr_right fun _ => ?_
  by_cases htaken : Taken field.dataType (valueOf columns field.name)
  · refine iff_of_true ?_ fun _ => htaken
    cases hvalue : lastValue columns field.name with
    | none =>
      rw [valueOf, hvalue] at htaken
      exact absurd htaken (not_taken_null _)
    | some v =>
      rw [valueOf, hvalue] at htaken
      obtain ⟨c, hc, -⟩ := appendValue_taken floats htaken
      exact ⟨some c, hc, fun h => by cases h⟩
  · obtain ⟨hnone, hnullable⟩ := appendValue_not_taken htaken
    constructor
    · rintro ⟨cell, hcell, hroom⟩ hrequired
      rw [hroom (hnone cell hcell)] at hrequired
      cases hrequired
    · intro h
      have hroom : field.nullable = true := by
        by_contra hrequired
        exact htaken (h (Bool.eq_false_iff.mpr hrequired))
      exact ⟨none, hnullable hroom, fun _ => hroom⟩

theorem denotes_built_iff {columns : List (String × ColumnValue)} {field : Field} :
    Denotes reading field.dataType (builtCell codec field ((toValues columns).lookup field.name))
      (valueOf columns field.name) ↔ Kept field (valueOf columns field.name) := by
  rw [lookup_toValues]
  by_cases htaken : Taken field.dataType (valueOf columns field.name)
  · cases hvalue : lastValue columns field.name with
    | none =>
      rw [valueOf, hvalue] at htaken
      exact absurd htaken (not_taken_null _)
    | some v =>
      rw [valueOf, hvalue, Option.getD_some] at htaken ⊢
      obtain ⟨c, hc, hdenotes⟩ := appendValue_taken reading htaken
      have hne : v ≠ .null := by
        rintro rfl
        exact not_taken_null _ htaken
      rw [Option.map_some, builtCell_ok hc, hdenotes, Kept, or_iff_right hne, and_iff_right htaken]
  · obtain ⟨hnone, -⟩ := appendValue_not_taken htaken
    have hcell : builtCell codec field ((lastValue columns field.name).map fromWal) = none := by
      unfold builtCell
      split
      · next cell hok => exact hnone cell hok
      · rfl
    rw [hcell, denotes_none_iff, Kept, or_iff_left fun h => htaken h.1]

theorem build_no_columns {values : List RowValues} {b : RecordBatch} :
    buildBatchFromValues codec [] values ≠ .ok b := by
  intro h
  unfold buildBatchFromValues at h
  split at h
  · cases h
  · cases h

theorem build_no_rows {b : RecordBatch} : buildBatchFromValues codec schema [] ≠ .ok b := by
  intro h
  cases h

/-- Building fails, or the batch holds what the events say: exactly when there is nothing to build, a value is refused,
or every column has a type that can be built and every value is kept. -/
theorem valuesKept_iff (schema : Schema) (rows : List (List (String × ColumnValue))) :
    ValuesKept reading schema rows ↔
      (schema = [] ∨ rows = [] ∨ ∃ columns ∈ rows, ∃ field ∈ schema, Refused field (valueOf columns field.name)) ∨
        ∀ field ∈ schema, Buildable field.dataType ∧ ∀ columns ∈ rows, Kept field (valueOf columns field.name) := by
  by_cases hschema : schema = []
  · subst hschema
    exact iff_of_true (fun b hb => absurd hb build_no_columns) (Or.inl (Or.inl rfl))
  by_cases hrows : rows = []
  · subst hrows
    exact iff_of_true (fun b hb => absurd hb build_no_rows) (Or.inl (Or.inr (Or.inl rfl)))
  by_cases hrefused : ∃ columns ∈ rows, ∃ field ∈ schema, Refused field (valueOf columns field.name)
  · refine iff_of_true (fun b hb => ?_) (Or.inl (Or.inr (Or.inr hrefused)))
    obtain ⟨columns, hcolumns, field, hfield, href⟩ := hrefused
    have hstorable := ((buildBatchFromValues_ok_iff hschema hrows).mp hb).1 columns hcolumns
    exact absurd href ((storable_iff reading).mp hstorable field hfield)
  · have hstorable : ∀ columns ∈ rows, Storable codec schema columns := fun columns hcolumns =>
      (storable_iff reading).mpr fun field hfield href => hrefused ⟨columns, hcolumns, field, hfield, href⟩
    have hcells : ∀ {b : RecordBatch}, b.rows = rows.map (builtRow codec schema) →
        ((∀ e ∈ rows.zip b.rows, ∀ f ∈ schema.zip e.2, Denotes reading f.1.dataType f.2 (valueOf e.1 f.1.name)) ↔
          ∀ columns ∈ rows, ∀ field ∈ schema, Kept field (valueOf columns field.name)) := by
      intro b hb
      rw [hb, ← List.map_prod_left_eq_zip, List.forall_mem_map]
      refine forall_congr' fun columns => forall_congr' fun _ => ?_
      change (∀ f ∈ schema.zip (schema.map _), _) ↔ _
      rw [← List.map_prod_left_eq_zip, List.forall_mem_map]
      exact forall_congr' fun field => forall_congr' fun _ => denotes_built_iff reading
    -- the batch that is built
    have hbuilt :
      buildBatchFromValues codec schema (rows.map toValues) = .ok ⟨schema, rows.map (builtRow codec schema), by
        intro row hrow
        obtain ⟨columns, -, rfl⟩ := List.mem_map.mp hrow
        rw [builtRow, List.length_map]⟩ :=
      (buildBatchFromValues_ok_iff hschema hrows).mpr ⟨hstorable, rfl, rfl⟩
    have hno : ¬(schema = [] ∨ rows = [] ∨ ∃ columns ∈ rows, ∃ field ∈ schema,
        Refused field (valueOf columns field.name)) := by
      rintro (h | h | h)
      · exact hschema h
      · exact hrows h
      · exact hrefused h
    rw [or_iff_right hno]
    constructor
    · intro hkept field hfield
      obtain ⟨hbuildable, hdenotes⟩ := hkept _ hbuilt
      exact ⟨hbuildable field hfield, fun columns hcolumns => (hcells rfl).mp hdenotes columns hcolumns field hfield⟩
    · intro h b hb
      have hb' := ((buildBatchFromValues_ok_iff hschema hrows).mp hb).2.2
      exact ⟨fun field hfield => (h field hfield).1,
        (hcells hb').mpr fun columns hcolumns field hfield => (h field hfield).2 columns hcolumns⟩

end Batches

/-- Integers are read as the floats next to them. -/
def bitsCodec : CellCodec where
  intAsFloat v := v.toUInt64.toNat
  widen bits := bits.toNat
  bytes b := b.length

def bitsReading : FloatReading bitsCodec where
  value n := some (toBinary64 ((Int64.ofNat n).toInt : ℤ))
  value_intAsFloat v := by
    have hv : Int64.ofNat v.toUInt64.toNat = v := congrArg Int64.ofUInt64 (UInt64.ofNat_toNat (x := v.toUInt64))
    change some (toBinary64 ((Int64.ofNat v.toUInt64.toNat).toInt : ℤ)) = _
    rw [hv]

/-- A time goes into microseconds as if it were counted in them, and a number into a column of dates as a null. -/
theorem not_valuesKept :
    ¬ValuesKept bitsReading [⟨"at", .timestamp .microsecond none, true⟩] [[("at", .timestamp 1000)]] ∧
      ¬ValuesKept bitsReading [⟨"day", .date32, true⟩] [[("day", .int64 20000)]] := by
  constructor
  · intro h
    obtain ⟨-, hcells⟩ := h ⟨[⟨"at", .timestamp .microsecond none, true⟩], [[some (.int 1000)]], by simp⟩ rfl
    have hcell : (1000 : Int) * 1000 = 1000 * 1000000 :=
      hcells _ (List.mem_singleton_self _) _ (List.mem_singleton_self _)
    exact absurd hcell (by decide)
  · intro h
    exact (h ⟨[⟨"day", .date32, true⟩], [[none]], by simp⟩ rfl).1 _ (List.mem_singleton_self _)

end ParquetRewriter

end Reiver.Pond
