import Reiver.Pond.Sync.IncrementalScan

/-! # The last value is the greatest value of the key

When the last value that a sync records is exactly the greatest value of the incremental key, over all rows of all
batches. The order of values that the model keeps as bits (and that are no doubles) is given. -/

namespace Reiver.Pond

/-- A value of a type that has a place in its order; of the doubles those that are a number. -/
def comparable : DataType → Value → Bool
  | .int64, .int _ | .timestamp _ _, .int _ | .utf8, .text _ => true
  | .float64, .bits n => (valueOfBits n).isSome
  | .int64, _ | .timestamp _ _, _ | .utf8, _ | .float64, _ => false
  | _, _ => true

/-- The cell of a row in the column of a name. -/
def keyCell (key : String) (schema : Schema) (row : BatchRow) : Cell :=
  (schema.indexOf key).bind fun i => (row[i]?).join

/-- The values of a key at all rows of all batches. -/
def keyValues (key : String) (dataType : DataType) (batches : List RecordBatch) : List Value :=
  (rowsBy (keyCell key) batches).filterMap fun cell => cell.filter (comparable dataType)

def keyType (key : String) (b : RecordBatch) : Option DataType :=
  (b.schema.indexOf key).bind fun i => (b.schema[i]?).map (·.dataType)

section Order
variable (bitsLe : DataType → Nat → Nat → Prop)

def valueLe (dataType : DataType) : Value → Value → Prop
  | .int a, .int b => a ≤ b
  | .text a, .text b => a ≤ b
  | .bits a, .bits b =>
    if dataType = .float64 then ∃ x ∈ valueOfBits a, ∃ y ∈ valueOfBits b, x ≤ y else bitsLe dataType a b
  | _, _ => False

def IsMaximum (dataType : DataType) (values : List Value) (g : Value) : Prop :=
  g ∈ values ∧ ∀ v ∈ values, valueLe bitsLe dataType v g

/-- A last value says exactly what a value of the key is. -/
def StandsFor : DataType → Value → KeyValue → Prop
  | .timestamp unit _, .int v, .micros us => us * unit.perSecond = v * 1000000
  | .int64, .int v, .int w => w = v
  | .float64, .bits n, .float m => valueOfBits m = valueOfBits n
  | .utf8, .text s, .text t => t = s
  | dataType, v, .formatted dataType' v' => isOrdered dataType = false ∧ dataType' = dataType ∧ v' = v
  | _, _, _ => False

/-- The last value is the greatest value of the key, or there is none. -/
def ReturnsMaximum (key : String) (dataType : DataType) (batches : List RecordBatch) : Prop :=
  ∃ last, lastKeyValue batches key = some last ∧ last.elim (keyValues key dataType batches = []) fun value =>
    ∃ g, IsMaximum bitsLe dataType (keyValues key dataType batches) g ∧ StandsFor dataType g value

/-- Every batch with rows has the key where the first batch has it. -/
def SamePlace (key : String) (idx : Nat) (batches : List RecordBatch) : Prop :=
  ∀ b ∈ batches, b.rows ≠ [] → b.schema.indexOf key = some idx

/-- A value that is a number of microseconds in 64 bits, or a finite float. -/
def ReadExactly : DataType → Value → Prop
  | .timestamp .second _, .int v => i64Min ≤ v * 1000000 ∧ v * 1000000 ≤ i64Max
  | .timestamp .millisecond _, .int v => i64Min ≤ v * 1000 ∧ v * 1000 ≤ i64Max
  | .timestamp .nanosecond _, .int v => v % 1000 = 0
  | .float64, .bits n => (finiteOfBits n).isSome
  | _, _ => True

/-- The greatest value is one that is read exactly. Of a type whose maximum is not taken, the last row has it. -/
def MaximumKept (key : String) (dataType : DataType) (idx : Nat) (batches : List RecordBatch) : Prop :=
  if isOrdered dataType then
    ∀ g, IsMaximum bitsLe dataType (keyValues key dataType batches) g → ReadExactly dataType g
  else
    keyValues key dataType batches ≠ [] → ∃ g, IsMaximum bitsLe dataType (keyValues key dataType batches) g ∧
      lastKeyCell idx batches = some (.formatted dataType g)

/-- A value is what the columns at a place give: the greatest that is read there, or the last cell where nothing is. -/
def ReadAt (idx : Nat) (batches : List RecordBatch) (value : KeyValue) : Prop :=
  (value ∈ reads idx batches ∧ ∀ w ∈ reads idx batches, w.Le value) ∨
    reads idx batches = [] ∧ batches.any (foundIn idx) = false ∧ lastKeyCell idx batches = some value

/-- The columns at a place, whichever they are, happen to give the greatest value of the key. -/
def Coincides (key : String) (dataType : DataType) (idx : Nat) (batches : List RecordBatch) : Prop :=
  Readable idx batches ∧
    ((keyValues key dataType batches = [] ∧ reads idx batches = [] ∧
        (batches.any (foundIn idx) = true ∨ lastKeyCell idx batches = none)) ∨
      ∃ g value, IsMaximum bitsLe dataType (keyValues key dataType batches) g ∧ StandsFor dataType g value ∧
        ReadAt idx batches value)

end Order

/-! ### Reading at a place -/

section Reading
variable {bitsLe : DataType → Nat → Nat → Prop} {key : String} {dataType : DataType} {idx : Nat}
  {batches : List RecordBatch} {v w : KeyValue}

theorem finite_of_cellFinite {cell : Cell} {n : Nat} (h : cellFinite cell = some n) : ∃ x, finiteOfBits n = some x := by
  rw [cellFinite.eq_def] at h
  split at h
  · split at h
    · next hfinite => exact Option.some_inj.mp h ▸ Option.isSome_iff_exists.mp hfinite
    · cases h
  · cases h

theorem floats_finite {n : Nat} (h : .float n ∈ reads idx batches) : ∃ x, finiteOfBits n = some x := by
  obtain ⟨b, -, field, -, cell, -, hcell⟩ := mem_reads.mp h
  obtain ⟨-, a, -, h⟩ | ⟨unit, tz, -, a, -, h⟩ | ⟨-, n', hn, h⟩ | ⟨-, s, -, h⟩ := readCell_cases hcell
  · cases h
  · cases h
  · exact KeyValue.float.inj h ▸ finite_of_cellFinite hn
  · cases h

theorem same_of_le (hv : v ∈ reads idx batches) (hw : w ∈ reads idx batches) (hvw : v.Le w) (hwv : w.Le v) :
    v = w ∨ ∃ n m, v = .float n ∧ w = .float m ∧ valueOfBits n = valueOfBits m := by
  cases v with
  | micros a =>
    cases w with
    | micros b => exact .inl (congrArg _ (Int.le_antisymm hvw hwv))
    | _ => exact absurd hvw (Nat.not_lt_zero _)
  | int a =>
    cases w with
    | int b => exact .inl (congrArg _ (Int.le_antisymm hvw hwv))
    | _ => exact absurd (Nat.lt_trans hvw hwv) (Nat.lt_irrefl _)
  | float n =>
    cases w with
    | float m =>
      obtain ⟨x, hx⟩ := floats_finite hv
      obtain ⟨y, hy⟩ := floats_finite hw
      have heq : floatKey n = floatKey m := le_antisymm hvw hwv
      rw [floatKey, floatKey, hx, hy, Option.getD_some, Option.getD_some] at heq
      exact .inr ⟨n, m, rfl, rfl, by rw [valueOfBits_of_finite hx, valueOfBits_of_finite hy, heq]⟩
    | _ => exact absurd (Nat.lt_trans hvw hwv) (Nat.lt_irrefl _)
  | text s =>
    cases w with
    | text t => exact .inl (congrArg _ (le_antisymm hvw hwv))
    | _ => exact absurd (Nat.lt_trans hvw hwv) (Nat.lt_irrefl _)
  | formatted ty a => exact absurd (reads_kind hv) (by decide : ¬ 4 < 4)

theorem StandsFor.congr {g : Value} (hv : v ∈ reads idx batches) (hw : w ∈ reads idx batches) (hvw : v.Le w)
    (hwv : w.Le v) (h : StandsFor dataType g v) : StandsFor dataType g w := by
  rcases same_of_le hv hw hvw hwv with rfl | ⟨n, m, rfl, rfl, heq⟩
  · exact h
  · cases dataType with
    | float64 =>
      cases g with
      | bits k => exact heq.symm.trans h
      | _ => exact h
    | _ => cases g <;> exact h

theorem returnsMaximum_iff_coincides {first : RecordBatch} {rest : List RecordBatch}
    (hidx : first.schema.indexOf key = some idx) :
    ReturnsMaximum bitsLe key dataType (first :: rest) ↔ Coincides bitsLe key dataType idx (first :: rest) := by
  have hlast : lastKeyValue (first :: rest) key =
      (scanBatches idx (first :: rest)).map (·.lastValue (lastKeyCell idx (first :: rest))) := by
    rw [lastKeyValue, hidx]
  rw [ReturnsMaximum, hlast, Coincides]
  rcases @scanBatches_spec idx (first :: rest) with ⟨hnot, hnone⟩ | ⟨hread, m, hm, hcovers⟩
  · rw [hnone]
    refine iff_of_false ?_ fun h => hnot h.1
    rintro ⟨last, hlast, -⟩
    cases hlast
  · rw [hm, Option.map_some]
    rcases hcovers.lastValue (fun v hv => reads_kind hv) (lastKeyCell idx (first :: rest)) with
      ⟨hnil, hvalue⟩ | ⟨v, hvalue, hv, hle⟩
    · rw [hvalue, hnil]
      cases hfound : (first :: rest).any (foundIn idx) with
      | true =>
        rw [if_pos rfl]
        constructor
        · rintro ⟨last, hlast, hkeys⟩
          rw [← Option.some_inj.mp hlast] at hkeys
          exact ⟨hread, .inl ⟨hkeys, rfl, .inl rfl⟩⟩
        · rintro ⟨-, ⟨hkeys, -⟩ | ⟨g, value, -, -, ⟨hin, -⟩ | ⟨-, hno, -⟩⟩⟩
          · exact ⟨none, rfl, hkeys⟩
          · exact absurd (hnil ▸ hin) List.not_mem_nil
          · exact absurd (hfound ▸ hno) (by decide)
      | false =>
        rw [if_neg Bool.false_ne_true]
        constructor
        · rintro ⟨last, hlast, hkeys⟩
          rw [← Option.some_inj.mp hlast] at hkeys
          refine ⟨hread, ?_⟩
          cases hcell : lastKeyCell idx (first :: rest) with
          | none =>
            rw [hcell] at hkeys
            exact .inl ⟨hkeys, rfl, .inr rfl⟩
          | some value =>
            rw [hcell] at hkeys
            obtain ⟨g, hg, hvalue⟩ := hkeys
            exact .inr ⟨g, value, hg, hvalue, .inr ⟨hnil, hfound, hcell⟩⟩
        · rintro ⟨-, ⟨hkeys, -, hcell⟩ | ⟨g, value, hg, hvalue, ⟨hin, -⟩ | ⟨-, -, hcell⟩⟩⟩
          · rw [hcell.resolve_left Bool.false_ne_true]
            exact ⟨none, rfl, hkeys⟩
          · exact absurd (hnil ▸ hin) List.not_mem_nil
          · rw [hcell]
            exact ⟨_, rfl, g, hg, hvalue⟩
    · rw [hvalue]
      constructor
      · rintro ⟨last, hlast, hkeys⟩
        rw [← Option.some_inj.mp hlast] at hkeys
        obtain ⟨g, hg, hvalue⟩ := hkeys
        exact ⟨hread, .inr ⟨g, v, hg, hvalue, .inl ⟨hv, hle⟩⟩⟩
      · rintro ⟨-, ⟨-, hnil, -⟩ | ⟨g, value, hg, hvalue, ⟨hin, hgreatest⟩ | ⟨hnil, -⟩⟩⟩
        · exact absurd (hnil ▸ hv) List.not_mem_nil
        · exact ⟨_, rfl, g, hg, hvalue.congr hin hv (hle _ hin) (hgreatest _ hv)⟩
        · exact absurd (hnil ▸ hv) List.not_mem_nil

end Reading

/-! ### Reading the key in its place -/

section Place
variable {bitsLe : DataType → Nat → Nat → Prop} {key : String} {dataType : DataType} {idx : Nat}
  {batches : List RecordBatch} {g v v' : Value} {value w : KeyValue}

theorem SamePlace.field (hplace : SamePlace key idx batches) (htype : ∀ b ∈ batches, keyType key b = some dataType)
    {b : RecordBatch} (hb : b ∈ batches) (hrows : b.rows ≠ []) :
    ∃ field, b.schema[idx]? = some field ∧ field.dataType = dataType := by
  have hty := htype b hb
  rw [keyType, hplace b hb hrows, Option.bind_some] at hty
  exact Option.map_eq_some_iff.mp hty

theorem SamePlace.readable (hplace : SamePlace key idx batches) : Readable idx batches := by
  intro b hb hrows
  obtain ⟨field, hfield, -⟩ := indexOf_lt (hplace b hb hrows)
  exact (List.getElem?_eq_some_iff.mp hfield).1

theorem mem_keyValues : v ∈ keyValues key dataType batches ↔
    (∃ b ∈ batches, ∃ row ∈ b.rows, keyCell key b.schema row = some v) ∧ comparable dataType v = true := by
  rw [keyValues, List.mem_filterMap]
  constructor
  · rintro ⟨cell, hcell, hv⟩
    obtain ⟨rfl, hcomparable⟩ := Option.filter_eq_some_iff.mp hv
    exact ⟨mem_rowsBy.mp hcell, hcomparable⟩
  · rintro ⟨hcell, hcomparable⟩
    exact ⟨some v, mem_rowsBy.mpr hcell, Option.filter_eq_some_iff.mpr ⟨rfl, hcomparable⟩⟩

theorem keyCell_eq {schema : Schema} {row : BatchRow} (h : schema.indexOf key = some idx) :
    keyCell key schema row = (row[idx]?).join := by
  rw [keyCell, h, Option.bind_some]

/-- What is read are the comparable values of the key, in the form that the loop takes them. -/
theorem SamePlace.mem_reads (hplace : SamePlace key idx batches)
    (htype : ∀ b ∈ batches, keyType key b = some dataType) : value ∈ reads idx batches ↔
      ∃ v ∈ keyValues key dataType batches, readCell dataType (some v) = some value := by
  have hcomparable : ∀ {cell}, readCell dataType cell = some value →
      ∃ v, cell = some v ∧ comparable dataType v = true := by
    intro cell h
    obtain ⟨rfl, a, ha, -⟩ | ⟨unit, tz, rfl, a, ha, -⟩ | ⟨rfl, n, hn, -⟩ | ⟨rfl, s, hs, -⟩ := readCell_cases h
    · rcases cell with _ | (b | t | n) <;> cases ha
      exact ⟨_, rfl, rfl⟩
    · rcases cell with _ | (b | t | n) <;> cases ha
      exact ⟨_, rfl, rfl⟩
    · obtain ⟨x, hx⟩ := finite_of_cellFinite hn
      rcases cell with _ | (b | t | m)
      · cases hn
      · cases hn
      · cases hn
      · rw [cellFinite] at hn
        split at hn
        · cases hn
          refine ⟨_, rfl, ?_⟩
          rw [comparable, valueOfBits_of_finite hx]
          rfl
        · cases hn
    · rcases cell with _ | (b | t | n) <;> cases hs
      exact ⟨_, rfl, rfl⟩
  rw [Pond.mem_reads]
  constructor
  · rintro ⟨b, hb, field, hfield, cell, hcell, hread⟩
    obtain ⟨row, hrow, rfl⟩ := List.mem_map.mp hcell
    have hrows : b.rows ≠ [] := List.ne_nil_of_mem hrow
    obtain ⟨field', hfield', rfl⟩ := hplace.field htype hb hrows
    rw [hfield, Option.some_inj] at hfield'
    subst hfield'
    obtain ⟨v, hv, hcomp⟩ := hcomparable hread
    refine ⟨v, mem_keyValues.mpr ⟨⟨b, hb, row, hrow, ?_⟩, hcomp⟩, hv ▸ hread⟩
    rw [keyCell_eq (hplace b hb hrows), hv]
  · rintro ⟨v, hv, hread⟩
    obtain ⟨⟨b, hb, row, hrow, hcell⟩, -⟩ := mem_keyValues.mp hv
    have hrows : b.rows ≠ [] := List.ne_nil_of_mem hrow
    obtain ⟨field, hfield, rfl⟩ := hplace.field htype hb hrows
    rw [keyCell_eq (hplace b hb hrows)] at hcell
    exact ⟨b, hb, field, hfield, _, List.mem_map_of_mem hrow, hcell ▸ hread⟩

theorem foundIn_eq (hplace : SamePlace key idx batches) (htype : ∀ b ∈ batches, keyType key b = some dataType)
    {b : RecordBatch} (hb : b ∈ batches) (hrows : b.rows ≠ []) : foundIn idx b = isOrdered dataType := by
  obtain ⟨field, hfield, rfl⟩ := hplace.field htype hb hrows
  rw [foundIn, hfield]
  simp [hrows]

theorem lastKeyCell_mem (hplace : SamePlace key idx batches) (htype : ∀ b ∈ batches, keyType key b = some dataType)
    (h : lastKeyCell idx batches = some value) : ∃ b ∈ batches, b.rows ≠ [] ∧ ∃ v, value = .formatted dataType v ∧
      ∃ row ∈ b.rows, keyCell key b.schema row = some v := by
  rw [lastKeyCell] at h
  obtain ⟨b, hb, h⟩ := Option.bind_eq_some_iff.mp h
  obtain ⟨row, hrow, h⟩ := Option.bind_eq_some_iff.mp h
  obtain ⟨field, hfield, h⟩ := Option.bind_eq_some_iff.mp h
  obtain ⟨v, hv, h⟩ := Option.bind_eq_some_iff.mp h
  have hbmem := List.mem_of_getLast? hb
  have hrowmem := List.mem_of_getLast? hrow
  have hrows : b.rows ≠ [] := List.ne_nil_of_mem hrowmem
  obtain ⟨field', hfield', rfl⟩ := hplace.field htype hbmem hrows
  rw [hfield, Option.some_inj] at hfield'
  subst hfield'
  refine ⟨b, hbmem, hrows, v, (Option.some_inj.mp h).symm, row, hrowmem, ?_⟩
  rw [keyCell_eq (hplace b hbmem hrows), hv]

theorem comparable_cases (hordered : isOrdered dataType = true) (hv : comparable dataType v = true) :
    (dataType = .int64 ∧ ∃ a, v = .int a) ∨ (∃ unit tz, dataType = .timestamp unit tz ∧ ∃ a, v = .int a) ∨
    (dataType = .float64 ∧ ∃ n x, v = .bits n ∧ valueOfBits n = some x) ∨ dataType = .utf8 ∧ ∃ s, v = .text s := by
  cases dataType with
  | int64 => cases v with
    | int a => exact .inl ⟨rfl, a, rfl⟩
    | _ => cases hv
  | timestamp unit tz => cases v with
    | int a => exact .inr (.inl ⟨unit, tz, rfl, a, rfl⟩)
    | _ => cases hv
  | float64 => cases v with
    | bits n =>
      obtain ⟨x, hx⟩ := Option.isSome_iff_exists.mp hv
      exact .inr (.inr (.inl ⟨rfl, n, x, rfl, hx⟩))
    | _ => cases hv
  | utf8 => cases v with
    | text s => exact .inr (.inr (.inr ⟨rfl, s, rfl⟩))
    | _ => cases hv
  | _ => cases hordered

theorem ReadExactly.standsFor (hordered : isOrdered dataType = true) (hv : comparable dataType v = true)
    (h : ReadExactly dataType v) : ∃ value, readCell dataType (some v) = some value ∧ StandsFor dataType v value := by
  obtain ⟨rfl, a, rfl⟩ | ⟨unit, tz, rfl, a, rfl⟩ | ⟨rfl, n, x, rfl, -⟩ | ⟨rfl, s, rfl⟩ :=
    comparable_cases hordered hv
  · exact ⟨.int a, rfl, rfl⟩
  · refine ⟨.micros (toMicros unit a), rfl, ?_⟩
    show toMicros unit a * unit.perSecond = a * 1000000
    cases unit with
    | second =>
      obtain ⟨hlow, hhigh⟩ := h
      rw [toMicros, saturate, TimeUnit.perSecond]
      omega
    | millisecond =>
      obtain ⟨hlow, hhigh⟩ := h
      rw [toMicros, saturate, TimeUnit.perSecond]
      omega
    | microsecond => rfl
    | nanosecond =>
      have hwhole : a % 1000 = 0 := h
      rw [toMicros, if_neg (not_not.mpr hwhole), TimeUnit.perSecond]
      omega
  · refine ⟨.float n, ?_, rfl⟩
    have hfinite : cellFinite (some (.bits n)) = some n := if_pos h
    exact congrArg (Option.map KeyValue.float) hfinite
  · exact ⟨.text s, rfl, rfl⟩

theorem readCell_mono (hle : valueLe bitsLe dataType v g) (hv : readCell dataType (some v) = some w)
    (hg : readCell dataType (some g) = some value) : w.Le value := by
  obtain ⟨rfl, a, ha, rfl⟩ | ⟨unit, tz, rfl, a, ha, rfl⟩ | ⟨rfl, n, hn, rfl⟩ | ⟨rfl, s, hs, rfl⟩ := readCell_cases hv
  · obtain ⟨b, hb, rfl⟩ := Option.map_eq_some_iff.mp hg
    cases v with
    | int a' => cases g with
      | int b' =>
        cases ha
        cases hb
        exact hle
      | _ => cases hb
    | _ => cases ha
  · obtain ⟨us, hus, rfl⟩ := Option.map_eq_some_iff.mp hg
    obtain ⟨b, hb, rfl⟩ := Option.map_eq_some_iff.mp hus
    cases v with
    | int a' => cases g with
      | int b' =>
        cases ha
        cases hb
        exact toMicros_mono unit hle
      | _ => cases hb
    | _ => cases ha
  · obtain ⟨m, hm, rfl⟩ := Option.map_eq_some_iff.mp hg
    obtain ⟨x, hx⟩ := finite_of_cellFinite hn
    obtain ⟨y, hy⟩ := finite_of_cellFinite hm
    cases v with
    | bits n' => cases g with
      | bits m' =>
        rw [cellFinite] at hn hm
        split at hn
        · cases hn
          split at hm
          · cases hm
            obtain ⟨x', hx', y', hy', hxy⟩ : ∃ x ∈ valueOfBits n, ∃ y ∈ valueOfBits m, x ≤ y := hle
            rw [valueOfBits_of_finite hx] at hx'
            rw [valueOfBits_of_finite hy] at hy'
            cases hx'
            cases hy'
            show floatKey n ≤ floatKey m
            rw [floatKey, floatKey, hx, hy]
            exact WithTop.coe_le_coe.mp (WithBot.coe_le_coe.mp hxy)
          · cases hm
        · cases hn
      | _ => cases hm
    | _ => cases hn
  · obtain ⟨t, ht, rfl⟩ := Option.map_eq_some_iff.mp hg
    cases v with
    | text s' => cases g with
      | text t' =>
        cases hs
        cases ht
        exact hle
      | _ => cases ht
    | _ => cases hs

/-- The place of a value in the order of the doubles. -/
def floatPlace : Value → ExtRat
  | .bits n => (valueOfBits n).getD ⊥
  | _ => ⊥

/-- A type whose maximum is taken has a greatest of all values. -/
theorem exists_maximum (hordered : isOrdered dataType = true) (hne : keyValues key dataType batches ≠ []) :
    ∃ g, IsMaximum bitsLe dataType (keyValues key dataType batches) g := by
  have hcases : ∀ v ∈ keyValues key dataType batches, comparable dataType v = true := fun v hv =>
    (mem_keyValues.mp hv).2
  have hexists : ∀ {κ : Type} [LinearOrder κ] (order : Value → κ),
      (∀ v g, comparable dataType v = true → comparable dataType g = true → order v ≤ order g →
        valueLe bitsLe dataType v g) →
      ∃ g, IsMaximum bitsLe dataType (keyValues key dataType batches) g := by
    intro κ _ order hmono
    have hgreatest : GreatestIn order (greatest order (keyValues key dataType batches))
        (keyValues key dataType batches) := greatestIn_greatest _
    cases hg : greatest order (keyValues key dataType batches) with
    | none => exact absurd (hgreatest.eq_none_iff.mp hg) hne
    | some g =>
      rw [hg] at hgreatest
      exact ⟨g, hgreatest.1, fun v hv => hmono v g (hcases v hv) (hcases g hgreatest.1) (hgreatest.2 v hv)⟩
  cases dataType with
  | int64 =>
    refine hexists (fun v => (cellInt (some v)).getD 0) fun v g hv hg hle => ?_
    cases v with
    | int a => cases g with
      | int b => exact hle
      | _ => cases hg
    | _ => cases hv
  | timestamp unit tz =>
    refine hexists (fun v => (cellInt (some v)).getD 0) fun v g hv hg hle => ?_
    cases v with
    | int a => cases g with
      | int b => exact hle
      | _ => cases hg
    | _ => cases hv
  | float64 =>
    refine hexists floatPlace fun v g hv hg hle => ?_
    cases v with
    | bits n => cases g with
      | bits m =>
        obtain ⟨x, hx⟩ := Option.isSome_iff_exists.mp hv
        obtain ⟨y, hy⟩ := Option.isSome_iff_exists.mp hg
        rw [floatPlace, floatPlace, hx, hy] at hle
        exact ⟨x, hx, y, hy, hle⟩
      | _ => cases hg
    | _ => cases hv
  | utf8 =>
    refine hexists (fun v => (cellText (some v)).getD "") fun v g hv hg hle => ?_
    cases v with
    | text s => cases g with
      | text t => exact hle
      | _ => cases hg
    | _ => cases hv
  | _ => cases hordered

theorem finite_of_value {n : Nat} {x : ℚ} (h : valueOfBits n = some ((x : WithTop ℚ) : ExtRat)) :
    (finiteOfBits n).isSome = true := by
  cases hn : finiteOfBits n with
  | some y => rfl
  | none =>
    rcases valueOfBits_of_not_finite hn h with htop | hbot
    · exact absurd (WithBot.coe_inj.mp htop) WithTop.coe_ne_top
    · exact absurd hbot WithBot.coe_ne_bot

/-- What stands for a greatest value and is read of it, or is a finite float, is read of every greatest value
    exactly. -/
theorem readExactly_of_standsFor {g' : Value} (hordered : isOrdered dataType = true) (hg : comparable dataType g = true)
    (hg' : comparable dataType g' = true) (hle : valueLe bitsLe dataType g g') (hle' : valueLe bitsLe dataType g' g)
    (hstands : StandsFor dataType g value) (hread : readCell dataType (some g) = some value ∨
      ∃ n x, value = .float n ∧ finiteOfBits n = some x) : ReadExactly dataType g' := by
  obtain ⟨rfl, a, rfl⟩ | ⟨unit, tz, rfl, a, rfl⟩ | ⟨rfl, n, x, rfl, hx⟩ | ⟨rfl, s, rfl⟩ :=
    comparable_cases hordered hg
  · cases g' <;> exact trivial
  · cases g' with
    | int b =>
      have hab : a = b := Int.le_antisymm hle hle'
      rcases hread with hread | ⟨n, x, rfl, -⟩
      · have hvalue : KeyValue.micros (toMicros unit a) = value := Option.some_inj.mp hread
        rw [← hvalue] at hstands
        have hexact : toMicros unit a * unit.perSecond = a * 1000000 := hstands
        rw [hab] at hexact
        cases unit with
        | second =>
          rw [toMicros, saturate, TimeUnit.perSecond] at hexact
          show i64Min ≤ b * 1000000 ∧ b * 1000000 ≤ i64Max
          rw [i64Min, i64Max] at hexact ⊢
          omega
        | millisecond =>
          rw [toMicros, saturate, TimeUnit.perSecond] at hexact
          show i64Min ≤ b * 1000 ∧ b * 1000 ≤ i64Max
          rw [i64Min, i64Max] at hexact ⊢
          omega
        | microsecond => exact trivial
        | nanosecond =>
          rw [toMicros, TimeUnit.perSecond] at hexact
          show b % 1000 = 0
          split at hexact <;> omega
      · cases hstands
    | _ => cases hg'
  · cases g' with
    | bits k =>
      obtain ⟨y, hy⟩ := Option.isSome_iff_exists.mp hg'
      obtain ⟨x₁, hx₁, y₁, hy₁, hxy⟩ : ∃ x ∈ valueOfBits n, ∃ y ∈ valueOfBits k, x ≤ y := hle
      obtain ⟨y₂, hy₂, x₂, hx₂, hyx⟩ : ∃ y ∈ valueOfBits k, ∃ x ∈ valueOfBits n, y ≤ x := hle'
      rw [Option.mem_def] at hx₁ hy₁ hx₂ hy₂
      rw [hx₁, Option.some_inj] at hx₂
      rw [hy₁, Option.some_inj] at hy₂
      have hsame : valueOfBits k = valueOfBits n := by
        rw [hy₁, hx₁, le_antisymm hxy (hy₂ ▸ hx₂ ▸ hyx)]
      obtain ⟨z, hz⟩ : ∃ z : ℚ, valueOfBits n = some ((z : WithTop ℚ) : ExtRat) := by
        rcases hread with hread | ⟨m, z, rfl, hz⟩
        · obtain ⟨m, hm, -⟩ := Option.map_eq_some_iff.mp hread
          rw [cellFinite] at hm
          split at hm
          · next hfinite =>
            obtain ⟨z, hz⟩ := Option.isSome_iff_exists.mp hfinite
            exact ⟨z, valueOfBits_of_finite hz⟩
          · cases hm
        · exact ⟨z, (show valueOfBits m = valueOfBits n from hstands) ▸ valueOfBits_of_finite hz⟩
      exact finite_of_value (hsame.trans hz)
    | _ => cases hg'
  · cases g' <;> exact trivial

theorem standsFor_formatted {dataType' : DataType} :
    StandsFor dataType g (.formatted dataType' v) ↔ isOrdered dataType = false ∧ dataType' = dataType ∧ v = g := by
  cases dataType <;> cases g <;> exact Iff.rfl

/-- Of a type whose maximum is taken the values that are read coincide with those of the key where its greatest value is
    read exactly. -/
theorem coincides_iff_of_ordered (hordered : isOrdered dataType = true) (hplace : SamePlace key idx batches)
    (htype : ∀ b ∈ batches, keyType key b = some dataType) : Coincides bitsLe key dataType idx batches ↔
      ∀ g, IsMaximum bitsLe dataType (keyValues key dataType batches) g → ReadExactly dataType g := by
  have hcomparable : ∀ v ∈ keyValues key dataType batches, comparable dataType v = true := fun v hv =>
    (mem_keyValues.mp hv).2
  have hfound : lastKeyCell idx batches ≠ none → batches.any (foundIn idx) = true := by
    intro hcell
    obtain ⟨value, hvalue⟩ := Option.ne_none_iff_exists'.mp hcell
    obtain ⟨b, hb, hrows, -⟩ := lastKeyCell_mem hplace htype hvalue
    exact List.any_eq_true.mpr ⟨b, hb, (foundIn_eq hplace htype hb hrows).trans hordered⟩
  constructor
  · rintro ⟨-, ⟨hnil, -⟩ | ⟨g, value, hg, hstands, hread⟩⟩ g' hg'
    · exact absurd (hnil ▸ hg'.1) List.not_mem_nil
    · rcases hread with ⟨hin, hgreatest⟩ | ⟨-, -, hcell⟩
      · refine readExactly_of_standsFor hordered (hcomparable g hg.1) (hcomparable g' hg'.1) (hg'.2 g hg.1)
          (hg.2 g' hg'.1) hstands ?_
        have hkind : (∃ n, value = .float n) ∨ ∃ w, readCell dataType (some g) = some w := by
          obtain ⟨rfl, a, rfl⟩ | ⟨unit, tz, rfl, a, rfl⟩ | ⟨rfl, n, x, rfl, -⟩ | ⟨rfl, s, rfl⟩ :=
            comparable_cases hordered (hcomparable g hg.1)
          · exact .inr ⟨_, rfl⟩
          · exact .inr ⟨_, rfl⟩
          · cases value with
            | float m => exact .inl ⟨m, rfl⟩
            | formatted dataType' v => cases hstands.1
            | _ => cases hstands
          · exact .inr ⟨_, rfl⟩
        rcases hkind with ⟨n, rfl⟩ | ⟨w, hw⟩
        · obtain ⟨x, hx⟩ := floats_finite hin
          exact .inr ⟨n, x, rfl, hx⟩
        · -- What is read of the greatest value is as great as anything that is read.
          obtain ⟨v, hv, hread⟩ := (hplace.mem_reads htype).mp hin
          have hwin : w ∈ reads idx batches := (hplace.mem_reads htype).mpr ⟨g, hg.1, hw⟩
          rcases same_of_le hwin hin (hgreatest w hwin) (readCell_mono (hg.2 v hv) hread hw) with
            rfl | ⟨n, m, -, rfl, -⟩
          · exact .inl hw
          · obtain ⟨x, hx⟩ := floats_finite hin
            exact .inr ⟨m, x, rfl, hx⟩
      · obtain ⟨b, -, -, v, rfl, -⟩ := lastKeyCell_mem hplace htype hcell
        have hnot := (standsFor_formatted.mp hstands).1
        rw [hordered] at hnot
        cases hnot
  · intro hexact
    refine ⟨hplace.readable, ?_⟩
    by_cases hnil : keyValues key dataType batches = []
    · refine .inl ⟨hnil, List.eq_nil_iff_forall_not_mem.mpr fun w hw => ?_, ?_⟩
      · obtain ⟨v, hv, -⟩ := (hplace.mem_reads htype).mp hw
        exact List.not_mem_nil (hnil ▸ hv)
      · by_cases hcell : lastKeyCell idx batches = none
        · exact .inr hcell
        · exact .inl (hfound hcell)
    · obtain ⟨g, hg⟩ := @exists_maximum bitsLe _ _ _ hordered hnil
      obtain ⟨value, hvalue, hstands⟩ := (hexact g hg).standsFor hordered (hcomparable g hg.1)
      refine .inr ⟨g, value, hg, hstands, .inl ⟨(hplace.mem_reads htype).mpr ⟨g, hg.1, hvalue⟩, fun w hw => ?_⟩⟩
      obtain ⟨v, hv, hread⟩ := (hplace.mem_reads htype).mp hw
      exact readCell_mono (hg.2 v hv) hread hvalue

/-- Of another type nothing is read, and the last cell has to be the greatest value. -/
theorem coincides_iff_of_not_ordered (hordered : isOrdered dataType = false) (hplace : SamePlace key idx batches)
    (htype : ∀ b ∈ batches, keyType key b = some dataType) : Coincides bitsLe key dataType idx batches ↔
      (keyValues key dataType batches ≠ [] → ∃ g, IsMaximum bitsLe dataType (keyValues key dataType batches) g ∧
        lastKeyCell idx batches = some (.formatted dataType g)) := by
  have hreads : reads idx batches = [] := by
    refine List.eq_nil_iff_forall_not_mem.mpr fun w hw => ?_
    obtain ⟨v, -, hread⟩ := (hplace.mem_reads htype).mp hw
    obtain ⟨rfl, -⟩ | ⟨unit, tz, rfl, -⟩ | ⟨rfl, -⟩ | ⟨rfl, -⟩ := readCell_cases hread <;> cases hordered
  have hfound : batches.any (foundIn idx) = false := by
    refine List.any_eq_false.mpr fun b hb hfound => ?_
    by_cases hrows : b.rows = []
    · rw [foundIn, hrows] at hfound
      cases hfound
    · rw [foundIn_eq hplace htype hb hrows, hordered] at hfound
      cases hfound
  have hall : ∀ v, comparable dataType v = true := by
    intro v
    cases dataType with
    | int64 => cases hordered
    | timestamp unit tz => cases hordered
    | float64 => cases hordered
    | utf8 => cases hordered
    | _ => rfl
  constructor
  · rintro ⟨-, ⟨hnil, -⟩ | ⟨g, value, hg, hstands, ⟨hin, -⟩ | ⟨-, -, hcell⟩⟩⟩ hne
    · exact absurd hnil hne
    · exact absurd (hreads ▸ hin) List.not_mem_nil
    · obtain ⟨b, -, -, v, rfl, -⟩ := lastKeyCell_mem hplace htype hcell
      exact ⟨g, hg, (standsFor_formatted.mp hstands).2.2 ▸ hcell⟩
  · intro hlast
    refine ⟨hplace.readable, ?_⟩
    by_cases hnil : keyValues key dataType batches = []
    · refine .inl ⟨hnil, hreads, .inr ?_⟩
      cases hcell : lastKeyCell idx batches with
      | none => rfl
      | some value =>
        obtain ⟨b, hb, -, v, -, row, hrow, hv⟩ := lastKeyCell_mem hplace htype hcell
        exact absurd (hnil ▸ mem_keyValues.mpr ⟨⟨b, hb, row, hrow, hv⟩, hall v⟩) List.not_mem_nil
    · obtain ⟨g, hg, hcell⟩ := hlast hnil
      exact .inr ⟨g, _, hg, standsFor_formatted.mpr ⟨hordered, rfl, rfl⟩, .inr ⟨hreads, hfound, hcell⟩⟩

/-! ### The key in another place -/

/-- A batch of one row, which is null but for one cell. -/
def loneCell (schema : Schema) (j : Nat) (v : Value) : RecordBatch where
  schema := schema
  rows := [(List.range schema.length).map fun i => if i = j then some v else none]
  wf row hrow := by rw [List.mem_singleton.mp hrow, List.length_map, List.length_range]

/-- A value that has a place in the order of a type. -/
def someValue : DataType → Value
  | .int64 | .timestamp _ _ => .int 0
  | .utf8 => .text ""
  | _ => .bits 0

theorem comparable_someValue (dataType : DataType) : comparable dataType (someValue dataType) = true := by
  cases dataType <;> rfl

theorem columnCells_loneCell {schema : Schema} {j : Nat} (h : idx ≠ j) :
    columnCells idx (loneCell schema j v) = [none] := by
  rw [columnCells, loneCell, List.map_singleton, List.getElem?_map]
  by_cases hlt : idx < schema.length
  · rw [List.getElem?_eq_getElem (by rwa [List.length_range]), List.getElem_range, Option.map_some, if_neg h]
    rfl
  · rw [List.getElem?_eq_none (by rwa [List.length_range, ← Nat.not_lt])]
    rfl

/-- Where some batch has the key elsewhere, there are rows for the same columns of which the last value says nothing. -/
theorem exists_not_returnsMaximum {first : RecordBatch} {rest : List RecordBatch}
    (hidx : first.schema.indexOf key = some idx) (htype : ∀ b ∈ first :: rest, keyType key b = some dataType)
    (hplace : ∃ b ∈ first :: rest, b.schema.indexOf key ≠ some idx) :
    ∃ batches', SameColumns (first :: rest) batches' ∧ ¬ReturnsMaximum bitsLe key dataType batches' := by
  obtain ⟨b, hb, hne⟩ := hplace
  obtain ⟨j, hj⟩ : ∃ j, b.schema.indexOf key = some j := by
    obtain ⟨j, hj, -⟩ := Option.bind_eq_some_iff.mp (htype b hb)
    exact ⟨j, hj⟩
  have hji : idx ≠ j := fun heq => hne (heq ▸ hj)
  -- The first batch has the key at the place that is looked up, so it is another one.
  rcases List.mem_cons.mp hb with rfl | hb
  · exact absurd hidx hne
  obtain ⟨before, after, rfl⟩ := List.append_of_mem hb
  let rowless (b : RecordBatch) : RecordBatch := b.filterRecordBatch []
  let lone := loneCell b.schema j (someValue dataType)
  have hcells : ∀ b' ∈ rowless first :: (before.map rowless ++ lone :: after.map rowless),
      ∀ cell ∈ columnCells idx b', cell = none := by
    have hrowless : ∀ b' : RecordBatch, ∀ cell ∈ columnCells idx (rowless b'), cell = none := by
      intro b' cell hcell
      rw [columnCells, show (rowless b').rows = [] by simp [rowless, RecordBatch.filterRecordBatch]] at hcell
      exact absurd hcell List.not_mem_nil
    have hlone : ∀ cell ∈ columnCells idx lone, cell = none := by
      rw [columnCells_loneCell hji]
      exact fun cell hcell => List.mem_singleton.mp hcell
    rw [List.forall_mem_cons, List.forall_mem_append, List.forall_mem_cons, List.forall_mem_map, List.forall_mem_map]
    exact ⟨hrowless first, fun b' _ => hrowless b', hlone, fun b' _ => hrowless b'⟩
  refine ⟨rowless first :: (before.map rowless ++ lone :: after.map rowless), ?_, ?_⟩
  · simp [SameColumns, rowless, lone, loneCell, RecordBatch.filterRecordBatch, Function.comp_def]
  have hreads : reads idx (rowless first :: (before.map rowless ++ lone :: after.map rowless)) = [] := by
    refine List.eq_nil_iff_forall_not_mem.mpr fun v hv => ?_
    obtain ⟨b', hb', field, -, cell, hcell, hread⟩ := mem_reads.mp hv
    rw [hcells b' hb' cell hcell] at hread
    obtain ⟨-, a, ha, -⟩ | ⟨unit, tz, -, a, ha, -⟩ | ⟨-, n, hn, -⟩ | ⟨-, s, hs, -⟩ := readCell_cases hread
    · cases ha
    · cases ha
    · cases hn
    · cases hs
  have hlast : lastKeyCell idx (rowless first :: (before.map rowless ++ lone :: after.map rowless)) = none := by
    refine Option.eq_none_iff_forall_ne_some.mpr fun value hvalue => ?_
    rw [lastKeyCell] at hvalue
    obtain ⟨b', hb', hvalue⟩ := Option.bind_eq_some_iff.mp hvalue
    obtain ⟨row, hrow, hvalue⟩ := Option.bind_eq_some_iff.mp hvalue
    obtain ⟨field, -, hvalue⟩ := Option.bind_eq_some_iff.mp hvalue
    obtain ⟨v, hv, -⟩ := Option.bind_eq_some_iff.mp hvalue
    have hcell := hcells b' (List.mem_of_getLast? hb') _ (List.mem_map_of_mem (List.mem_of_getLast? hrow))
    rw [hcell] at hv
    cases hv
  have hvalue : someValue dataType ∈
      keyValues key dataType (rowless first :: (before.map rowless ++ lone :: after.map rowless)) := by
    refine mem_keyValues.mpr ⟨⟨lone, by simp, _, List.mem_singleton_self _, ?_⟩, comparable_someValue dataType⟩
    have hlt : j < b.schema.length := by
      obtain ⟨field, hfield, -⟩ := indexOf_lt hj
      exact (List.getElem?_eq_some_iff.mp hfield).1
    show keyCell key b.schema _ = _
    rw [keyCell_eq hj, List.getElem?_map, List.getElem?_eq_getElem (by rwa [List.length_range]), List.getElem_range]
    simp
  rw [@returnsMaximum_iff_coincides _ _ _ _ (rowless first) _ hidx]
  rintro ⟨-, ⟨hnil, -⟩ | ⟨g, value, -, -, ⟨hin, -⟩ | ⟨-, -, hcell⟩⟩⟩
  · exact absurd (hnil ▸ hvalue) List.not_mem_nil
  · exact absurd (hreads ▸ hin) List.not_mem_nil
  · rw [hlast] at hcell
    cases hcell

/-- With the key in its place, the last value is the greatest value of the key exactly if that is a value that is read
    exactly, or stands in the last row. With the key elsewhere in some batch, rows of these columns can have another
    last value. -/
theorem returnsMaximum_iff {first : RecordBatch} {rest : List RecordBatch}
    (hidx : first.schema.indexOf key = some idx)
    (htype : ∀ b ∈ first :: rest, keyType key b = some dataType) :
    (SamePlace key idx (first :: rest) →
      (ReturnsMaximum bitsLe key dataType (first :: rest) ↔ MaximumKept bitsLe key dataType idx (first :: rest))) ∧
      ((∃ b ∈ first :: rest, b.schema.indexOf key ≠ some idx) →
        ∃ batches', SameColumns (first :: rest) batches' ∧ ¬ReturnsMaximum bitsLe key dataType batches') := by
  refine ⟨fun hplace => ?_, exists_not_returnsMaximum hidx htype⟩
  rw [returnsMaximum_iff_coincides hidx, MaximumKept]
  cases hordered : isOrdered dataType with
  | true => exact coincides_iff_of_ordered hordered hplace htype
  | false => exact coincides_iff_of_not_ordered hordered hplace htype

end Place

/-! ### A time between two microseconds -/

section Examples

def updatedAt (dataType : DataType) (values : List Int) : RecordBatch :=
  ⟨[⟨"updated_at", dataType, false⟩], values.map fun v => [some (.int v)], by
    intro row hrow
    obtain ⟨v, -, rfl⟩ := List.mem_map.mp hrow
    rfl⟩

theorem updatedAt_samePlace (dataType : DataType) (values : List (List Int)) :
    SamePlace "updated_at" 0 (values.map (updatedAt dataType)) := by
  intro b hb _
  obtain ⟨values, -, rfl⟩ := List.mem_map.mp hb
  rfl

theorem returnsMaximum_iff_int64 :
    ReturnsMaximum (fun _ a b => a ≤ b) "updated_at" .int64 [updatedAt .int64 [100, 999], updatedAt .int64 [300]] ↔
      MaximumKept (fun _ a b => a ≤ b) "updated_at" .int64 0 [updatedAt .int64 [100, 999], updatedAt .int64 [300]] :=
  (returnsMaximum_iff rfl (by decide)).1 (updatedAt_samePlace .int64 [[100, 999], [300]])

/-- 1500 ns are rounded up to 2 µs, and of an `Int32` key the last row is taken. -/
theorem not_returnsMaximum :
    ¬ ReturnsMaximum (fun _ a b => a ≤ b) "updated_at" (.timestamp .nanosecond none)
      [updatedAt (.timestamp .nanosecond none) [1500]] ∧
    ¬ ReturnsMaximum (fun _ a b => a ≤ b) "updated_at" .int32 [updatedAt .int32 [5, 3]] := by
  have hplace (dataType : DataType) (values : List Int) : SamePlace "updated_at" 0 [updatedAt dataType values] :=
    updatedAt_samePlace dataType [values]
  constructor
  · rw [returnsMaximum_iff_coincides rfl, coincides_iff_of_ordered rfl (hplace _ _) (by decide)]
    intro h
    have hmod : (1500 : Int) % 1000 = 0 := by
      refine h (.int 1500) ⟨by decide, fun v hv => ?_⟩
      rw [List.mem_singleton.mp hv]
      exact Int.le_refl _
    exact absurd hmod (by decide)
  · rw [returnsMaximum_iff_coincides rfl, coincides_iff_of_not_ordered rfl (hplace _ _) (by decide)]
    intro h
    obtain ⟨g, hg, hlast⟩ := h (by decide)
    cases hlast
    exact absurd (hg.2 (.int 5) (by decide)) (by decide : ¬ (5 : Int) ≤ 3)

end Examples

end Reiver.Pond
