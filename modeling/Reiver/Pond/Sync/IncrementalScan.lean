import Reiver.Lib.Binary64
import Reiver.Lib.Greatest
import Reiver.Pond.Sync.WarmJobs

/-! # The last value of an incremental key

The loop of `extract_last_incremental_value` over the batches, with a maximum for each kind of value. The maxima are
the greatest of what is read in the column at all rows (`scanBatches_spec`). -/

namespace Reiver.Pond

/-- A last value before it is rendered. -/
inductive KeyValue where
  | micros (us : Int)
  | int (v : Int)
  | float (bits : Nat)
  | text (s : String)
  -- The last cell, where no maximum is taken.
  | formatted (dataType : DataType) (v : Value)
deriving DecidableEq

structure Maxima where
  maxI64 : Option Int := none
  maxF64 : Option Nat := none
  maxStr : Option String := none
  maxTsMicros : Option Int := none
  foundType : Bool := false

def cellInt : Cell → Option Int
  | some (.int v) => some v
  | _ => none

/-- `is_finite` of the value of a cell. -/
def cellFinite : Cell → Option Nat
  | some (.bits n) => if (finiteOfBits n).isSome then some n else none
  | _ => none

def cellText : Cell → Option String
  | some (.text s) => some s
  | _ => none

/-- Finite floats are compared by their values. -/
def floatKey (bits : Nat) : ℚ := (finiteOfBits bits).getD 0

def columnCells (idx : Nat) (b : RecordBatch) : List Cell := b.rows.map fun row => (row[idx]?).join

/-- One batch. A batch with rows and without the column panics. -/
def scanBatch (idx : Nat) (m : Maxima) (b : RecordBatch) : Option Maxima :=
  if b.rows = [] then some m
  else
    (b.schema[idx]?).map fun field =>
      let cells := columnCells idx b
      match field.dataType with
      | .int64 => { m with foundType := true, maxI64 := greater id m.maxI64 (greatest id (cells.filterMap cellInt)) }
      | .timestamp unit _ =>
        { m with
          foundType := true
          maxTsMicros := greater id m.maxTsMicros ((greatest id (cells.filterMap cellInt)).map (toMicros unit)) }
      | .float64 =>
        { m with
          foundType := true, maxF64 := greater floatKey m.maxF64 (greatest floatKey (cells.filterMap cellFinite)) }
      | .utf8 => { m with foundType := true, maxStr := greater id m.maxStr (greatest id (cells.filterMap cellText)) }
      | _ => m

def scanBatches (idx : Nat) (batches : List RecordBatch) : Option Maxima := batches.foldlM (scanBatch idx) {}

/-- The cell of the last row of the last batch. -/
def lastKeyCell (idx : Nat) (batches : List RecordBatch) : Option KeyValue := do
  let batch ← batches.getLast?
  let row ← batch.rows.getLast?
  let field ← batch.schema[idx]?
  let v ← (row[idx]?).join
  some (.formatted field.dataType v)

def Maxima.lastValue (m : Maxima) (last : Option KeyValue) : Option KeyValue :=
  match m.maxTsMicros, m.maxI64, m.maxF64, m.maxStr with
  | some us, _, _, _ => some (.micros us)
  | none, some v, _, _ => some (.int v)
  | none, none, some v, _ => some (.float v)
  | none, none, none, some s => some (.text s)
  | none, none, none, none => if m.foundType then none else last

/-- The last value of a key, unless a batch panics. -/
def lastKeyValue (batches : List RecordBatch) (incrementalKey : String) : Option (Option KeyValue) :=
  match batches with
  | [] => some none
  | first :: _ =>
    match first.schema.indexOf incrementalKey with
    | none => some none
    | some idx => (scanBatches idx batches).map (·.lastValue (lastKeyCell idx batches))

/-! ### What is read -/

def readCell : DataType → Cell → Option KeyValue
  | .int64, cell => (cellInt cell).map .int
  | .timestamp unit _, cell => ((cellInt cell).map (toMicros unit)).map .micros
  | .float64, cell => (cellFinite cell).map .float
  | .utf8, cell => (cellText cell).map .text
  | _, _ => none

def readBatch (idx : Nat) (b : RecordBatch) : List KeyValue :=
  (b.schema[idx]?).elim [] fun field => (columnCells idx b).filterMap (readCell field.dataType)

def reads (idx : Nat) (batches : List RecordBatch) : List KeyValue := batches.flatMap (readBatch idx)

namespace KeyValue

def micros? : KeyValue → Option Int
  | micros us => some us
  | _ => none

def int? : KeyValue → Option Int
  | int v => some v
  | _ => none

def float? : KeyValue → Option Nat
  | float n => some n
  | _ => none

def text? : KeyValue → Option String
  | text s => some s
  | _ => none

end KeyValue

def KeyValue.rank : KeyValue → Nat
  | micros _ => 0
  | int _ => 1
  | float _ => 2
  | text _ => 3
  | formatted _ _ => 4

/-- Values of one kind are compared, of two kinds the one that is asked for first is taken. -/
def KeyValue.Le : KeyValue → KeyValue → Prop
  | micros a, micros b => a ≤ b
  | int a, int b => a ≤ b
  | float a, float b => floatKey a ≤ floatKey b
  | text a, text b => a ≤ b
  | a, b => b.rank < a.rank

/-- Whether a batch has rows and a column of a type whose maximum is taken. -/
def foundIn (idx : Nat) (b : RecordBatch) : Bool :=
  b.rows ≠ [] ∧ (b.schema[idx]?).any (isOrdered ·.dataType)

structure Maxima.Covers (m : Maxima) (values : List KeyValue) (found : Bool) : Prop where
  micros : GreatestIn id m.maxTsMicros (values.filterMap KeyValue.micros?)
  int : GreatestIn id m.maxI64 (values.filterMap KeyValue.int?)
  float : GreatestIn floatKey m.maxF64 (values.filterMap KeyValue.float?)
  text : GreatestIn id m.maxStr (values.filterMap KeyValue.text?)
  found : m.foundType = found

section Scan
variable {idx : Nat} {m m' : Maxima} {b : RecordBatch} {values : List KeyValue} {found : Bool}

theorem toMicros_mono (unit : TimeUnit) {v w : Int} (h : v ≤ w) : toMicros unit v ≤ toMicros unit w := by
  cases unit with
  | second =>
    rw [toMicros, toMicros, saturate, saturate]
    omega
  | millisecond =>
    rw [toMicros, toMicros, saturate, saturate]
    omega
  | microsecond => exact h
  | nanosecond =>
    rw [toMicros, toMicros]
    split <;> split <;> omega

theorem covers_empty : ({} : Maxima).Covers [] false :=
  ⟨greatestIn_nil, greatestIn_nil, greatestIn_nil, greatestIn_nil, rfl⟩

theorem filterMap_map_self {α : Type} {mk : α → KeyValue} {proj : KeyValue → Option α}
    (hproj : ∀ v, proj (mk v) = some v) (l : List α) : (l.map mk).filterMap proj = l := by
  rw [List.filterMap_map]
  exact (List.filterMap_congr fun v _ => hproj v).trans List.filterMap_some

theorem filterMap_map_other {α β : Type} (mk : α → KeyValue) (proj : KeyValue → Option β)
    (hproj : ∀ v, proj (mk v) = none) (l : List α) : (values ++ l.map mk).filterMap proj = values.filterMap proj := by
  rw [List.filterMap_append, List.filterMap_map]
  exact (congrArg _ (List.filterMap_eq_nil_iff.mpr fun v _ => hproj v)).trans (List.append_nil _)

theorem greatestIn_append_self {α κ : Type} [LinearOrder κ] {key : α → κ} (mk : α → KeyValue)
    (proj : KeyValue → Option α) (hproj : ∀ v, proj (mk v) = some v) {o o' : Option α} {l : List α}
    (h : GreatestIn key o (values.filterMap proj)) (h' : GreatestIn key o' l) :
    GreatestIn key (greater key o o') ((values ++ l.map mk).filterMap proj) := by
  rw [List.filterMap_append, filterMap_map_self hproj]
  exact h.append h'

theorem Maxima.Covers.micros_append {o : Option Int} {l : List Int} (h : m.Covers values found)
    (hl : GreatestIn id o l) :
    ({ m with foundType := true, maxTsMicros := greater id m.maxTsMicros o } : Maxima).Covers
      (values ++ l.map KeyValue.micros) true where
  micros := greatestIn_append_self KeyValue.micros KeyValue.micros? (fun _ => rfl) h.micros hl
  int := (filterMap_map_other KeyValue.micros KeyValue.int? (fun _ => rfl) l).symm ▸ h.int
  float := (filterMap_map_other KeyValue.micros KeyValue.float? (fun _ => rfl) l).symm ▸ h.float
  text := (filterMap_map_other KeyValue.micros KeyValue.text? (fun _ => rfl) l).symm ▸ h.text
  found := rfl

theorem Maxima.Covers.int_append {o : Option Int} {l : List Int} (h : m.Covers values found)
    (hl : GreatestIn id o l) :
    ({ m with foundType := true, maxI64 := greater id m.maxI64 o } : Maxima).Covers
      (values ++ l.map KeyValue.int) true where
  micros := (filterMap_map_other KeyValue.int KeyValue.micros? (fun _ => rfl) l).symm ▸ h.micros
  int := greatestIn_append_self KeyValue.int KeyValue.int? (fun _ => rfl) h.int hl
  float := (filterMap_map_other KeyValue.int KeyValue.float? (fun _ => rfl) l).symm ▸ h.float
  text := (filterMap_map_other KeyValue.int KeyValue.text? (fun _ => rfl) l).symm ▸ h.text
  found := rfl

theorem Maxima.Covers.float_append {o : Option Nat} {l : List Nat} (h : m.Covers values found)
    (hl : GreatestIn floatKey o l) :
    ({ m with foundType := true, maxF64 := greater floatKey m.maxF64 o } : Maxima).Covers
      (values ++ l.map KeyValue.float) true where
  micros := (filterMap_map_other KeyValue.float KeyValue.micros? (fun _ => rfl) l).symm ▸ h.micros
  int := (filterMap_map_other KeyValue.float KeyValue.int? (fun _ => rfl) l).symm ▸ h.int
  float := greatestIn_append_self KeyValue.float KeyValue.float? (fun _ => rfl) h.float hl
  text := (filterMap_map_other KeyValue.float KeyValue.text? (fun _ => rfl) l).symm ▸ h.text
  found := rfl

theorem Maxima.Covers.text_append {o : Option String} {l : List String} (h : m.Covers values found)
    (hl : GreatestIn id o l) :
    ({ m with foundType := true, maxStr := greater id m.maxStr o } : Maxima).Covers
      (values ++ l.map KeyValue.text) true where
  micros := (filterMap_map_other KeyValue.text KeyValue.micros? (fun _ => rfl) l).symm ▸ h.micros
  int := (filterMap_map_other KeyValue.text KeyValue.int? (fun _ => rfl) l).symm ▸ h.int
  float := (filterMap_map_other KeyValue.text KeyValue.float? (fun _ => rfl) l).symm ▸ h.float
  text := greatestIn_append_self KeyValue.text KeyValue.text? (fun _ => rfl) h.text hl
  found := rfl

theorem Maxima.Covers.append_nil (h : m.Covers values found) : m.Covers (values ++ []) (found || false) := by
  rw [List.append_nil, Bool.or_false]
  exact h

/-- One batch: the maxima take in what is read of it. -/
theorem Maxima.Covers.scanBatch (h : m.Covers values found) (hscan : scanBatch idx m b = some m') :
    m'.Covers (values ++ readBatch idx b) (found || foundIn idx b) := by
  rw [Pond.scanBatch] at hscan
  split at hscan
  · next hrows =>
    have hread : readBatch idx b = [] := by
      rw [readBatch, columnCells, hrows]
      cases b.schema[idx]? with
      | none => rfl
      | some field => rfl
    have hfound : foundIn idx b = false := by
      rw [foundIn, hrows]
      rfl
    rw [hread, hfound, ← Option.some_inj.mp hscan]
    exact h.append_nil
  · next hrows =>
    obtain ⟨field, hfield, rfl⟩ := Option.map_eq_some_iff.mp hscan
    have hread : readBatch idx b = (columnCells idx b).filterMap (readCell field.dataType) := by
      rw [readBatch, hfield, Option.elim_some]
    have hfound : foundIn idx b = isOrdered field.dataType := by
      rw [foundIn, hfield]
      simp [hrows]
    have hmap : ∀ {α : Type} (f : Cell → Option α) (mk : α → KeyValue),
        (columnCells idx b).filterMap (fun cell => (f cell).map mk) = ((columnCells idx b).filterMap f).map mk :=
      fun f mk => List.map_filterMap.symm
    rw [hread, hfound]
    obtain ⟨name, dataType, nullable⟩ := field
    cases dataType with
    | int64 =>
      rw [isOrdered, Bool.or_true]
      exact (hmap cellInt .int).symm ▸ h.int_append (greatestIn_greatest _)
    | timestamp unit tz =>
      have hgreatest : GreatestIn id ((greatest id ((columnCells idx b).filterMap cellInt)).map (toMicros unit))
          (((columnCells idx b).filterMap cellInt).map (toMicros unit)) :=
        (greatestIn_greatest _).map fun _ _ hle => toMicros_mono unit hle
      rw [isOrdered, Bool.or_true]
      rw [List.map_filterMap] at hgreatest
      exact (hmap (fun cell => (cellInt cell).map (toMicros unit)) .micros).symm ▸ h.micros_append hgreatest
    | float64 =>
      rw [isOrdered, Bool.or_true]
      exact (hmap cellFinite .float).symm ▸ h.float_append (greatestIn_greatest _)
    | utf8 =>
      rw [isOrdered, Bool.or_true]
      exact (hmap cellText .text).symm ▸ h.text_append (greatestIn_greatest _)
    | _ =>
      have hnone : ∀ cells : List Cell, cells.filterMap (fun _ => (none : Option KeyValue)) = [] := fun cells =>
        List.filterMap_eq_nil_iff.mpr fun _ _ => rfl
      exact (hnone (columnCells idx b)).symm ▸ h.append_nil

def Readable (idx : Nat) (batches : List RecordBatch) : Prop := ∀ b ∈ batches, b.rows ≠ [] → idx < b.schema.length

theorem scanBatch_isSome_iff : (scanBatch idx m b).isSome ↔ (b.rows ≠ [] → idx < b.schema.length) := by
  rw [scanBatch]
  split
  · next hrows => exact iff_of_true rfl fun h => absurd hrows h
  · next hrows =>
    rw [Option.isSome_map, Option.isSome_iff_exists]
    constructor
    · rintro ⟨field, hfield⟩ -
      exact (List.getElem?_eq_some_iff.mp hfield).1
    · intro h
      exact ⟨_, List.getElem?_eq_getElem (h hrows)⟩

theorem scanBatches_spec (batches : List RecordBatch) :
    (¬ Readable idx batches ∧ scanBatches idx batches = none) ∨
      Readable idx batches ∧ ∃ m, scanBatches idx batches = some m ∧
        m.Covers (reads idx batches) (batches.any (foundIn idx)) := by
  have hfold : ∀ (batches : List RecordBatch) (m : Maxima) (values : List KeyValue) (found : Bool),
      m.Covers values found →
      (¬ Readable idx batches ∧ batches.foldlM (scanBatch idx) m = none) ∨
        Readable idx batches ∧ ∃ m', batches.foldlM (scanBatch idx) m = some m' ∧
          m'.Covers (values ++ reads idx batches) (found || batches.any (foundIn idx)) := by
    intro batches
    induction batches with
    | nil => exact fun m values found h => .inr ⟨fun b hb => absurd hb List.not_mem_nil, m, rfl, h.append_nil⟩
    | cons b batches ih =>
      intro m values found h
      rw [List.foldlM_cons]
      cases hscan : scanBatch idx m b with
      | none =>
        refine .inl ⟨fun hread => ?_, rfl⟩
        have hsome := scanBatch_isSome_iff (m := m).mpr (hread b List.mem_cons_self)
        rw [hscan] at hsome
        cases hsome
      | some m' =>
        have hb : b.rows ≠ [] → idx < b.schema.length :=
          scanBatch_isSome_iff (m := m).mp (by rw [hscan]; rfl)
        have hread : reads idx (b :: batches) = readBatch idx b ++ reads idx batches := rfl
        rw [hread, ← List.append_assoc, List.any_cons, ← Bool.or_assoc]
        rcases ih m' _ _ (h.scanBatch hscan) with ⟨hnot, hnone⟩ | ⟨hall, m'', hsome, hcovers⟩
        · exact .inl ⟨fun hall => hnot fun b' hb' => hall b' (List.mem_cons_of_mem _ hb'), hnone⟩
        · refine .inr ⟨fun b' hb' => ?_, m'', hsome, hcovers⟩
          rcases List.mem_cons.mp hb' with rfl | hb'
          · exact hb
          · exact hall b' hb'
  exact hfold batches {} [] false covers_empty

theorem readCell_cases {dataType : DataType} {cell : Cell} {v : KeyValue} (h : readCell dataType cell = some v) :
    (dataType = .int64 ∧ ∃ a, cellInt cell = some a ∧ v = .int a) ∨
    (∃ unit tz, dataType = .timestamp unit tz ∧ ∃ a, cellInt cell = some a ∧ v = .micros (toMicros unit a)) ∨
    (dataType = .float64 ∧ ∃ n, cellFinite cell = some n ∧ v = .float n) ∨
    (dataType = .utf8 ∧ ∃ s, cellText cell = some s ∧ v = .text s) := by
  cases dataType with
  | int64 =>
    obtain ⟨a, ha, rfl⟩ := Option.map_eq_some_iff.mp h
    exact .inl ⟨rfl, a, ha, rfl⟩
  | timestamp unit tz =>
    obtain ⟨us, hus, rfl⟩ := Option.map_eq_some_iff.mp h
    obtain ⟨a, ha, rfl⟩ := Option.map_eq_some_iff.mp hus
    exact .inr (.inl ⟨unit, tz, rfl, a, ha, rfl⟩)
  | float64 =>
    obtain ⟨n, hn, rfl⟩ := Option.map_eq_some_iff.mp h
    exact .inr (.inr (.inl ⟨rfl, n, hn, rfl⟩))
  | utf8 =>
    obtain ⟨s, hs, rfl⟩ := Option.map_eq_some_iff.mp h
    exact .inr (.inr (.inr ⟨rfl, s, hs, rfl⟩))
  | _ => cases h

theorem mem_reads {batches : List RecordBatch} {v : KeyValue} : v ∈ reads idx batches ↔
    ∃ b ∈ batches, ∃ field, b.schema[idx]? = some field ∧ ∃ cell ∈ columnCells idx b,
      readCell field.dataType cell = some v := by
  rw [reads, List.mem_flatMap]
  refine exists_congr fun b => and_congr_right fun _ => ?_
  rw [readBatch]
  cases b.schema[idx]? with
  | none =>
    refine iff_of_false List.not_mem_nil ?_
    rintro ⟨field, hfield, -⟩
    cases hfield
  | some field =>
    rw [Option.elim_some, List.mem_filterMap]
    simp only [Option.some_inj, exists_eq_left']

theorem reads_kind {batches : List RecordBatch} {v : KeyValue} (hv : v ∈ reads idx batches) : v.rank < 4 := by
  obtain ⟨b, -, field, -, cell, -, hcell⟩ := mem_reads.mp hv
  obtain ⟨-, a, -, rfl⟩ | ⟨unit, tz, -, a, -, rfl⟩ | ⟨-, n, -, rfl⟩ | ⟨-, s, -, rfl⟩ := readCell_cases hcell
  · exact (by decide : 1 < 4)
  · exact (by decide : 0 < 4)
  · exact (by decide : 2 < 4)
  · exact (by decide : 3 < 4)

theorem none_of_kind {α κ : Type} [LinearOrder κ] {key : α → κ} (proj : KeyValue → Option α)
    (h : GreatestIn key none (values.filterMap proj)) : ∀ w ∈ values, proj w = none :=
  List.filterMap_eq_nil_iff.mp h

theorem some_of_kind {α κ : Type} [LinearOrder κ] {key : α → κ} (mk : α → KeyValue) (proj : KeyValue → Option α)
    (hproj : ∀ w a, proj w = some a → w = mk a) {a : α} (h : GreatestIn key (some a) (values.filterMap proj)) :
    mk a ∈ values ∧ ∀ w ∈ values, ∀ a', proj w = some a' → key a' ≤ key a := by
  obtain ⟨w, hw, hwa⟩ := List.mem_filterMap.mp h.1
  exact ⟨hproj w a hwa ▸ hw, fun w' hw' a' ha' => h.2 a' (List.mem_filterMap.mpr ⟨w', hw', ha'⟩)⟩

/-- The last value is the greatest of what has been read, and the last cell where no type was found. -/
theorem Maxima.Covers.lastValue (h : m.Covers values found) (hkinds : ∀ v ∈ values, v.rank < 4)
    (last : Option KeyValue) :
    (values = [] ∧ m.lastValue last = if found then none else last) ∨
      ∃ v, m.lastValue last = some v ∧ v ∈ values ∧ ∀ w ∈ values, w.Le v := by
  obtain ⟨hmicros, hint, hfloat, htext, hflag⟩ := h
  obtain ⟨i64, f64, str, micros, flag⟩ := m
  dsimp only at hmicros hint hfloat htext hflag
  cases micros with
  | some us =>
    obtain ⟨hmem, hle⟩ := some_of_kind .micros KeyValue.micros? (fun w a h => by cases w <;> cases h; rfl) hmicros
    refine .inr ⟨_, rfl, hmem, fun w hw => ?_⟩
    cases w with
    | micros us' => exact hle _ hw us' rfl
    | _ => exact Nat.zero_lt_succ _
  | none =>
    have hnoMicros := none_of_kind KeyValue.micros? hmicros
    cases i64 with
    | some v =>
      obtain ⟨hmem, hle⟩ := some_of_kind .int KeyValue.int? (fun w a h => by cases w <;> cases h; rfl) hint
      refine .inr ⟨_, rfl, hmem, fun w hw => ?_⟩
      cases w with
      | micros us => cases hnoMicros _ hw
      | int v' => exact hle _ hw v' rfl
      | _ => exact Nat.succ_lt_succ (Nat.zero_lt_succ _)
    | none =>
      have hnoInt := none_of_kind KeyValue.int? hint
      cases f64 with
      | some n =>
        obtain ⟨hmem, hle⟩ := some_of_kind .float KeyValue.float? (fun w a h => by cases w <;> cases h; rfl) hfloat
        refine .inr ⟨_, rfl, hmem, fun w hw => ?_⟩
        cases w with
        | micros us => cases hnoMicros _ hw
        | int v => cases hnoInt _ hw
        | float n' => exact hle _ hw n' rfl
        | text s => exact (by decide : 2 < 3)
        | formatted ty v => exact (by decide : 2 < 4)
      | none =>
        have hnoFloat := none_of_kind KeyValue.float? hfloat
        cases str with
        | some s =>
          obtain ⟨hmem, hle⟩ := some_of_kind .text KeyValue.text? (fun w a h => by cases w <;> cases h; rfl) htext
          refine .inr ⟨_, rfl, hmem, fun w hw => ?_⟩
          cases w with
          | micros us => cases hnoMicros _ hw
          | int v => cases hnoInt _ hw
          | float n => cases hnoFloat _ hw
          | text s' => exact hle _ hw s' rfl
          | formatted ty v => exact (by decide : 3 < 4)
        | none =>
          have hnoText := none_of_kind KeyValue.text? htext
          have hnil : values = [] := by
            refine List.eq_nil_iff_forall_not_mem.mpr fun w hw => ?_
            cases w with
            | micros us => cases hnoMicros _ hw
            | int v => cases hnoInt _ hw
            | float n => cases hnoFloat _ hw
            | text s => cases hnoText _ hw
            | formatted ty v => exact absurd (hkinds _ hw) (by decide : ¬ 4 < 4)
          exact .inl ⟨hnil, hflag ▸ rfl⟩

end Scan

end Reiver.Pond
