import Mathlib.Data.List.Infix
import Reiver.Lib.Dict
import Reiver.Lib.JsonValue
import Reiver.Pond.Arrow

/-! # Rows on the way into ClickHouse

The model of `array_value_to_json` and of the JSONEachRow lines that `insert_source_batch` and
`insert_staging_batch` send. A cell of a type that is not listed is sent as null (`not_written_of_unlisted`). -/

namespace Reiver.Pond

abbrev TypedRow := List (Field × Cell)

/-- What the code leaves to others: the text of a time in seconds and nanoseconds with so many decimals, and what
    a column of a ClickHouse table makes of a JSON value. -/
structure ClickHouse where
  formatTimestamp : Int → Int → Nat → Option String
  readCell : String → String → JsonValue → Cell

namespace ClickHouse

def timestampToJson (ch : ClickHouse) (secs nsecs : Int) (decimals : Nat) : JsonValue :=
  match ch.formatTimestamp secs nsecs decimals with
  | some text => .string text
  | none => .null

def arrayValueToJson (ch : ClickHouse) : DataType → Cell → JsonValue
  | _, none => .null
  | .utf8, some (.text s) => .string s
  | .int32, some (.int i) | .int64, some (.int i) => .int i
  -- no number, and the infinities: all bits of the exponent are set
  | .float64, some (.bits n) => if n / 2 ^ 52 % 2 ^ 11 = 2 ^ 11 - 1 then .null else .double n
  | .boolean, some (.bits n) => .bool (n ≠ 0)
  | .timestamp .microsecond _, some (.int us) => ch.timestampToJson (us / 1000000) (us % 1000000 * 1000) 6
  | .timestamp .millisecond _, some (.int ms) => ch.timestampToJson (ms / 1000) (ms % 1000 * 1000000) 3
  | _, _ => .null

def isListed : DataType → Bool
  | .utf8 | .int32 | .int64 | .float64 | .boolean | .timestamp .microsecond _ | .timestamp .millisecond _ => true
  | _ => false

/-- The object of a row: of two columns of a name it has the last. -/
def rowObj (ch : ClickHouse) (row : TypedRow) : Dict String JsonValue :=
  (∅ : Dict String JsonValue).insertAll (row.map fun c => (c.1.name, ch.arrayValueToJson c.1.dataType c.2))

/-- The row as a table has it after the insert. -/
def written (ch : ClickHouse) (table : String) (row : TypedRow) : TypedRow :=
  row.map fun c => (c.1, ch.readCell table c.1.name (((ch.rowObj row).lookup c.1.name).getD .null))

variable {ch : ClickHouse} {row : TypedRow} {table : String}

theorem arrayValueToJson_of_unlisted {dataType : DataType} (h : isListed dataType = false) (cell : Cell) :
    ch.arrayValueToJson dataType cell = .null := by
  unfold isListed at h
  cases cell with
  | none => cases dataType <;> rfl
  | some v =>
    unfold arrayValueToJson
    split <;> first | rfl | cases h

theorem lookup_rowObj (hnames : (row.map (·.1.name)).Nodup) {c : Field × Cell} (hc : c ∈ row) :
    (ch.rowObj row).lookup c.1.name = some (ch.arrayValueToJson c.1.dataType c.2) := by
  refine Dict.lookup_insertAll_of_nodup ?_ (List.mem_map_of_mem hc)
  rwa [List.map_map]

theorem written_eq_iff (hnames : (row.map (·.1.name)).Nodup) : ch.written table row = row ↔
    ∀ c ∈ row, ch.readCell table c.1.name (ch.arrayValueToJson c.1.dataType c.2) = c.2 := by
  have hcell : ∀ c ∈ row, (c.1, ch.readCell table c.1.name (((ch.rowObj row).lookup c.1.name).getD .null)) = c ↔
      ch.readCell table c.1.name (ch.arrayValueToJson c.1.dataType c.2) = c.2 := by
    intro c hc
    rw [lookup_rowObj hnames hc, Option.getD_some]
    exact Prod.ext_iff.trans (and_iff_right rfl)
  have hid : ch.written table row = row ↔ ch.written table row = row.map id := by rw [List.map_id]
  exact hid.trans (List.map_inj_left.trans (forall₂_congr hcell))

theorem not_written_of_unlisted (hnames : (row.map (·.1.name)).Nodup) {field : Field} {v : Value}
    (hcell : (field, some v) ∈ row) (hlisted : isListed field.dataType = false)
    (hnull : ch.readCell table field.name .null = none) : ch.written table row ≠ row := by
  intro heq
  have hread := (written_eq_iff hnames).mp heq _ hcell
  rw [arrayValueToJson_of_unlisted hlisted, hnull] at hread
  cases hread

/-- A ClickHouse whose columns read every JSON value as it was sent, and no times. -/
def plain : ClickHouse where
  formatTimestamp _ _ _ := none
  readCell _ _
    | .int i => some (.int i)
    | .double bits => some (.bits bits)
    | .string s => some (.text s)
    | .bool b => some (.bits b.toNat)
    | _ => none

end ClickHouse

end Reiver.Pond
