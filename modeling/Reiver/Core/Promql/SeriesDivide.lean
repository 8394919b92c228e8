import Mathlib.Algebra.Order.Ring.Int
import Mathlib.Data.List.SplitBy

/-! # Series division

The model of `SeriesDivideStream` of `extension_plan/series_divide.rs`. A batch is the list of its rows, and the
cells of the tag columns are read from a row. What the stream still has to read is part of its state. -/

namespace Reiver.Core

/-- A slot of a `StringArray`: its text is there for a null too. -/
structure TagCell where
  text : String
  valid : Bool
deriving DecidableEq

def TagCell.tag (c : TagCell) : Option String := if c.valid then some c.text else none

structure TagColumns (R : Type) where
  tagIndices : List Nat
  cell : R → Nat → TagCell

section
variable {R : Type}

def TagColumns.tags (columns : TagColumns R) (row : R) : List (Option String) :=
  columns.tagIndices.map fun i => (columns.cell row i).tag

/-- Two rows compared as `tags_equal` compares them: by the texts, valid or not. -/
def TagColumns.textsEqual (columns : TagColumns R) (a b : R) : Bool :=
  columns.tagIndices.all fun i => (columns.cell a i).text = (columns.cell b i).text

/-- `tags_equal`; `value` panics on a row that is not there, if there is a column to read it from. -/
def tagsEqual (columns : TagColumns R) (buffer : List (List R)) (batchA rowA batchB rowB : Nat) : Option Bool :=
  if columns.tagIndices = [] then some true
  else
    (buffer[batchA]?.bind (·[rowA]?)).bind fun a =>
      (buffer[batchB]?.bind (·[rowB]?)).map fun b => columns.textsEqual a b

/-- `num_rows() - 1` of a `usize`, which panics where overflow is checked and wraps where it is not. -/
def lastRow (checked : Bool) (numRows : Nat) : Option Nat :=
  if numRows = 0 then if checked then none else some (2 ^ 64 - 1) else some (numRows - 1)

/-- One turn of the loops of `find_first_diff_row`: the cut before the row, if the row starts a series. -/
def inspectRow (checked : Bool) (columns : TagColumns R) (buffer : List (List R)) (batchIndex row : Nat) :
    Option (Option (Nat × Nat)) :=
  if row = 0 then
    if batchIndex = 0 then some none
    else
      (lastRow checked (buffer[batchIndex - 1]?.getD []).length).bind fun prevRow =>
        (tagsEqual columns buffer (batchIndex - 1) prevRow batchIndex row).map fun equal =>
          if equal then none else some (batchIndex - 1, prevRow)
  else
    (tagsEqual columns buffer batchIndex (row - 1) batchIndex row).map fun equal =>
      if equal then none else some (batchIndex, row - 1)

def inspectRows (checked : Bool) (columns : TagColumns R) (buffer : List (List R)) :
    List (Nat × Nat) → Option (Option (Nat × Nat))
  | [] => some none
  | (batchIndex, row) :: rest =>
    (inspectRow checked columns buffer batchIndex row).bind fun
      | some cut => some (some cut)
      | none => inspectRows checked columns buffer rest

def rowsOf (buffer : List (List R)) (batchIndex : Nat) : List (Nat × Nat) :=
  let startRow := if batchIndex = 0 then 1 else 0
  (List.range' startRow ((buffer[batchIndex]?.getD []).length - startRow)).map (batchIndex, ·)

def findFirstDiffRow (checked : Bool) (columns : TagColumns R) (buffer : List (List R)) (inspectStart : Nat) :
    Option (Option (Nat × Nat)) :=
  inspectRows checked columns buffer
    ((List.range' inspectStart (buffer.length - inspectStart)).flatMap (rowsOf buffer))

structure SeriesDivideStream (R : Type) where
  buffer : List (List R)
  inspectStart : Nat
  input : List (List R)

/-- How a turn of the loop of `poll_next` ends. -/
inductive PollTurn (R : Type) where
  | panic
  | finished
  | emit (batch : List R) (s : SeriesDivideStream R)
  | again (s : SeriesDivideStream R)

/-- The buffer in two, after a row of a batch. -/
def cutBuffer (buffer : List (List R)) (batchIndex rowIndex : Nat) : List (List R) × List (List R) :=
  let batch := buffer[batchIndex]?.getD []
  let secondHalf := batch.drop (rowIndex + 1)
  (buffer.take batchIndex ++ [batch.take (rowIndex + 1)],
    if secondHalf.length > 0 then secondHalf :: buffer.drop (batchIndex + 1) else buffer.drop (batchIndex + 1))

def SeriesDivideStream.turn (checked : Bool) (columns : TagColumns R) (s : SeriesDivideStream R) : PollTurn R :=
  match s.buffer with
  | [] =>
    match s.input with
    | [] => .finished
    | batch :: input => .again { s with buffer := [batch], input }
  | first :: others =>
    match findFirstDiffRow checked columns (first :: others) s.inspectStart with
    | none => .panic
    | some (some (batchIndex, rowIndex)) =>
      let halves := cutBuffer (first :: others) batchIndex rowIndex
      .emit halves.1.flatten { s with buffer := halves.2, inspectStart := 0 }
    | some none =>
      match s.input with
      | batch :: input =>
        .again
          { buffer := if batch.length ≠ 0 then first :: others ++ [batch] else first :: others
            inspectStart := others.length
            input }
      | [] => .emit (first :: others).flatten { buffer := [], inspectStart := 0, input := [] }

/-! ### Every turn gets on -/

variable {checked : Bool} {columns : TagColumns R} {buffer : List (List R)} {batchIndex rowIndex : Nat}

theorem tagsEqual_false {batchB rowB : Nat}
    (h : tagsEqual columns buffer batchIndex rowIndex batchB rowB = some false) :
    ∃ batch, buffer[batchIndex]? = some batch ∧ rowIndex < batch.length := by
  unfold tagsEqual at h
  split at h
  · cases h
  · obtain ⟨a, ha, -⟩ := Option.bind_eq_some_iff.mp h
    obtain ⟨batch, hbatch, hrow⟩ := Option.bind_eq_some_iff.mp ha
    exact ⟨batch, hbatch, (List.getElem?_eq_some_iff.mp hrow).1⟩

theorem inspectRow_cut {b row : Nat}
    (h : inspectRow checked columns buffer b row = some (some (batchIndex, rowIndex))) :
    ∃ batch, buffer[batchIndex]? = some batch ∧ rowIndex < batch.length := by
  have key : ∀ batchA rowA batchB rowB, (tagsEqual columns buffer batchA rowA batchB rowB).map (fun equal =>
      if equal then none else some (batchA, rowA)) = some (some (batchIndex, rowIndex)) →
      ∃ batch, buffer[batchIndex]? = some batch ∧ rowIndex < batch.length := by
    intro batchA rowA batchB rowB heq
    obtain ⟨equal, hequal, hcut⟩ := Option.map_eq_some_iff.mp heq
    cases equal with
    | true => cases hcut
    | false =>
      cases hcut
      exact tagsEqual_false hequal
  unfold inspectRow at h
  split at h
  · split at h
    · cases h
    · obtain ⟨prevRow, -, h⟩ := Option.bind_eq_some_iff.mp h
      exact key _ _ _ _ h
  · exact key _ _ _ _ h

theorem inspectRows_cut {rows : List (Nat × Nat)}
    (h : inspectRows checked columns buffer rows = some (some (batchIndex, rowIndex))) :
    ∃ batch, buffer[batchIndex]? = some batch ∧ rowIndex < batch.length := by
  induction rows with
  | nil => cases h
  | cons position rest ih =>
    obtain ⟨b, row⟩ := position
    obtain ⟨cut, hcut, h⟩ := Option.bind_eq_some_iff.mp h
    cases cut with
    | some cut =>
      cases h
      exact inspectRow_cut hcut
    | none => exact ih h

section Cut
variable {batch : List R} (hbatch : buffer[batchIndex]? = some batch)
include hbatch

theorem cutBuffer_fst : (cutBuffer buffer batchIndex rowIndex).1.flatten =
    (buffer.take batchIndex).flatten ++ batch.take (rowIndex + 1) := by
  simp [cutBuffer, hbatch]

theorem cutBuffer_snd : (cutBuffer buffer batchIndex rowIndex).2.flatten =
    batch.drop (rowIndex + 1) ++ (buffer.drop (batchIndex + 1)).flatten := by
  simp only [cutBuffer, hbatch, Option.getD_some]
  split
  · rw [List.flatten_cons]
  · next h => rw [List.eq_nil_of_length_eq_zero (Nat.eq_zero_of_not_pos h), List.nil_append]

theorem buffer_eq : buffer = buffer.take batchIndex ++ batch :: buffer.drop (batchIndex + 1) := by
  obtain ⟨hlt, hget⟩ := List.getElem?_eq_some_iff.mp hbatch
  rw [← hget, ← List.drop_eq_getElem_cons hlt, List.take_append_drop]

theorem cutBuffer_flatten (rowIndex : Nat) : (cutBuffer buffer batchIndex rowIndex).1.flatten ++
    (cutBuffer buffer batchIndex rowIndex).2.flatten = buffer.flatten := by
  rw [cutBuffer_fst hbatch, cutBuffer_snd hbatch, List.append_assoc, ← List.append_assoc (batch.take _),
    List.take_append_drop, ← List.flatten_cons, ← List.flatten_append, ← buffer_eq hbatch]

theorem length_cutBuffer (rowIndex : Nat) : (cutBuffer buffer batchIndex rowIndex).2.length ≤ buffer.length := by
  have hlt := (List.getElem?_eq_some_iff.mp hbatch).1
  simp only [cutBuffer, hbatch, Option.getD_some]
  split
  · rw [List.length_cons, List.length_drop]
    omega
  · rw [List.length_drop]
    omega

theorem cutBuffer_pos (hrow : rowIndex < batch.length) :
    (cutBuffer buffer batchIndex rowIndex).2.flatten.length < buffer.flatten.length := by
  rw [← cutBuffer_flatten hbatch rowIndex, List.length_append, cutBuffer_fst hbatch, List.length_append,
    List.length_take]
  omega

end Cut

def SeriesDivideStream.work (s : SeriesDivideStream R) : Nat := s.buffer.flatten.length + s.buffer.length

theorem turn_again {s s' : SeriesDivideStream R} (h : s.turn checked columns = .again s') :
    s'.input.length < s.input.length := by
  unfold SeriesDivideStream.turn at h
  split at h
  · split at h
    · cases h
    · next hinput =>
      cases h
      rw [hinput]
      exact Nat.lt_succ_self _
  · split at h
    · cases h
    · cases h
    · split at h
      · next hinput =>
        cases h
        rw [hinput]
        exact Nat.lt_succ_self _
      · cases h

theorem turn_emit {s s' : SeriesDivideStream R} {emitted : List R} (h : s.turn checked columns = .emit emitted s') :
    s'.input.length = s.input.length ∧ s'.work < s.work := by
  unfold SeriesDivideStream.turn at h
  split at h
  · split at h <;> cases h
  · next first others hbuffer =>
    split at h
    · cases h
    · next batchIndex rowIndex hcut =>
      cases h
      obtain ⟨batch, hbatch, hrow⟩ := inspectRows_cut hcut
      have hrows := cutBuffer_pos hbatch hrow
      have hbatches := length_cutBuffer hbatch rowIndex
      refine ⟨rfl, ?_⟩
      simp only [SeriesDivideStream.work, hbuffer]
      omega
    · split at h
      · cases h
      · next hinput =>
        cases h
        refine ⟨by rw [hinput], ?_⟩
        simp only [SeriesDivideStream.work, hbuffer, List.flatten_nil, List.length_nil, List.length_cons]
        omega

/-- What the stream emits when it is polled to its end, `none` where a poll panics. -/
def SeriesDivideStream.drain (checked : Bool) (columns : TagColumns R) (s : SeriesDivideStream R) :
    Option (List (List R)) :=
  match h : s.turn checked columns with
  | .panic => none
  | .finished => some []
  | .emit batch s' => (drain checked columns s').map (batch :: ·)
  | .again s' => drain checked columns s'
termination_by (s.input.length, s.work)
decreasing_by
  · exact Prod.Lex.right' _ (turn_emit h).1.le (turn_emit h).2
  · exact Prod.Lex.left _ _ (turn_again h)

/-- The stream over its input, polled to its end. -/
def seriesDivide (checked : Bool) (columns : TagColumns R) (input : List (List R)) : Option (List (List R)) :=
  SeriesDivideStream.drain checked columns { buffer := [], inspectStart := 0, input }

end

end Reiver.Core
