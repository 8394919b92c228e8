import Reiver.Core.Promql.SeriesDivide

/-! # One batch for each series

The stream splits its rows where two neighbours differ in the texts of their tags (`drain_eq`). It panics exactly
when an empty batch comes first and a row follows: later empty batches are left out of the buffer, the first is
not. Over sorted rows the split is one batch for each tag tuple, as long as no two neighbours are a null and the
text stored under it. -/

namespace Reiver.Core

section
variable {R : Type} {checked : Bool} {columns : TagColumns R} {buffer : List (List R)} {b row : Nat} {batch : List R}

/-! ### Inspecting the buffer -/

/-- A list of rows with one text in each tag column. -/
def OneSeries (columns : TagColumns R) (rows : List R) : Prop :=
  rows.IsChain fun x y => columns.textsEqual x y = true

theorem tagsEqual_eq {batchA rowA batchB rowB : Nat} {x y : R} (hx : buffer[batchA]?.bind (·[rowA]?) = some x)
    (hy : buffer[batchB]?.bind (·[rowB]?) = some y) :
    tagsEqual columns buffer batchA rowA batchB rowB = some (columns.textsEqual x y) := by
  unfold tagsEqual
  split
  · next hnone => rw [TagColumns.textsEqual, hnone, List.all_nil]
  · rw [hx, hy]
    rfl

/-- A cut ends a series at a row of the buffer: the next row has other tags. -/
def CutsSeries (columns : TagColumns R) (buffer : List (List R)) (cut : Nat × Nat) : Prop :=
  ∃ batch, buffer[cut.1]? = some batch ∧ cut.2 < batch.length ∧
    OneSeries columns ((buffer.take cut.1).flatten ++ batch.take (cut.2 + 1)) ∧
    ∃ x ∈ ((buffer.take cut.1).flatten ++ batch.take (cut.2 + 1)).getLast?,
      ∃ y ∈ (batch.drop (cut.2 + 1) ++ (buffer.drop (cut.1 + 1)).flatten).head?, columns.textsEqual x y = false

/-- Where the loops come to: a cut, or the end of the rows of one series. -/
def InspectEnds (columns : TagColumns R) (buffer : List (List R)) (seen : List R)
    (result : Option (Option (Nat × Nat))) : Prop :=
  (result = some none ∧ OneSeries columns seen) ∨ ∃ cut, result = some (some cut) ∧ CutsSeries columns buffer cut

theorem inspectRows_append (rows rows' : List (Nat × Nat)) : inspectRows checked columns buffer (rows ++ rows') =
    (inspectRows checked columns buffer rows).bind fun
      | some cut => some (some cut)
      | none => inspectRows checked columns buffer rows' := by
  induction rows with
  | nil => rfl
  | cons position rows ih =>
    obtain ⟨b, row⟩ := position
    rw [List.cons_append, inspectRows, inspectRows, Option.bind_assoc]
    refine congrArg _ (funext fun cut => ?_)
    cases cut with
    | some cut => rfl
    | none => exact ih

/-- The cut before a row falls behind the row that comes just before it in the buffer. -/
def CutBefore (buffer : List (List R)) (b row : Nat) (batch : List R) (cut : Nat × Nat) : Prop :=
  ∃ before, buffer[cut.1]? = some before ∧ cut.2 < before.length ∧
    (buffer.take cut.1).flatten ++ before.take (cut.2 + 1) = (buffer.take b).flatten ++ batch.take row ∧
    before.drop (cut.2 + 1) ++ (buffer.drop (cut.1 + 1)).flatten = batch.drop row ++ (buffer.drop (b + 1)).flatten

theorem flatten_take_succ (hbatch : buffer[b]? = some batch) :
    (buffer.take (b + 1)).flatten = (buffer.take b).flatten ++ batch := by
  rw [List.take_add_one, hbatch, List.flatten_append, Option.toList_some, List.flatten_singleton]

theorem inspectRow_eq (checked : Bool) (columns : TagColumns R) (hne : ∀ batch ∈ buffer, batch ≠ [])
    (hbatch : buffer[b]? = some batch) {x y : R} (hy : batch[row]? = some y)
    (hx : x ∈ ((buffer.take b).flatten ++ batch.take row).getLast?) :
    ∃ cut, inspectRow checked columns buffer b row = some (if columns.textsEqual x y then none else some cut) ∧
      CutBefore buffer b row batch cut := by
  have hyat : buffer[b]?.bind (·[row]?) = some y := by rw [hbatch, Option.bind_some, hy]
  cases row with
  | succ r =>
    obtain ⟨hlt, hget⟩ := List.getElem?_eq_some_iff.mp hy
    have hxr : batch[r]? = some x := by
      rw [List.take_succ_eq_append_getElem (Nat.lt_of_succ_lt hlt), ← List.append_assoc, List.getLast?_concat] at hx
      rw [List.getElem?_eq_getElem (Nat.lt_of_succ_lt hlt)]
      exact hx
    have hxat : buffer[b]?.bind (·[r]?) = some x := by rw [hbatch, Option.bind_some, hxr]
    refine ⟨(b, r), ?_, batch, hbatch, Nat.lt_of_succ_lt hlt, rfl, rfl⟩
    rw [inspectRow, if_neg (Nat.succ_ne_zero r), Nat.add_sub_cancel, tagsEqual_eq hxat hyat, Option.map_some]
  | zero =>
    rw [List.take_zero, List.append_nil] at hx
    cases b with
    | zero => cases hx
    | succ b =>
      have hlt : b < buffer.length := Nat.lt_of_succ_lt (List.getElem?_eq_some_iff.mp hbatch).1
      have hprev : buffer[b]? = some buffer[b] := List.getElem?_eq_getElem hlt
      have hpos : 0 < buffer[b].length := List.length_pos_of_ne_nil (hne _ (List.getElem_mem hlt))
      rw [flatten_take_succ hprev, List.getLast?_append_of_ne_nil _ (List.length_pos_iff.mp hpos),
        List.getLast?_eq_getElem?] at hx
      have hxat : buffer[b]?.bind (·[buffer[b].length - 1]?) = some x := by rw [hprev, Option.bind_some]; exact hx
      refine ⟨(b, buffer[b].length - 1), ?_, buffer[b], hprev, Nat.sub_lt hpos Nat.one_pos, ?_, ?_⟩
      · rw [inspectRow, if_pos rfl, if_neg (Nat.succ_ne_zero b), Nat.add_sub_cancel, hprev, Option.getD_some, lastRow,
          if_neg (Nat.ne_of_gt hpos), Option.bind_some, tagsEqual_eq hxat hyat, Option.map_some]
      · rw [Nat.sub_add_cancel hpos, List.take_length, List.take_zero, List.append_nil, flatten_take_succ hprev]
      · rw [Nat.sub_add_cancel hpos, List.drop_length, List.nil_append, List.drop_zero, ← List.flatten_cons]
        obtain ⟨hlt', hget⟩ := List.getElem?_eq_some_iff.mp hbatch
        rw [← hget, ← List.drop_eq_getElem_cons hlt']

theorem inspectRows_batch (hne : ∀ batch ∈ buffer, batch ≠ []) (hbatch : buffer[b]? = some batch) (k : Nat)
    (hk : row + k = batch.length) (hseen : (buffer.take b).flatten ++ batch.take row ≠ [])
    (hseries : OneSeries columns ((buffer.take b).flatten ++ batch.take row)) :
    InspectEnds columns buffer (buffer.take (b + 1)).flatten
      (inspectRows checked columns buffer ((List.range' row k).map (b, ·))) := by
  induction k generalizing row with
  | zero =>
    refine Or.inl ⟨rfl, ?_⟩
    have hrow : row = batch.length := hk
    rw [flatten_take_succ hbatch]
    rwa [hrow, List.take_length] at hseries
  | succ k ih =>
    have hlt : row < batch.length := by omega
    have hy : batch[row]? = some batch[row] := List.getElem?_eq_getElem hlt
    obtain ⟨x, hx⟩ := Option.isSome_iff_exists.mp (List.getLast?_isSome.mpr hseen)
    obtain ⟨cut, hinspect, before, hbefore, hcut, htake, hdrop⟩ :=
      inspectRow_eq checked columns hne hbatch hy hx
    rw [List.range'_succ, List.map_cons, inspectRows, hinspect, Option.bind_some]
    cases hequal : columns.textsEqual x batch[row] with
    | true =>
      have hextended : (buffer.take b).flatten ++ batch.take (row + 1) =
          (buffer.take b).flatten ++ batch.take row ++ [batch[row]] := by
        rw [List.take_succ_eq_append_getElem hlt, List.append_assoc]
      refine ih (by omega) ?_ ?_
      · rw [hextended]
        exact List.append_ne_nil_of_right_ne_nil _ (List.cons_ne_nil _ _)
      · rw [hextended, OneSeries, List.isChain_append]
        refine ⟨hseries, List.isChain_singleton _, fun x' hx' y' hy' => ?_⟩
        cases Option.some.inj (hx'.symm.trans hx)
        cases Option.some.inj hy'
        exact hequal
    | false =>
      refine Or.inr ⟨cut, rfl, before, hbefore, hcut, htake ▸ hseries, x, htake ▸ hx, batch[row], ?_, hequal⟩
      rw [hdrop, List.drop_eq_getElem_cons hlt]
      rfl

theorem inspectRows_rowsOf (checked : Bool) (hne : ∀ batch ∈ buffer, batch ≠ []) (hbatch : buffer[b]? = some batch)
    (hseries : OneSeries columns (buffer.take b).flatten) :
    InspectEnds columns buffer (buffer.take (b + 1)).flatten
      (inspectRows checked columns buffer (rowsOf buffer b)) := by
  have hpos : 0 < batch.length := List.length_pos_of_ne_nil (hne batch (List.mem_of_getElem? hbatch))
  rw [rowsOf, hbatch, Option.getD_some]
  cases b with
  | zero =>
    rw [if_pos rfl]
    refine inspectRows_batch hne hbatch _ (Nat.add_sub_cancel' hpos) ?_ ?_
    · rw [List.take_zero, List.flatten_nil, List.nil_append]
      exact List.ne_nil_of_length_pos (by rw [List.length_take]; omega)
    · rw [List.take_zero, List.flatten_nil, List.nil_append, List.take_one]
      cases batch.head? with
      | none => exact List.isChain_nil
      | some x => exact List.isChain_singleton x
  | succ b =>
    have hlt : b < buffer.length := Nat.lt_of_succ_lt (List.getElem?_eq_some_iff.mp hbatch).1
    have hprev : buffer[b]? = some buffer[b] := List.getElem?_eq_getElem hlt
    rw [if_neg (Nat.succ_ne_zero b), Nat.sub_zero]
    refine inspectRows_batch hne hbatch _ (Nat.zero_add _) ?_ ?_
    · rw [List.take_zero, List.append_nil, flatten_take_succ hprev]
      exact List.append_ne_nil_of_right_ne_nil _ (hne _ (List.getElem_mem hlt))
    · rwa [List.take_zero, List.append_nil]

theorem findFirstDiffRow_spec (checked : Bool) (hne : ∀ batch ∈ buffer, batch ≠ []) {inspectStart : Nat}
    (hstart : inspectStart ≤ buffer.length) (hseries : OneSeries columns (buffer.take inspectStart).flatten) :
    InspectEnds columns buffer buffer.flatten (findFirstDiffRow checked columns buffer inspectStart) := by
  have key : ∀ k b, b + k = buffer.length → OneSeries columns (buffer.take b).flatten →
      InspectEnds columns buffer buffer.flatten
        (inspectRows checked columns buffer ((List.range' b k).flatMap (rowsOf buffer))) := by
    intro k
    induction k with
    | zero =>
      intro b hb hseries
      have hall : b = buffer.length := hb
      rw [hall, List.take_length] at hseries
      exact Or.inl ⟨rfl, hseries⟩
    | succ k ih =>
      intro b hb hseries
      have hbatch : buffer[b]? = some buffer[b] := List.getElem?_eq_getElem (by omega)
      rw [List.range'_succ, List.flatMap_cons, inspectRows_append]
      rcases inspectRows_rowsOf checked hne hbatch hseries with ⟨hresult, hseries'⟩ | ⟨cut, hresult, hcut⟩
      · rw [hresult]
        exact ih (b + 1) (by omega) hseries'
      · rw [hresult]
        exact Or.inr ⟨cut, rfl, hcut⟩
  exact key _ _ (Nat.add_sub_cancel' hstart) hseries

/-! ### Draining the stream -/

/-- The batches of the buffer have rows, and those before `inspect_start` are of one series. -/
structure Ready (columns : TagColumns R) (s : SeriesDivideStream R) : Prop where
  rows : ∀ batch ∈ s.buffer, batch ≠ []
  start : s.inspectStart ≤ s.buffer.length
  series : OneSeries columns (s.buffer.take s.inspectStart).flatten

theorem oneSeries_prefix {rows rows' : List R} (h : OneSeries columns (rows ++ rows')) : OneSeries columns rows :=
  (List.isChain_append.mp h).1

theorem splitBy_cut {cut : Nat × Nat} (hcut : CutsSeries columns buffer cut) (later : List R) :
    (buffer.flatten ++ later).splitBy columns.textsEqual =
      (cutBuffer buffer cut.1 cut.2).1.flatten ::
        ((cutBuffer buffer cut.1 cut.2).2.flatten ++ later).splitBy columns.textsEqual := by
  obtain ⟨batch, hbatch, -, hseries, x, hx, y, hy, hdiffer⟩ := hcut
  rw [← cutBuffer_fst hbatch] at hseries hx
  rw [← cutBuffer_snd hbatch] at hy
  have hne : (cutBuffer buffer cut.1 cut.2).1.flatten ≠ [] := fun hnil => by rw [hnil] at hx; cases hx
  rw [← cutBuffer_flatten hbatch cut.2, List.append_assoc, List.splitBy_append,
    List.splitBy_of_isChain hne hseries, List.singleton_append]
  intro x' hx' y' hy'
  rw [List.head?_append, Option.mem_def.mp hy, Option.some_or] at hy'
  cases Option.some.inj (hx.symm.trans hx')
  cases Option.some.inj hy'
  exact hdiffer

theorem ready_cut {cut : Nat × Nat} {input : List (List R)} (hne : ∀ batch ∈ buffer, batch ≠ []) :
    Ready columns { buffer := (cutBuffer buffer cut.1 cut.2).2, inspectStart := 0, input } := by
  refine ⟨fun batch hmem => ?_, Nat.zero_le _, List.isChain_nil⟩
  simp only [cutBuffer] at hmem
  split at hmem
  · next hpos =>
    rcases List.mem_cons.mp hmem with rfl | hmem
    · exact List.ne_nil_of_length_pos hpos
    · exact hne batch (List.mem_of_mem_drop hmem)
  · exact hne batch (List.mem_of_mem_drop hmem)

section Drain
variable {s s' : SeriesDivideStream R}

theorem drain_emit {emitted : List R} (h : s.turn checked columns = .emit emitted s') :
    s.drain checked columns = (s'.drain checked columns).map (emitted :: ·) := by
  rw [SeriesDivideStream.drain]
  split <;> rename_i hturn <;> cases h.symm.trans hturn
  rfl

theorem drain_again (h : s.turn checked columns = .again s') :
    s.drain checked columns = s'.drain checked columns := by
  rw [SeriesDivideStream.drain]
  split <;> rename_i hturn <;> cases h.symm.trans hturn
  rfl

theorem drain_panic (h : s.turn checked columns = .panic) : s.drain checked columns = none := by
  rw [SeriesDivideStream.drain]
  split <;> rename_i hturn <;> cases h.symm.trans hturn
  rfl

theorem drain_finished (checked : Bool) (columns : TagColumns R) (inspectStart : Nat) :
    SeriesDivideStream.drain checked columns { buffer := [], inspectStart, input := [] } = some [] := by
  rw [SeriesDivideStream.drain]
  rfl

theorem flatten_push (buffer : List (List R)) (batch : List R) :
    (if batch.length ≠ 0 then buffer ++ [batch] else buffer).flatten = buffer.flatten ++ batch := by
  split
  · rw [List.flatten_append, List.flatten_singleton]
  · next h => rw [List.eq_nil_of_length_eq_zero (not_not.mp h), List.append_nil]

theorem turn_more {first batch : List R} {others input : List (List R)} (hbuffer : s.buffer = first :: others)
    (hfind : findFirstDiffRow checked columns (first :: others) s.inspectStart = some none)
    (hinput : s.input = batch :: input) :
    s.turn checked columns =
      .again
        { buffer := if batch.length ≠ 0 then first :: others ++ [batch] else first :: others
          inspectStart := others.length
          input } := by
  rw [SeriesDivideStream.turn, hbuffer, hinput]
  simp only [hfind]

theorem turn_last {first : List R} {others : List (List R)} (hbuffer : s.buffer = first :: others)
    (hfind : findFirstDiffRow checked columns (first :: others) s.inspectStart = some none) (hinput : s.input = []) :
    s.turn checked columns =
      .emit (first :: others).flatten { buffer := [], inspectStart := 0, input := [] } := by
  rw [SeriesDivideStream.turn, hbuffer, hinput]
  simp only [hfind]

theorem turn_cut {first : List R} {others : List (List R)} {cut : Nat × Nat} (hbuffer : s.buffer = first :: others)
    (hfind : findFirstDiffRow checked columns (first :: others) s.inspectStart = some (some cut)) :
    s.turn checked columns = .emit (cutBuffer (first :: others) cut.1 cut.2).1.flatten
      { s with buffer := (cutBuffer (first :: others) cut.1 cut.2).2, inspectStart := 0 } := by
  rw [SeriesDivideStream.turn, hbuffer]
  simp only [hfind]

/-- Once the buffer has rows, the stream splits what it holds and what it has still to read. -/
theorem drain_eq {s : SeriesDivideStream R} (hready : Ready columns s) (hbuffer : s.buffer ≠ []) :
    s.drain checked columns = some ((s.buffer.flatten ++ s.input.flatten).splitBy columns.textsEqual) := by
  obtain ⟨first, others, hcons⟩ := List.exists_cons_of_ne_nil hbuffer
  have hfind := findFirstDiffRow_spec checked hready.rows hready.start hready.series
  rw [hcons] at hfind ⊢
  rcases hfind with ⟨hfind, hseries⟩ | ⟨cut, hfind, hcut⟩
  · have hne : (first :: others).flatten ≠ [] := by
      have hfirst := hready.rows first (hcons ▸ List.mem_cons_self)
      exact List.append_ne_nil_of_left_ne_nil hfirst _
    cases hinput : s.input with
    | nil =>
      rw [drain_emit (turn_last hcons hfind hinput), drain_finished, List.flatten_nil, List.append_nil,
        List.splitBy_of_isChain hne hseries]
      rfl
    | cons batch input =>
      have hnext : Ready columns
          { buffer := if batch.length ≠ 0 then first :: others ++ [batch] else first :: others
            inspectStart := others.length
            input } := by
        refine ⟨fun x hx => ?_, ?_, ?_⟩
        · dsimp only at hx
          split at hx
          · next hlength =>
            rcases List.mem_append.mp hx with hx | hx
            · exact hready.rows x (hcons ▸ hx)
            · exact List.mem_singleton.mp hx ▸ List.ne_nil_of_length_pos (Nat.pos_of_ne_zero hlength)
          · exact hready.rows x (hcons ▸ hx)
        · dsimp only
          split
          · exact (Nat.le_succ _).trans (Nat.le_succ _ |>.trans (by simp))
          · exact Nat.le_succ _
        · have htake : (if batch.length ≠ 0 then first :: others ++ [batch] else first :: others).take others.length =
              (first :: others).take others.length := by
            split
            · exact List.take_append_of_le_length (Nat.le_succ _)
            · rfl
          rw [htake]
          have hall : OneSeries columns (((first :: others).take others.length).flatten ++
              ((first :: others).drop others.length).flatten) := by
            rwa [← List.flatten_append, List.take_append_drop]
          exact oneSeries_prefix hall
      have hsome : (if batch.length ≠ 0 then first :: others ++ [batch] else first :: others) ≠ [] := by
        split <;> exact List.cons_ne_nil _ _
      rw [drain_again (turn_more hcons hfind hinput), drain_eq hnext hsome]
      dsimp only
      rw [flatten_push, List.append_assoc]
      rfl
  · have hturn := turn_cut hcons hfind
    have hnext : Ready columns { s with buffer := (cutBuffer (first :: others) cut.1 cut.2).2, inspectStart := 0 } :=
      ready_cut (hcons ▸ hready.rows)
    have hsome : (cutBuffer (first :: others) cut.1 cut.2).2 ≠ [] := by
      intro hnil
      obtain ⟨batch, hbatch, -, -, x, -, y, hy, -⟩ := hcut
      rw [← cutBuffer_snd hbatch, hnil] at hy
      cases hy
    rw [drain_emit hturn, splitBy_cut hcut, drain_eq hnext hsome, Option.map_some]
termination_by (s.input.length, s.work)
decreasing_by
  · exact Prod.Lex.left _ _ (hinput ▸ Nat.lt_succ_self _)
  · exact Prod.Lex.right' _ (turn_emit hturn).1.le (turn_emit hturn).2

/-! ### An empty batch first -/

theorem findFirstDiffRow_untagged (hnone : columns.tagIndices = []) (buffer : List (List R)) (inspectStart : Nat) :
    findFirstDiffRow false columns buffer inspectStart = some none := by
  have hrow : ∀ b row, inspectRow false columns buffer b row = some none := by
    intro b row
    have hequal : ∀ batchA rowA batchB rowB, tagsEqual columns buffer batchA rowA batchB rowB = some true :=
      fun _ _ _ _ => if_pos hnone
    unfold inspectRow
    simp only [hequal, Option.map_some, if_true]
    split
    · split
      · rfl
      · rw [lastRow]
        split <;> rfl
    · rfl
  unfold findFirstDiffRow
  generalize (List.range' inspectStart (buffer.length - inspectStart)).flatMap (rowsOf buffer) = rows
  induction rows with
  | nil => rfl
  | cons position rows ih =>
    obtain ⟨b, row⟩ := position
    rw [inspectRows, hrow, Option.bind_some]
    exact ih

theorem drain_untagged {s : SeriesDivideStream R} (hnone : columns.tagIndices = []) (hbuffer : s.buffer ≠ []) :
    s.drain false columns = some [s.buffer.flatten ++ s.input.flatten] := by
  obtain ⟨first, others, hcons⟩ := List.exists_cons_of_ne_nil hbuffer
  have hfind := findFirstDiffRow_untagged hnone (first :: others) s.inspectStart
  cases hinput : s.input with
  | nil =>
    rw [drain_emit (turn_last hcons hfind hinput), drain_finished, List.flatten_nil, List.append_nil, hcons]
    rfl
  | cons batch input =>
    have hsome : (if batch.length ≠ 0 then first :: others ++ [batch] else first :: others) ≠ [] := by
      split <;> exact List.cons_ne_nil _ _
    rw [drain_again (turn_more hcons hfind hinput), drain_untagged hnone hsome, hcons]
    dsimp only
    rw [flatten_push, List.append_assoc]
    rfl
termination_by (s.input.length, s.work)
decreasing_by exact Prod.Lex.left _ _ (hinput ▸ Nat.lt_succ_self _)

theorem inspectRow_afterEmpty (buffer : List (List R)) (hpanic : checked = true ∨ columns.tagIndices ≠ []) :
    inspectRow checked columns ([] :: buffer) 1 0 = none := by
  have hmissing : ∀ rowA batchB rowB, columns.tagIndices ≠ [] →
      tagsEqual columns ([] :: buffer) 0 rowA batchB rowB = none := by
    intro rowA batchB rowB htags
    rw [tagsEqual, if_neg htags]
    rfl
  show (lastRow checked 0).bind _ = none
  rw [lastRow, if_pos rfl]
  cases checked with
  | true => rfl
  | false =>
    have htags : columns.tagIndices ≠ [] := hpanic.resolve_left (fun h => nomatch h)
    rw [if_neg Bool.false_ne_true, Option.bind_some, hmissing _ _ _ htags, Option.map_none]

theorem drain_leadingEmpty (hpanic : checked = true ∨ columns.tagIndices ≠ []) (input : List (List R)) :
    SeriesDivideStream.drain checked columns { buffer := [[]], inspectStart := 0, input } =
      if input.flatten = [] then some [[]] else none := by
  have hfind : findFirstDiffRow checked columns [([] : List R)] 0 = some none := rfl
  induction input with
  | nil =>
    have hturn : SeriesDivideStream.turn checked columns ⟨[[]], 0, []⟩ = _ := turn_last (R := R) rfl hfind rfl
    rw [drain_emit hturn, drain_finished]
    rfl
  | cons batch input ih =>
    have hturn : SeriesDivideStream.turn checked columns ⟨[[]], 0, batch :: input⟩ = _ := turn_more rfl hfind rfl
    rw [drain_again hturn]
    cases batch with
    | nil => exact ih
    | cons row batch =>
      have hsome : ((row :: batch) :: input).flatten ≠ [] := List.cons_ne_nil _ _
      rw [if_neg hsome]
      refine drain_panic (s := ⟨[[], row :: batch], 0, input⟩) ?_
      have hlast : findFirstDiffRow checked columns [[], row :: batch] 0 = none := by
        have hrow := inspectRow_afterEmpty [row :: batch] hpanic
        show (inspectRow checked columns [[], row :: batch] 1 0).bind _ = none
        rw [hrow]
        rfl
      rw [SeriesDivideStream.turn]
      simp only [hlast]

/-- An empty batch comes first and a row follows, and something reads or checks the row before it. -/
def LeadingEmpty (checked : Bool) (columns : TagColumns R) (input : List (List R)) : Prop :=
  input.head? = some [] ∧ input.flatten ≠ [] ∧ (checked = true ∨ columns.tagIndices ≠ [])

end Drain

theorem seriesDivide_cons (batch : List R) (input : List (List R)) : seriesDivide checked columns (batch :: input) =
    SeriesDivideStream.drain checked columns { buffer := [batch], inspectStart := 0, input } := by
  have hturn : SeriesDivideStream.turn checked columns ⟨[], 0, batch :: input⟩ = .again ⟨[batch], 0, input⟩ := rfl
  exact drain_again hturn

theorem oneSeries_untagged (hnone : columns.tagIndices = []) (rows : List R) : OneSeries columns rows := by
  refine (List.pairwise_of_forall fun x y => ?_).isChain
  rw [TagColumns.textsEqual, hnone, List.all_nil]

theorem seriesDivide_eq (checked : Bool) (columns : TagColumns R) (input : List (List R)) :
    (LeadingEmpty checked columns input →
      seriesDivide checked columns input = none) ∧
    (¬LeadingEmpty checked columns input → seriesDivide checked columns input =
      some (if input.flatten = [] then input.take 1 else input.flatten.splitBy columns.textsEqual)) := by
  cases input with
  | nil =>
    refine ⟨fun h => absurd h.1 (fun hnil => nomatch hnil), fun _ => ?_⟩
    exact drain_finished checked columns 0
  | cons batch input =>
    rw [seriesDivide_cons]
    cases batch with
    | cons row batch =>
      refine ⟨fun h => absurd h.1 (by simp), fun _ => ?_⟩
      have hready : Ready columns ⟨[row :: batch], 0, input⟩ :=
        ⟨fun x hx => List.mem_singleton.mp hx ▸ List.cons_ne_nil _ _, Nat.zero_le _, List.isChain_nil⟩
      have hsome : ((row :: batch) :: input).flatten ≠ [] := List.cons_ne_nil _ _
      rw [drain_eq hready (List.cons_ne_nil _ _), if_neg hsome]
      simp
    | nil =>
      by_cases hpanic : checked = true ∨ columns.tagIndices ≠ []
      · rw [drain_leadingEmpty hpanic]
        constructor
        · exact fun h => if_neg h.2.1
        · intro h
          have hflatten : input.flatten = [] := by
            by_contra hsome
            exact h ⟨rfl, hsome, hpanic⟩
          rw [if_pos hflatten, if_pos (show ([] :: input).flatten = [] from hflatten)]
          rfl
      · refine ⟨fun h => absurd h.2.2 hpanic, fun _ => ?_⟩
        obtain ⟨hchecked, htags⟩ := not_or.mp hpanic
        have hnone := not_not.mp htags
        obtain rfl := Bool.not_eq_true _ ▸ hchecked
        rw [drain_untagged hnone (List.cons_ne_nil _ _)]
        show some [input.flatten] = some (if input.flatten = [] then _ else input.flatten.splitBy _)
        split
        · next hflatten => rw [hflatten]; rfl
        · next hsome => rw [List.splitBy_of_isChain hsome (oneSeries_untagged hnone _)]

end

/-! ### Groups of sorted rows -/

section Groups
variable {R T : Type} {f : R → T} {le : T → T → Prop} {groups : List (List R)}

theorem pairwise_groups (hanti : ∀ a b, le a b → le b a → a = b) (hne : [] ∉ groups)
    (hone : ∀ group ∈ groups, ∀ x ∈ group, ∀ y ∈ group, f x = f y)
    (hborder : groups.IsChain fun a b => ∀ x ∈ a.getLast?, ∀ y ∈ b.head?, f x ≠ f y)
    (hsorted : groups.flatten.Pairwise fun x y => le (f x) (f y)) :
    groups.Pairwise fun a b => ∀ x ∈ a, ∀ y ∈ b, f x ≠ f y := by
  induction groups with
  | nil => exact List.Pairwise.nil
  | cons group rest ih =>
    obtain ⟨hfirst, hrest⟩ := not_or.mp (fun h => hne (List.mem_cons.mpr h))
    rw [List.flatten_cons, List.pairwise_append] at hsorted
    obtain ⟨-, hlater, hacross⟩ := hsorted
    have htail := ih hrest (fun g hg => hone g (List.mem_cons_of_mem _ hg)) hborder.tail hlater
    refine List.Pairwise.cons (fun other hother x hx y hy heq => ?_) htail
    cases rest with
    | nil => cases hother
    | cons next rest =>
      obtain ⟨first, later, rfl⟩ := List.exists_cons_of_ne_nil fun hnil => hrest (hnil ▸ List.mem_cons_self)
      obtain ⟨last, hlast⟩ := Option.isSome_iff_exists.mp (List.getLast?_isSome.mpr (Ne.symm hfirst))
      have hlastmem : last ∈ group := List.mem_of_getLast? hlast
      have hymem : y ∈ ((first :: later) :: rest).flatten := List.mem_flatten_of_mem hother hy
      have hxfirst : le (f x) (f first) := hacross x hx first List.mem_cons_self
      have hsame : f x = f first := by
        rw [List.flatten_cons, List.cons_append] at hymem hlater
        rcases List.mem_cons.mp hymem with rfl | hymem
        · exact heq
        · exact hanti _ _ hxfirst (heq ▸ (List.pairwise_cons.mp hlater).1 y hymem)
      have hdiffer := (List.isChain_cons_cons.mp hborder).1 last hlast first rfl
      exact hdiffer ((hone group List.mem_cons_self last hlastmem x hx).trans hsame)

theorem const_of_isChain {group : List R} (h : group.IsChain fun x y => f x = f y) :
    ∀ x ∈ group, ∀ y ∈ group, f x = f y := by
  induction group with
  | nil => exact fun x hx => nomatch hx
  | cons a rest ih =>
    have hhead : ∀ x ∈ rest, f a = f x := by
      intro x hx
      cases rest with
      | nil => cases hx
      | cons b rest =>
        have hab := (List.isChain_cons_cons.mp h).1
        exact hab.trans (ih h.tail b List.mem_cons_self x hx)
    have hall : ∀ x ∈ a :: rest, f a = f x := fun x hx => (List.mem_cons.mp hx).elim (fun heq => heq ▸ rfl) (hhead x)
    exact fun x hx y hy => (hall x hx).symm.trans (hall y hy)

end Groups

/-! ### One batch for each tag tuple -/

section Partition
variable {R : Type} {checked : Bool} {columns : TagColumns R}

/-- The batches are the rows in order, one tag tuple to a batch and one batch to a tag tuple. -/
structure FaithfulPartition (columns : TagColumns R) (rows : List R) (out : List (List R)) : Prop where
  rows : out.flatten = rows
  one : ∀ batch ∈ out, batch ≠ [] → ∃ tags, ∀ row ∈ batch, columns.tags row = tags
  distinct : out.Pairwise fun a b => ∀ x ∈ a, ∀ y ∈ b, columns.tags x ≠ columns.tags y

/-- Neighbouring rows have one text in each tag column exactly when they have the same tags: no null meets its
    stored text, nor another. -/
def TextsTell (columns : TagColumns R) (rows : List R) : Prop :=
  rows.IsChain fun x y => columns.textsEqual x y = true ↔ columns.tags x = columns.tags y

theorem isChain_and {S S' S'' : R → R → Prop} {rows : List R} (himp : ∀ x y, S x y → S' x y → S'' x y)
    (h : rows.IsChain S) (h' : rows.IsChain S') : rows.IsChain S'' := by
  rw [List.isChain_iff_forall_rel_of_append_cons_cons] at h h' ⊢
  exact fun x y before after heq => himp x y (h heq) (h' heq)

theorem faithful_splitBy_iff {le : List (Option String) → List (Option String) → Prop} {rows : List R}
    (hanti : ∀ a b, le a b → le b a → a = b) (hsorted : rows.Pairwise fun x y => le (columns.tags x) (columns.tags y)) :
    FaithfulPartition columns rows (rows.splitBy columns.textsEqual) ↔ TextsTell columns rows := by
  have hflatten : (rows.splitBy columns.textsEqual).flatten = rows := List.flatten_splitBy _ rows
  have hnil : [] ∉ rows.splitBy columns.textsEqual := List.nil_notMem_splitBy _ rows
  have hgroups : ∀ group ∈ rows.splitBy columns.textsEqual, OneSeries columns group := fun group hgroup =>
    List.isChain_of_mem_splitBy hgroup
  have hborders := List.isChain_getLast_head_splitBy columns.textsEqual rows
  have htells := List.isChain_flatten (R := fun x y => columns.textsEqual x y = true ↔ columns.tags x = columns.tags y)
    hnil
  rw [hflatten] at htells
  constructor
  · rintro ⟨-, hone, hdistinct⟩
    refine htells.mpr ⟨fun group hgroup => ?_, ?_⟩
    · obtain ⟨tags, htags⟩ := hone group hgroup (List.ne_nil_of_mem_splitBy hgroup)
      refine (hgroups group hgroup).imp_of_mem_imp fun x y hx hy hequal => iff_of_true hequal ?_
      exact (htags x hx).trans (htags y hy).symm
    · refine isChain_and (fun a b hborder hne x hx y hy => ?_) hborders hdistinct.isChain
      obtain ⟨ha, hb, hdiffer⟩ := hborder
      rw [List.getLast?_eq_some_getLast ha] at hx
      rw [List.head?_eq_some_head hb] at hy
      cases Option.some.inj hx
      cases Option.some.inj hy
      refine iff_of_false (fun hequal => ?_) (hne _ (List.getLast_mem ha) _ (List.head_mem hb))
      rw [hdiffer] at hequal
      cases hequal
  · intro htexts
    obtain ⟨hinside, hacross⟩ := htells.mp htexts
    have hone : ∀ group ∈ rows.splitBy columns.textsEqual, ∀ x ∈ group, ∀ y ∈ group,
        columns.tags x = columns.tags y := fun group hgroup =>
      const_of_isChain (isChain_and (fun x y hequal htell => htell.mp hequal) (hgroups group hgroup)
        (hinside group hgroup))
    refine ⟨hflatten, fun group hgroup hne => ?_, ?_⟩
    · obtain ⟨x, hx⟩ := List.exists_mem_of_ne_nil group hne
      exact ⟨columns.tags x, fun y hy => hone group hgroup y hy x hx⟩
    · refine pairwise_groups hanti hnil hone ?_ (hflatten.symm ▸ hsorted)
      refine isChain_and (fun a b hborder htell x hx y hy htags => ?_) hborders hacross
      obtain ⟨ha, hb, hdiffer⟩ := hborder
      have hequal := (htell x hx y hy).mpr htags
      rw [List.getLast?_eq_some_getLast ha] at hx
      rw [List.head?_eq_some_head hb] at hy
      cases Option.some.inj hx
      cases Option.some.inj hy
      rw [hdiffer] at hequal
      cases hequal

/-- Over rows sorted by their tags, in any order of the tag tuples. -/
theorem seriesDivide_faithful_iff {le : List (Option String) → List (Option String) → Prop}
    (hanti : ∀ a b, le a b → le b a → a = b) {input : List (List R)}
    (hsorted : input.flatten.Pairwise fun x y => le (columns.tags x) (columns.tags y)) :
    (∃ out ∈ seriesDivide checked columns input, FaithfulPartition columns input.flatten out) ↔
      ¬LeadingEmpty checked columns input ∧ TextsTell columns input.flatten := by
  obtain ⟨hempty, hrun⟩ := seriesDivide_eq checked columns input
  by_cases hleading : LeadingEmpty checked columns input
  · rw [hempty hleading]
    exact iff_of_false (fun ⟨_, hout, _⟩ => nomatch hout) fun h => h.1 hleading
  · simp only [hrun hleading, Option.mem_some_iff, exists_eq_left', and_iff_right hleading]
    split
    · next hflatten =>
      have hblank : ∀ batch ∈ input.take 1, batch = [] := fun batch hbatch =>
        List.flatten_eq_nil_iff.mp hflatten batch (List.mem_of_mem_take hbatch)
      rw [hflatten]
      refine iff_of_true ⟨List.flatten_eq_nil_iff.mpr hblank, ?_, ?_⟩ List.isChain_nil
      · exact fun batch hbatch hne => (hne (hblank batch hbatch)).elim
      · cases input with
        | nil => exact List.Pairwise.nil
        | cons batch input => exact List.pairwise_singleton _ _
    · exact faithful_splitBy_iff hanti hsorted

end Partition

/-! ### The order of the plan -/

def tagLt : Option String → Option String → Prop
  | none, some _ => True
  | some a, some b => a < b
  | _, none => False

def tagsLe : List (Option String) → List (Option String) → Prop
  | [], _ => True
  | _ :: _, [] => False
  | a :: as, b :: bs => tagLt a b ∨ a = b ∧ tagsLe as bs

theorem tagLt_asymm {a b : Option String} (h : tagLt a b) : ¬tagLt b a := by
  cases b with
  | none =>
    cases a with
    | none => exact h.elim
    | some a => exact h.elim
  | some b =>
    cases a with
    | none => exact id
    | some a => exact String.lt_asymm h

theorem tagsLe_antisymm : ∀ a b : List (Option String), tagsLe a b → tagsLe b a → a = b
  | [], [], _, _ => rfl
  | [], _ :: _, _, h => h.elim
  | _ :: _, [], h, _ => h.elim
  | a :: as, b :: bs, h, h' => by
    rcases h with hlt | ⟨rfl, h⟩
    · rcases h' with hlt' | ⟨rfl, -⟩
      · exact (tagLt_asymm hlt hlt').elim
      · exact (tagLt_asymm hlt hlt).elim
    · rcases h' with hlt' | ⟨-, h'⟩
      · exact (tagLt_asymm hlt' hlt').elim
      · rw [tagsLe_antisymm as bs h h']

/-- Samples with one label: the value of the label and a number. -/
def jobColumns : TagColumns (Option String × Nat) where
  tagIndices := [0]
  cell row _ := ⟨row.1.getD "", row.1.isSome⟩

/-- Two series over three batches, one of them empty, the first series over two. -/
def jobBatches : List (List (Option String × Nat)) := [[(some "api", 1)], [], [(some "api", 2), (some "db", 3)]]

theorem seriesDivide_faithful_iff_jobs :
    (∃ out ∈ seriesDivide false jobColumns jobBatches, FaithfulPartition jobColumns jobBatches.flatten out) ↔
      ¬LeadingEmpty false jobColumns jobBatches ∧ TextsTell jobColumns jobBatches.flatten := by
  refine seriesDivide_faithful_iff tagsLe_antisymm ?_
  have hlt : tagLt (some "api") (some "db") := (by decide : "api" < "db")
  have hafter : ∀ n : Nat, tagsLe (jobColumns.tags (some "api", n)) (jobColumns.tags (some "db", 3)) :=
    fun _ => Or.inl hlt
  have hsame : tagsLe (jobColumns.tags (some "api", 1)) (jobColumns.tags (some "api", 2)) := Or.inr ⟨rfl, trivial⟩
  refine List.Pairwise.cons ?_ (List.Pairwise.cons ?_ (List.pairwise_singleton _ _))
  · exact List.forall_mem_cons.mpr ⟨hsame, List.forall_mem_singleton.mpr (hafter 1)⟩
  · exact List.forall_mem_singleton.mpr (hafter 2)

/-- The batch before the first row is empty: the row before it is looked up there. -/
theorem leadingEmpty_panics : ¬∃ out ∈ seriesDivide false jobColumns [[], [(some "api", 1)]],
    FaithfulPartition jobColumns [(some "api", 1)] out := by
  have hnone : seriesDivide false jobColumns [[], [(some "api", 1)]] = none :=
    (seriesDivide_eq _ _ _).1 ⟨rfl, List.cons_ne_nil _ _, Or.inr (List.cons_ne_nil _ _)⟩
  rintro ⟨out, hout, -⟩
  rw [hnone] at hout
  cases hout

end Reiver.Core
