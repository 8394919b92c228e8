import Reiver.Pond.Query.DateExtraction
import Reiver.Pond.Query.DateRangeFiles
import Reiver.Pond.Query.SkipSound

/-! # Ranges that hold the dates of accepted rows

The range that is read off a condition is the intersection of all bounds of its column. It holds the date of a row that
the condition is true of, and the keys of its months hold that of the row, exactly if the bounds that were read through
a function hold of the date itself and an open range does not end before it (`rangeSound_iff`). -/

namespace Reiver.Pond

variable {V : Type} {E : SqlEngine V} {row : String → V} {U : Unicode} {now d start stop : CalendarDate} {col : String}
  {e part side : WhereExpr} {op : BinaryOperator} {bounds : List DateBound} {r : DateRange}

/-! ### Bounds -/

def DateBound.Holds : DateBound → CalendarDate → Prop
  | .lower b, d => b ≤ d
  | .upper b, d => d ≤ b

def DateRange.Contains (r : DateRange) (d : CalendarDate) : Prop := (∀ s ∈ r.start, s ≤ d) ∧ ∀ s ∈ r.stop, d ≤ s

theorem contains_tighten (b : DateBound) : (r.tighten b).Contains d ↔ r.Contains d ∧ b.Holds d := by
  cases b with
  | lower b =>
    rw [DateRange.tighten, DateRange.Contains, DateRange.Contains, DateBound.Holds]
    cases r.start with
    | none => simp [and_comm]
    | some s => simp [and_right_comm]
  | upper b =>
    rw [DateRange.tighten, DateRange.Contains, DateRange.Contains, DateBound.Holds]
    cases r.stop with
    | none => simp
    | some s => simp [and_assoc]

theorem contains_foldl : (bounds.foldl DateRange.tighten r).Contains d ↔ r.Contains d ∧ ∀ b ∈ bounds, b.Holds d := by
  induction bounds generalizing r with
  | nil => simp
  | cons b bounds ih => rw [List.foldl_cons, ih, contains_tighten, List.forall_mem_cons, and_assoc]

theorem contains_open : (⟨none, none⟩ : DateRange).Contains d := ⟨fun _ h => (by cases h), fun _ h => (by cases h)⟩

/-! ### What is read of a column -/

/-- The bounds that a part of a condition gives to a column. -/
def partBounds (U : Unicode) (now : CalendarDate) (col : String) (part : WhereExpr) : List DateBound :=
  match dateReading U now part with
  | some ((_, c), .bounds l) => if c = col then l else []
  | _ => []

def columnBounds (U : Unicode) (now : CalendarDate) (col : String) (parts : List WhereExpr) : List DateBound :=
  parts.flatMap (partBounds U now col)

/-- After some parts, a column has no range because of a conflict, or the bounds that were read make its range. -/
structure RangesRead (U : Unicode) (now : CalendarDate) (parts : List WhereExpr) (x : DateExtraction) : Prop where
  lost : ∀ c ∈ x.qualifiers.conflicted, x.ranges.lookup c = none
  kept : ∀ c, c ∉ x.qualifiers.conflicted →
    (x.ranges.lookup c).getD ⟨none, none⟩ = (columnBounds U now c parts).foldl DateRange.tighten ⟨none, none⟩

theorem columnBounds_concat (parts : List WhereExpr) (part : WhereExpr) :
    columnBounds U now col (parts ++ [part]) = columnBounds U now col parts ++ partBounds U now col part := by
  rw [columnBounds, List.flatMap_append, List.flatMap_singleton]
  rfl

theorem isConflicted_cases (x : DateExtraction) (c : String) (qualifier : Option String) :
    (x.isConflicted c qualifier).1 = true ∧ c ∈ x.qualifiers.conflicted ∧ (x.isConflicted c qualifier).2 = x ∨
    (x.isConflicted c qualifier).1 = true ∧ (x.isConflicted c qualifier).2.ranges = x.ranges.erase c ∧
      (x.isConflicted c qualifier).2.qualifiers.conflicted = insert c x.qualifiers.conflicted ∨
    (x.isConflicted c qualifier).1 = false ∧ c ∉ x.qualifiers.conflicted ∧
      (x.isConflicted c qualifier).2.ranges = x.ranges ∧
      (x.isConflicted c qualifier).2.qualifiers.conflicted = x.qualifiers.conflicted := by
  rw [DateExtraction.isConflicted]
  by_cases hc : c ∈ x.qualifiers.conflicted
  · rw [if_pos hc]
    exact .inl ⟨rfl, hc, rfl⟩
  · rw [if_neg hc]
    cases x.qualifiers.columnQualifiers.lookup c with
    | none => exact .inr (.inr ⟨rfl, hc, rfl, rfl⟩)
    | some prevQualifier =>
      dsimp only
      by_cases hq : prevQualifier ≠ qualifier
      · rw [if_pos hq]
        exact .inr (.inl ⟨rfl, rfl, rfl⟩)
      · rw [if_neg hq]
        exact .inr (.inr ⟨rfl, hc, rfl, rfl⟩)

theorem record_of_conflict {x : DateExtraction} {reading : DateReading}
    (h : (x.isConflicted reading.1.2 reading.1.1).1 = true) :
    x.record reading = some (x.isConflicted reading.1.2 reading.1.1).2 := by
  rw [DateExtraction.record]
  exact if_pos h

namespace RangesRead
variable {parts : List WhereExpr} {x y : DateExtraction} {reading : DateReading}

theorem nil : RangesRead U now [] {} where
  lost _ _ := rfl
  kept _ _ := rfl

theorem same (h : RangesRead U now parts x) (hranges : y.ranges = x.ranges)
    (hconflicted : y.qualifiers.conflicted = x.qualifiers.conflicted)
    (hnone : ∀ c, c ∉ x.qualifiers.conflicted → partBounds U now c part = []) :
    RangesRead U now (parts ++ [part]) y where
  lost c hc := by
    rw [hranges]
    exact h.lost c (hconflicted ▸ hc)
  kept c hc := by
    rw [hconflicted] at hc
    rw [columnBounds_concat, hnone c hc, List.append_nil, hranges, h.kept c hc]

theorem conflict (h : RangesRead U now parts x) {c : String} (hranges : y.ranges = x.ranges.erase c)
    (hconflicted : y.qualifiers.conflicted = insert c x.qualifiers.conflicted)
    (hnone : ∀ c', c ≠ c' → partBounds U now c' part = []) : RangesRead U now (parts ++ [part]) y where
  lost c' hc' := by
    rw [hranges, Dict.lookup_erase']
    split
    · rfl
    · next hne =>
      rw [hconflicted, Finset.mem_insert, or_iff_right hne] at hc'
      exact h.lost c' hc'
  kept c' hc' := by
    rw [hconflicted, Finset.mem_insert, not_or] at hc'
    rw [columnBounds_concat, hnone c' (Ne.symm hc'.1), List.append_nil, hranges, Dict.lookup_erase', if_neg hc'.1,
      h.kept c' hc'.2]

theorem given (h : RangesRead U now parts x) {c : String} {l : List DateBound} (hc : c ∉ x.qualifiers.conflicted)
    (hranges : y.ranges = updateDateRange x.ranges c l)
    (hconflicted : y.qualifiers.conflicted = x.qualifiers.conflicted)
    (hpart : ∀ c', partBounds U now c' part = if c = c' then l else []) : RangesRead U now (parts ++ [part]) y where
  lost c' hc' := by
    rw [hconflicted] at hc'
    have hne : c' ≠ c := fun heq => hc (heq ▸ hc')
    rw [hranges, updateDateRange, Dict.lookup_insert', if_neg hne]
    exact h.lost c' hc'
  kept c' hc' := by
    rw [hconflicted] at hc'
    rw [columnBounds_concat, List.foldl_append, ← h.kept c' hc', hpart, hranges, updateDateRange, Dict.lookup_insert']
    by_cases heq : c' = c
    · rw [if_pos heq, if_pos heq.symm, heq, Option.getD_some]
    · rw [if_neg heq, if_neg (Ne.symm heq), List.foldl_nil]

theorem record (h : RangesRead U now parts x) (hpart : dateReading U now part = some reading)
    (hy : x.record reading = some y) : RangesRead U now (parts ++ [part]) y := by
  obtain ⟨⟨qualifier, c⟩, read⟩ := reading
  have hother : ∀ c', c ≠ c' → partBounds U now c' part = [] := by
    intro c' hne
    rw [partBounds, hpart]
    cases read with
    | bounds l => exact if_neg hne
    | nothing => rfl
    | overflow => rfl
  rcases isConflicted_cases x c qualifier with ⟨hcheck, hc, hsame⟩ | ⟨hcheck, hranges, hconflicted⟩ |
    ⟨hcheck, hc, hranges, hconflicted⟩
  · rw [record_of_conflict hcheck, hsame] at hy
    cases hy
    exact h.same rfl rfl fun c' hc' => hother c' fun heq => hc' (heq ▸ hc)
  · rw [record_of_conflict hcheck] at hy
    cases hy
    exact h.conflict hranges hconflicted hother
  · rw [DateExtraction.record] at hy
    dsimp only at hy
    rw [hcheck, if_neg Bool.false_ne_true] at hy
    cases read with
    | bounds l =>
      cases hy
      refine h.given hc (congrArg (updateDateRange · c l) hranges) hconflicted fun c' => ?_
      rw [partBounds, hpart]
    | nothing =>
      cases hy
      refine h.same hranges hconflicted fun c' _ => ?_
      rw [partBounds, hpart]
    | overflow => cases hy

theorem readPart (h : RangesRead U now parts x) (hy : x.readPart U now part = some y) :
    RangesRead U now (parts ++ [part]) y := by
  rw [DateExtraction.readPart] at hy
  cases hreading : dateReading U now part with
  | none =>
    rw [hreading] at hy
    cases hy
    refine h.same rfl rfl fun c _ => ?_
    rw [partBounds, hreading]
  | some reading =>
    rw [hreading] at hy
    exact h.record hreading hy

theorem foldlM (h : RangesRead U now parts x) {rest : List WhereExpr}
    (hy : rest.foldlM (DateExtraction.readPart U now) x = some y) : RangesRead U now (parts ++ rest) y := by
  induction rest generalizing parts x with
  | nil =>
    cases hy
    rwa [List.append_nil]
  | cons part rest ih =>
    rw [List.foldlM_cons] at hy
    obtain ⟨z, hz, hy⟩ := Option.bind_eq_some_iff.mp hy
    rw [List.append_cons]
    exact ih (h.readPart hz) hy

end RangesRead

theorem range_eq {x : DateExtraction} (hx : extractDatePredicates U now e {} = some x)
    (hr : x.ranges.lookup col = some r) :
    r = (columnBounds U now col e.dateParts).foldl DateRange.tighten ⟨none, none⟩ := by
  rw [extractDatePredicates_eq] at hx
  have hread := RangesRead.nil.foldlM hx
  rw [List.nil_append] at hread
  have hc : col ∉ x.qualifiers.conflicted := by
    intro hc
    rw [hread.lost col hc] at hr
    cases hr
  have hkept := hread.kept col hc
  rwa [hr, Option.getD_some] at hkept

/-! ### Parts of an accepted condition -/

theorem accepts_dateParts (h : E.Accepts row e) : ∀ part ∈ e.dateParts, E.Accepts row part := by
  induction e using WhereExpr.dateParts.induct with
  | case1 left right ihleft ihright =>
    have hsides := (SqlEngine.accepts_iff_conjuncts (.binaryOp left .and right)).mp h
    rw [WhereExpr.conjuncts, List.forall_mem_append] at hsides
    rw [WhereExpr.dateParts, List.forall_mem_cons, List.forall_mem_append]
    exact ⟨h, ihleft ((SqlEngine.accepts_iff_conjuncts left).mpr hsides.1),
      ihright ((SqlEngine.accepts_iff_conjuncts right).mpr hsides.2)⟩
  | case2 inner ih =>
    rw [WhereExpr.dateParts]
    rw [SqlEngine.Accepts, SqlEngine.eval] at h
    exact ih h
  | case3 e hand hnested =>
    have hparts : e.dateParts = [e] := by rw [WhereExpr.dateParts] <;> assumption
    rw [hparts, List.forall_mem_singleton]
    exact h

/-! ### The engine's comparisons -/

/-- Two dates stand to each other as an operator says, up to the time of the day. -/
def BinaryOperator.AgreesOn (op : BinaryOperator) (a b : CalendarDate) : Prop :=
  match op with
  | .eq => a = b
  | .gt | .gtEq => b ≤ a
  | .lt | .ltEq => a ≤ b
  | _ => True

/-- The engine compares the dates of a column with those of literals, from either side. -/
structure ComparesDates (E : SqlEngine V) (columnDate literalDate : V → Option CalendarDate) : Prop where
  forward : ∀ op v w a b, columnDate v = some a → literalDate w = some b → E.truth (E.binary op v w) = some true →
    op.AgreesOn a b
  backward : ∀ op v w a b, columnDate v = some a → literalDate w = some b → E.truth (E.binary op w v) = some true →
    op.AgreesOn b a

theorem operatorBounds_hold {a b : CalendarDate} (h : op.AgreesOn a b) : ∀ x ∈ operatorBounds op b, x.Holds a := by
  cases op with
  | eq =>
    have heq : a = b := h
    rw [operatorBounds, heq]
    simp [DateBound.Holds]
  | gt => exact List.forall_mem_singleton.mpr h
  | gtEq => exact List.forall_mem_singleton.mpr h
  | lt => exact List.forall_mem_singleton.mpr h
  | ltEq => exact List.forall_mem_singleton.mpr h
  | _ => exact fun x hx => absurd hx List.not_mem_nil

theorem reversed_agreesOn {a b : CalendarDate} (h : op.AgreesOn b a) : (reversedOp op).AgreesOn a b := by
  cases op with
  | eq => exact Eq.symm h
  | gt => exact h
  | gtEq => exact h
  | lt => exact h
  | ltEq => exact h
  | _ => trivial

theorem eval_comparison {left right : WhereExpr} {b : CalendarDate} (h : operatorBounds op b ≠ []) :
    E.eval row (.binaryOp left op right) = E.binary op (E.eval row left) (E.eval row right) := by
  cases op with
  | and => exact absurd rfl h
  | or => exact absurd rfl h
  | _ => rw [SqlEngine.eval] <;> simp

theorem operatorBounds_reversed {b : CalendarDate} (h : operatorBounds (reversedOp op) b ≠ []) :
    operatorBounds op b ≠ [] := by
  cases op <;> simp_all [operatorBounds, reversedOp]

/-! ### Parts whose column stands by itself -/

namespace WhereExpr

/-- The side of a part that its column is read off. -/
def dateSide : WhereExpr → Option WhereExpr
  | .binaryOp left _ right => if left.columnNameQualified.isSome then some left else some right
  | .between expr _ _ _ => some expr
  | _ => none

/-- The sides of a part that a date can be read off. -/
def valueSides : WhereExpr → List WhereExpr
  | .binaryOp left _ right => [left, right]
  | .between _ _ low high => [low, high]
  | _ => []

theorem columnName_of_plain {q : Option String × String} {c : String} (hplain : e.plainColumn = some c)
    (hname : e.columnNameQualified = some q) : q.2 = c := by
  cases e with
  | identifier ident =>
    cases hplain
    rw [columnNameQualified] at hname
    cases hname
    rfl
  | compoundIdentifier idents =>
    have hlast : idents.getLast?.map (·.value) = some c := hplain
    rw [← List.head?_reverse] at hlast
    rw [columnNameQualified] at hname
    cases hidents : idents.reverse with
    | nil =>
      rw [hidents] at hlast
      cases hlast
    | cons column rest =>
      rw [hidents] at hlast hname
      have hc : column.value = c := Option.some_inj.mp hlast
      cases rest with
      | nil =>
        cases hname
        exact hc
      | cons qualifier rest =>
        cases hname
        exact hc
  | _ => cases hplain

end WhereExpr

section Plain
variable {columnDate literalDate : V → Option CalendarDate}

/-- The values of a part are read by the engine as the dates that the rewriter reads. -/
def ReadsLiterals (E : SqlEngine V) (row : String → V) (literalDate : V → Option CalendarDate) (U : Unicode)
    (now : CalendarDate) (part : WhereExpr) : Prop :=
  ∀ side ∈ part.valueSides, ∀ b, tryParseDateValue U now side = .known b → literalDate (E.eval row side) = some b

theorem mem_partBounds {b : DateBound} : b ∈ partBounds U now col part ↔
    ∃ qualifier l, dateReading U now part = some ((qualifier, col), .bounds l) ∧ b ∈ l := by
  rw [partBounds]
  cases dateReading U now part with
  | none => simp
  | some reading =>
    obtain ⟨⟨qualifier, c⟩, read⟩ := reading
    cases read with
    | bounds l =>
      dsimp only
      split
      · next hc => simp [hc]
      · next hc => simp [hc]
    | nothing => simp
    | overflow => simp

theorem toRead_bounds {v : DateValue} {f : CalendarDate → List DateBound} {l : List DateBound}
    (h : v.toRead f = .bounds l) : ∃ b, v = .known b ∧ f b = l := by
  cases v with
  | known b =>
    cases h
    exact ⟨b, rfl, rfl⟩
  | unknown => cases h
  | overflow => cases h

theorem comparison_holds (hE : ComparesDates E columnDate literalDate) (hd : columnDate (row col) = some d)
    {left right : WhereExpr} (hliterals : ReadsLiterals E row literalDate U now (.binaryOp left op right))
    (hacc : E.Accepts row (.binaryOp left op right))
    (hplain : ∀ side ∈ (WhereExpr.binaryOp left op right).dateSide, side.plainColumn ≠ none) :
    ∀ b ∈ partBounds U now col (.binaryOp left op right), b.Holds d := by
  intro b hb
  obtain ⟨qualifier, l, hread, hbl⟩ := mem_partBounds.mp hb
  have hread : comparisonBounds U now left op right = some ((qualifier, col), .bounds l) := hread
  rw [comparisonBounds] at hread
  cases hleft : left.columnNameQualified with
  | some q =>
    rw [hleft] at hread
    obtain ⟨hq, hvalue⟩ := Prod.mk.inj (Option.some_inj.mp hread)
    obtain ⟨v, hv, rfl⟩ := toRead_bounds hvalue
    have hsome : left.plainColumn ≠ none := hplain left (by rw [WhereExpr.dateSide, hleft]; rfl)
    obtain ⟨c, hc⟩ := Option.ne_none_iff_exists'.mp hsome
    have hcol : c = col := (WhereExpr.columnName_of_plain hc hleft).symm.trans (congrArg Prod.snd hq)
    rw [SqlEngine.Accepts, eval_comparison (List.ne_nil_of_mem hbl), SqlEngine.eval_plainColumn hc, hcol] at hacc
    have hliteral := hliterals right (List.mem_cons_of_mem _ List.mem_cons_self) v hv
    exact operatorBounds_hold (hE.forward op _ _ d v hd hliteral hacc) b hbl
  | none =>
    rw [hleft] at hread
    obtain ⟨name, hright, hpair⟩ := Option.map_eq_some_iff.mp hread
    obtain ⟨hname, hvalue⟩ := Prod.mk.inj hpair
    obtain ⟨v, hv, rfl⟩ := toRead_bounds hvalue
    have hsome : right.plainColumn ≠ none := hplain right (by rw [WhereExpr.dateSide, hleft]; rfl)
    obtain ⟨c, hc⟩ := Option.ne_none_iff_exists'.mp hsome
    have hcol : c = col := (WhereExpr.columnName_of_plain hc hright).symm.trans (congrArg Prod.snd hname)
    rw [SqlEngine.Accepts, eval_comparison (operatorBounds_reversed (List.ne_nil_of_mem hbl)),
      SqlEngine.eval_plainColumn hc, hcol] at hacc
    have hliteral := hliterals left List.mem_cons_self v hv
    exact operatorBounds_hold (reversed_agreesOn (hE.backward op _ _ d v hd hliteral hacc)) b hbl

theorem between_holds (hE : ComparesDates E columnDate literalDate) (hd : columnDate (row col) = some d)
    {expr low high : WhereExpr} {negated : Bool}
    (hliterals : ReadsLiterals E row literalDate U now (.between expr negated low high))
    (hacc : E.Accepts row (.between expr negated low high)) (hplain : expr.plainColumn ≠ none) :
    ∀ b ∈ partBounds U now col (.between expr negated low high), b.Holds d := by
  intro b hb
  obtain ⟨qualifier, l, hread, hbl⟩ := mem_partBounds.mp hb
  rw [dateReading] at hread
  cases negated with
  | true => cases hread
  | false =>
    obtain ⟨q, hname, hq⟩ := Option.map_eq_some_iff.mp hread
    obtain ⟨hq, hvalues⟩ := Prod.mk.inj hq
    obtain ⟨c, hc⟩ := Option.ne_none_iff_exists'.mp hplain
    have hcol : c = col := (WhereExpr.columnName_of_plain hc hname).symm.trans (congrArg Prod.snd hq)
    rw [SqlEngine.Accepts, SqlEngine.eval, E.truth_ofTruth, Truth.negatedIf, if_neg Bool.false_ne_true,
      Truth.and_eq_true, SqlEngine.eval_plainColumn hc, hcol] at hacc
    rw [betweenBounds] at hvalues
    cases hlow : tryParseDateValue U now low with
    | known v =>
      cases hhigh : tryParseDateValue U now high with
      | known w =>
        rw [hlow, hhigh] at hvalues
        cases hvalues
        have hv := hE.forward .gtEq _ _ d v hd (hliterals low List.mem_cons_self v hlow) hacc.1
        have hw :=
          hE.forward .ltEq _ _ d w hd (hliterals high (List.mem_cons_of_mem _ List.mem_cons_self) w hhigh) hacc.2
        rcases List.mem_cons.mp hbl with rfl | hbl
        · exact hv
        · rw [List.mem_singleton.mp hbl]
          exact hw
      | unknown =>
        rw [hlow, hhigh] at hvalues
        cases hvalues
      | overflow =>
        rw [hlow, hhigh] at hvalues
        cases hvalues
    | unknown =>
      cases hhigh : tryParseDateValue U now high with
      | known w =>
        rw [hlow, hhigh] at hvalues
        cases hvalues
      | unknown =>
        rw [hlow, hhigh] at hvalues
        cases hvalues
      | overflow =>
        rw [hlow, hhigh] at hvalues
        cases hvalues
    | overflow =>
      rw [hlow] at hvalues
      cases hvalues

theorem plain_bounds_hold (hE : ComparesDates E columnDate literalDate) (hd : columnDate (row col) = some d)
    (hliterals : ReadsLiterals E row literalDate U now part) (hacc : E.Accepts row part)
    (hplain : ∀ side ∈ part.dateSide, side.plainColumn ≠ none) : ∀ b ∈ partBounds U now col part, b.Holds d := by
  cases part with
  | binaryOp left op right => exact comparison_holds hE hd hliterals hacc hplain
  | between expr negated low high => exact between_holds hE hd hliterals hacc (hplain expr rfl)
  | _ => exact fun b hb => absurd hb List.not_mem_nil

end Plain

/-! ### Keys -/

/-- All files are read, or those of the month of the date. -/
def KeysCover (now : CalendarDate) (r : DateRange) (d : CalendarDate) : Prop :=
  dateRangeToPartitionKeys now r = [] ∨ partitionKey d ∈ dateRangeToPartitionKeys now r

/-- The keys of a range without an end run to the current month. -/
def OpenReaches (now : CalendarDate) (r : DateRange) (d : CalendarDate) : Prop :=
  ∀ start, r = ⟨some start, none⟩ →
    now < start ∨ now.monthIndex - start.monthIndex ≥ 24 ∨ d.monthIndex ≤ now.monthIndex

theorem keysCover_iff (h : r.Contains d) : KeysCover now r d ↔ OpenReaches now r d := by
  obtain ⟨start, stop⟩ := r
  rw [KeysCover, OpenReaches, dateRangeToPartitionKeys]
  cases start with
  | none =>
    refine iff_of_true (.inl ?_) fun s hs => by cases hs
    rfl
  | some start =>
    have hstart : start ≤ d := h.1 start rfl
    cases stop with
    | none =>
      refine (partitionKeys_iff hstart).trans ⟨fun hreach s hs => ?_, fun hreach => hreach start rfl⟩
      cases hs
      exact hreach
    | some stop =>
      have hstop : d ≤ stop := h.2 stop rfl
      have himpossible : DateRange.isImpossible ⟨some start, some stop⟩ = false :=
        isImpossible_closed (hstart.trans hstop)
      rw [himpossible, if_neg Bool.false_ne_true]
      refine iff_of_true ((partitionKeys_iff hstart).mpr (.inr (.inr (CalendarDate.monthIndex_mono hstop)))) ?_
      intro s hs
      cases hs

/-! ### Ranges of accepted rows -/

/-- If the condition is true of the row, the range of the column holds its date, and the keys of its month. -/
def RangeSound (E : SqlEngine V) (row : String → V) (U : Unicode) (now : CalendarDate) (e : WhereExpr) (col : String)
    (d : CalendarDate) : Prop :=
  E.Accepts row e → ∀ x r, extractDatePredicates U now e {} = some x → x.ranges.lookup col = some r →
    r.Contains d ∧ KeysCover now r d

/-- If the condition is true of the row and gives the column a range, the bounds that were read through a function or a
    cast hold of the date itself, and without an end the keys run on to its month. -/
def BoundsFit (E : SqlEngine V) (row : String → V) (U : Unicode) (now : CalendarDate) (e : WhereExpr) (col : String)
    (d : CalendarDate) : Prop :=
  E.Accepts row e → ∀ x r, extractDatePredicates U now e {} = some x → x.ranges.lookup col = some r →
    (∀ part ∈ e.dateParts, (∃ side ∈ part.dateSide, side.plainColumn = none) →
      ∀ b ∈ partBounds U now col part, b.Holds d) ∧
    OpenReaches now ((columnBounds U now col e.dateParts).foldl DateRange.tighten ⟨none, none⟩) d

/-- A range is sound for a row exactly if the bounds read through functions fit its date. -/
theorem rangeSound_iff {columnDate literalDate : V → Option CalendarDate} (hE : ComparesDates E columnDate literalDate)
    (hd : columnDate (row col) = some d)
    (hliterals : ∀ part ∈ e.dateParts, ReadsLiterals E row literalDate U now part) :
    RangeSound E row U now e col d ↔ BoundsFit E row U now e col d := by
  refine forall_congr' fun hacc => forall_congr' fun x => forall_congr' fun r => forall_congr' fun hx =>
    forall_congr' fun hr => ?_
  have hrange := range_eq hx hr
  rw [← hrange]
  have hcontains : r.Contains d ↔ ∀ part ∈ e.dateParts, ∀ b ∈ partBounds U now col part, b.Holds d := by
    rw [hrange, contains_foldl, and_iff_right contains_open, columnBounds]
    simp only [List.mem_flatMap, forall_exists_index, and_imp]
    exact ⟨fun h part hpart b hb => h b part hpart hb, fun h b part hpart hb => h part hpart b hb⟩
  have hpeeled : (∀ part ∈ e.dateParts, ∀ b ∈ partBounds U now col part, b.Holds d) ↔
      ∀ part ∈ e.dateParts, (∃ side ∈ part.dateSide, side.plainColumn = none) →
        ∀ b ∈ partBounds U now col part, b.Holds d := by
    refine ⟨fun h part hpart _ => h part hpart, fun h part hpart => ?_⟩
    by_cases hside : ∃ side ∈ part.dateSide, side.plainColumn = none
    · exact h part hpart hside
    · refine plain_bounds_hold hE hd (hliterals part hpart) (accepts_dateParts hacc part hpart) fun side hmem hnone =>
        ?_
      exact hside ⟨side, hmem, hnone⟩
  rw [← hpeeled, ← hcontains]
  exact and_congr_right fun h => keysCover_iff h

/-! ### A date under a function -/

inductive DateCell where
  | date (d : CalendarDate)
  | text (s : String)
  | truth (t : Truth)

namespace DateCell

def columnDate : DateCell → Option CalendarDate
  | .date d => some d
  | _ => none

/-- A text stands for the date that is written in it. -/
def literalDate : DateCell → Option CalendarDate
  | .date d => some d
  | .text s => parseDateString s
  | .truth _ => none

def binary (op : BinaryOperator) : DateCell → DateCell → Truth
  | .text a, .text b => op.compare a b
  | .truth _, _ => none
  | _, .truth _ => none
  | v, w => v.literalDate.bind fun a => w.literalDate.bind (op.compare a)

def call (name : String) : List DateCell → DateCell
  | [.text s, .text q] => .truth (if name = "hastoken" then some (hasToken s q) else none)
  | [.date d] =>
    if name = "tostartofyear" then (CalendarDate.fromYmdOpt d.year 1 1).elim (.truth none) .date else .truth none
  | _ => .truth none

end DateCell

def dateEngine : SqlEngine DateCell where
  unicode := asciiUnicode
  parser := plainParser
  text := .text
  truth v := match v with | .truth t => t | _ => none
  ofTruth := .truth
  literal v := match v with
    | .number n => .text n
    | .singleQuotedString s => .text s
    | .doubleQuotedString s => .text s
    | .boolean b => .truth (some b)
    | .other t => .text t
  binary op v w := .truth (DateCell.binary op v w)
  unary _ v := v
  cast _ v := v
  like v w := match v, w with | .text s, .text pattern => .truth (some (likeMatches pattern s)) | _, _ => .truth none
  call name := DateCell.call (asciiUnicode.toLowercase (fullName plainParser name))
  interval v _ := v
  other _ _ := .truth none
  raw v := match v with | .text s => some s | _ => none
  truth_ofTruth _ := rfl
  literal_text _ := rfl
  binary_text _ _ _ _ h := h
  like_text _ _ := rfl
  call_hasToken name s q h := by
    rw [h]
    rfl
  raw_text _ := rfl

theorem compare_agreesOn {a b : CalendarDate} (h : op.compare a b = some true) : op.AgreesOn a b := by
  cases op with
  | eq => simpa [BinaryOperator.compare, BinaryOperator.AgreesOn] using h
  | gt => exact (of_decide_eq_true (p := b < a) (Option.some_inj.mp h)).le
  | gtEq => exact of_decide_eq_true (p := b ≤ a) (Option.some_inj.mp h)
  | lt => exact (of_decide_eq_true (p := a < b) (Option.some_inj.mp h)).le
  | ltEq => exact of_decide_eq_true (p := a ≤ b) (Option.some_inj.mp h)
  | _ => trivial

theorem dateEngine_comparesDates : ComparesDates dateEngine DateCell.columnDate DateCell.literalDate where
  forward op v w a b hv hw h := by
    cases v with
    | date d =>
      obtain rfl : d = a := Option.some_inj.mp hv
      cases w with
      | date c =>
        obtain rfl : c = b := Option.some_inj.mp hw
        exact compare_agreesOn h
      | text s =>
        have hread : (parseDateString s).bind (op.compare d) = some true := h
        rw [show parseDateString s = some b from hw] at hread
        exact compare_agreesOn hread
      | truth t => cases hw
    | text s => cases hv
    | truth t => cases hv
  backward op v w a b hv hw h := by
    cases v with
    | date d =>
      obtain rfl : d = a := Option.some_inj.mp hv
      cases w with
      | date c =>
        obtain rfl : c = b := Option.some_inj.mp hw
        exact compare_agreesOn h
      | text s =>
        have hread : (parseDateString s).bind (fun c => op.compare c d) = some true := h
        rw [show parseDateString s = some b from hw] at hread
        exact compare_agreesOn hread
      | truth t => cases hw
    | text s => cases hv
    | truth t => cases hv

/-- `date >= '2025-01-15'`. -/
def fromMidJanuary : WhereExpr := .binaryOp (columnExpr "date") .gtEq (textExpr "2025-01-15")

/-- `toStartOfYear(date) = '2025-01-01'`. -/
def inYear2025 : WhereExpr :=
  .binaryOp (.function [{ value := "toStartOfYear" }] [columnExpr "date"]) .eq (textExpr "2025-01-01")

def midMonth (month : Fin 12) : CalendarDate := ⟨2025, month + 1, 15, by revert month; decide⟩

theorem rangeSound_iff_fromMidJanuary :
    RangeSound dateEngine (fun _ => .date (midMonth 1)) asciiUnicode (midMonth 5) fromMidJanuary "date" (midMonth 1) ↔
      BoundsFit dateEngine (fun _ => .date (midMonth 1)) asciiUnicode (midMonth 5) fromMidJanuary "date"
        (midMonth 1) := by
  refine rangeSound_iff dateEngine_comparesDates rfl fun part hpart => ?_
  obtain rfl : part = fromMidJanuary := List.mem_singleton.mp hpart
  intro side hside b hb
  rcases List.mem_cons.mp hside with rfl | hside
  · cases hb
  · obtain rfl : side = textExpr "2025-01-15" := List.mem_singleton.mp hside
    have hdate : DateValue.ofOption (parseDateString "2025-01-15") = .known b := hb
    change parseDateString "2025-01-15" = some b
    cases hparse : parseDateString "2025-01-15" with
    | none =>
      rw [hparse] at hdate
      cases hdate
    | some d =>
      rw [hparse] at hdate
      cases hdate
      rfl

theorem not_rangeSound :
    ¬RangeSound dateEngine (fun _ => .date (midMonth 5)) asciiUnicode (midMonth 6) inYear2025 "date" (midMonth 5) := by
  intro hsound
  have hacc : dateEngine.Accepts (fun _ => .date (midMonth 5)) inYear2025 := rfl
  obtain ⟨hcontains, -⟩ := hsound hacc _ ⟨some ⟨2025, 1, 1, by decide⟩, some ⟨2025, 1, 1, by decide⟩⟩ rfl rfl
  exact absurd (hcontains.2 _ rfl) (by decide)

end Reiver.Pond
