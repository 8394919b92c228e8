import Mathlib.Algebra.Group.Nat.Defs
import Mathlib.Data.List.Dedup
import Mathlib.Data.List.Sort
import Mathlib.Data.String.Basic
import Mathlib.Order.Compare
import Reiver.Lib.Fallible
import Reiver.Lib.StableSort
import Std.Data.String.ToInt

/-! # topk and bottomk

The model of `process_batches` of `topk_bottomk.rs`. The sort is a parameter that keeps what its documentation says; the
rows that are taken are told by their indices. -/

namespace Reiver.Core

/-- A row as `process_batches` reads it: the time, the texts of the partition columns, and the value, `none` for NaN. -/
structure TopkRow (V : Type) where
  timestamp : Int
  labels : List String
  value : Option V

variable {V : Type} [LinearOrder V]

def TopkRow.partitionKey (row : TopkRow V) : List String := Int.repr row.timestamp :: row.labels

def rowValue (rows : List (TopkRow V)) (i : Nat) : Option V := rows[i]?.bind (·.value)

def rowKey (rows : List (TopkRow V)) (i : Nat) : Option (List String) := rows[i]?.map (·.partitionKey)

/-- `partial_cmp` with NaN taken for equal to everything. -/
def compareValues (isTopk : Bool) (va vb : Option V) : Ordering :=
  (va.bind fun x => vb.map fun y => if isTopk then cmp y x else cmp x y).getD .eq

def compareRows (isTopk : Bool) (rows : List (TopkRow V)) (a b : Nat) : Ordering :=
  compareValues isTopk (rowValue rows a) (rowValue rows b)

/-- The indices of the rows of a key, in input order. -/
def groupOf (rows : List (TopkRow V)) (key : Option (List String)) : List Nat :=
  (List.range rows.length).filter fun i => rowKey rows i = key

/-- The keys of the `BTreeMap`. -/
def partitionKeys (rows : List (TopkRow V)) : List (List String) :=
  (rows.map (·.partitionKey)).dedup.mergeSort fun a b => a ≤ b

/-- The rows of all groups that are selected, in input order. -/
def selectedIndices (sortBy : (Nat → Nat → Ordering) → List Nat → Option (List Nat)) (k : Nat) (isTopk : Bool)
    (rows : List (TopkRow V)) : Option (List Nat) :=
  ((partitionKeys rows).mapM fun key =>
    (sortBy (compareRows isTopk rows) (groupOf rows (some key))).map (·.take k)).map fun selected =>
      selected.flatten.mergeSort fun a b => a ≤ b

/-- The indices of the rows that are given out: all of them, or the selected ones as `u32`. -/
def takenIndices (sortBy : (Nat → Nat → Ordering) → List Nat → Option (List Nat)) (k : Nat) (isTopk : Bool)
    (rows : List (TopkRow V)) : Option (List Nat) :=
  (selectedIndices sortBy k isTopk rows).map fun selected =>
    if selected.length = rows.length then List.range rows.length else selected.map (· % 2 ^ 32)

/-- `process_batches`; `none` is a panic. -/
def processBatches (sortBy : (Nat → Nat → Ordering) → List Nat → Option (List Nat)) (k : Nat) (isTopk : Bool)
    (batches : List (List (TopkRow V))) : Option (List (TopkRow V)) :=
  let rows := batches.flatten
  if rows = [] then some [] else (takenIndices sortBy k isTopk rows).map fun taken => taken.filterMap (rows[·]?)

/-! ### What is kept -/

/-- A value ranks above another: NaN ranks below every number, whichever end is asked for. -/
def RanksAbove (isTopk : Bool) (va vb : Option V) : Prop :=
  ∃ x ∈ va, ∀ y ∈ vb, if isTopk then y < x else x < y

/-- Two rows have the same timestamp and the same grouping labels. -/
def SameGroup (rows : List (TopkRow V)) (i j : Nat) : Prop :=
  rows[i]?.map (fun row => (row.timestamp, row.labels)) = rows[j]?.map fun row => (row.timestamp, row.labels)

instance (rows : List (TopkRow V)) (i j : Nat) : Decidable (SameGroup rows i j) :=
  inferInstanceAs (Decidable (_ = _))

/-- The rows that are taken are in input order, as many of each group as it has up to `k`, and no row that is dropped
    ranks above one of its group. -/
structure KeepsBest (k : Nat) (isTopk : Bool) (rows : List (TopkRow V)) (taken : List Nat) : Prop where
  order : taken.Pairwise (· < ·)
  known : ∀ i ∈ taken, i < rows.length
  count : ∀ i < rows.length, (taken.filter fun j => SameGroup rows i j).length =
    min k ((List.range rows.length).filter fun j => SameGroup rows i j).length
  best : ∀ i ∈ taken, ∀ j < rows.length, j ∉ taken → SameGroup rows i j →
    ¬RanksAbove isTopk (rowValue rows j) (rowValue rows i)

/-- The call does not panic, and gives out the rows that it should keep. -/
def TopkRight (sortBy : (Nat → Nat → Ordering) → List Nat → Option (List Nat)) (k : Nat) (isTopk : Bool)
    (batches : List (List (TopkRow V))) : Prop :=
  ∃ taken, takenIndices sortBy k isTopk batches.flatten = some taken ∧ KeepsBest k isTopk batches.flatten taken ∧
    processBatches sortBy k isTopk batches = some (taken.filterMap (batches.flatten[·]?))

/-- A row stands before another in a sorted group. -/
def precedes (isTopk : Bool) (rows : List (TopkRow V)) (i j : Nat) : Bool :=
  compareRows isTopk rows i j = .lt ∨ (compareRows isTopk rows i j = .eq ∧ i < j)

/-- The values of a group have no NaN; or all its numbers are one, and no NaN among the first `k` stands before a number
    that is not. -/
def GroupFits (k : Nat) (values : List (Option V)) : Prop :=
  none ∉ values ∨
    (∀ x y, some x ∈ values → some y ∈ values → x = y) ∧ (none ∈ values.take k → ∀ v ∈ values.drop k, v = none)

/-- Every group fits, and every row is kept, or none beyond the range of a `u32` is among the first `k` of its group. -/
structure TopkFits (k : Nat) (isTopk : Bool) (rows : List (TopkRow V)) : Prop where
  groups : ∀ i < rows.length, GroupFits k ((groupOf rows (rowKey rows i)).map (rowValue rows))
  small : (∀ i < rows.length, (groupOf rows (rowKey rows i)).length ≤ k) ∨
    ∀ i < rows.length, 2 ^ 32 ≤ i → k ≤ (groupOf rows (rowKey rows i)).countP fun j => precedes isTopk rows j i

variable {isTopk : Bool} {rows : List (TopkRow V)} {k i j : Nat} {taken : List Nat} {va vb : Option V} {x y : V}
  {sortBy : (Nat → Nat → Ordering) → List Nat → Option (List Nat)} {key : List String}

/-! ### The comparator -/

theorem compareValues_swap : compareValues isTopk vb va = (compareValues isTopk va vb).swap := by
  rcases va with _ | x <;> rcases vb with _ | y
  · rfl
  · rfl
  · rfl
  · cases isTopk
    · exact (cmp_swap x y).symm
    · exact (cmp_swap y x).symm

theorem compareValues_none_left : compareValues isTopk none vb = .eq := rfl

theorem compareValues_none_right : compareValues isTopk va none = .eq := by
  cases va <;> rfl

theorem compareValues_self : compareValues isTopk (some x) (some x) = .eq := by
  cases isTopk
  · exact cmp_self_eq_eq x
  · exact cmp_self_eq_eq x

theorem compareValues_ne_gt :
    compareValues isTopk (some x) (some y) ≠ .gt ↔ if isTopk then y ≤ x else x ≤ y := by
  cases isTopk
  · exact (not_congr (cmp_eq_gt_iff _ _)).trans not_lt
  · exact (not_congr (cmp_eq_gt_iff _ _)).trans not_lt

theorem ranksAbove_some : RanksAbove isTopk (some x) (some y) ↔ if isTopk then y < x else x < y := by
  simp [RanksAbove]

theorem compareValues_eq_lt : compareValues isTopk va vb = .lt ↔ va.isSome ∧ vb.isSome ∧ RanksAbove isTopk va vb := by
  rcases va with _ | x
  · exact iff_of_false Ordering.noConfusion fun h => Bool.noConfusion h.1
  · rcases vb with _ | y
    · exact iff_of_false Ordering.noConfusion fun h => Bool.noConfusion h.2.1
    · rw [ranksAbove_some, Option.isSome_some, Option.isSome_some, and_iff_right rfl, and_iff_right rfl]
      cases isTopk
      · exact cmp_eq_lt_iff _ _
      · exact cmp_eq_lt_iff _ _

theorem totalOn_compareRows_iff {l : List Nat} : TotalOn (compareRows isTopk rows) l ↔
    none ∉ l.map (rowValue rows) ∨
      ∀ x y, some x ∈ l.map (rowValue rows) → some y ∈ l.map (rowValue rows) → x = y := by
  constructor
  · intro h
    by_contra hcon
    simp only [not_or, not_not, not_forall] at hcon
    obtain ⟨hnone, x, y, hx, hy, hne⟩ := hcon
    obtain ⟨n, hn, hvn⟩ := List.mem_map.mp hnone
    obtain ⟨a, ha, hva⟩ := List.mem_map.mp hx
    obtain ⟨b, hb, hvb⟩ := List.mem_map.mp hy
    have heq (i : Nat) : compareRows isTopk rows i n = .eq ∧ compareRows isTopk rows n i = .eq := by
      rw [compareRows, compareRows, hvn]
      exact ⟨compareValues_none_right, compareValues_none_left⟩
    have hab := h.trans a ha n hn b hb (by simp [heq a]) (by simp [heq b])
    have hba := h.trans b hb n hn a ha (by simp [heq b]) (by simp [heq a])
    rw [compareRows, hva, hvb, compareValues_ne_gt] at hab
    rw [compareRows, hva, hvb, compareValues_ne_gt] at hba
    cases isTopk
    · exact hne (le_antisymm hab hba)
    · exact hne (le_antisymm hba hab)
  · intro h
    refine ⟨fun a _ b _ => compareValues_swap, fun a ha b hb c hc hab hbc => ?_⟩
    have hmem {i : Nat} (hi : i ∈ l) : rowValue rows i ∈ l.map (rowValue rows) := List.mem_map_of_mem hi
    unfold compareRows at *
    rcases hva : rowValue rows a with _ | x
    · simp [compareValues_none_left]
    rcases hvc : rowValue rows c with _ | z
    · simp [compareValues_none_right]
    rcases h with hnumbers | hequal
    · rcases hvb : rowValue rows b with _ | y
      · exact absurd (hvb ▸ hmem hb) hnumbers
      · rw [hva, hvb, compareValues_ne_gt] at hab
        rw [hvb, hvc, compareValues_ne_gt] at hbc
        rw [compareValues_ne_gt]
        cases isTopk
        · exact le_trans hab hbc
        · exact le_trans hbc hab
    · rw [hequal x z (hva ▸ hmem ha) (hvc ▸ hmem hc), compareValues_self]
      decide

theorem precedes_asymm {l : List Nat} (h : TotalOn (compareRows isTopk rows) l) :
    ∀ a ∈ l, ∀ b ∈ l, precedes isTopk rows a b = true → precedes isTopk rows b a = false := by
  intro a ha b hb hab
  have hswap := h.swap a ha b hb
  simp only [precedes, decide_eq_true_eq, decide_eq_false_iff_not] at hab ⊢
  rcases hab with hlt | ⟨heq, hlt⟩
  · simp [hswap, hlt]
  · simp [hswap, heq, hlt.le]

theorem not_ranksAbove_of_precedes (h : precedes isTopk rows i j = true) (hi : rowValue rows i ≠ none) :
    ¬RanksAbove isTopk (rowValue rows j) (rowValue rows i) := by
  rintro ⟨y, hy, habove⟩
  obtain ⟨x, hx⟩ := Option.ne_none_iff_exists'.mp hi
  have hgt : compareRows isTopk rows j i = .lt :=
    compareValues_eq_lt.mpr ⟨Option.isSome_of_mem hy, hx ▸ rfl, y, hy, habove⟩
  have hswap : compareRows isTopk rows i j = .gt := by
    rw [compareRows, compareValues_swap]
    exact congrArg Ordering.swap hgt
  simp [precedes, hswap] at h

/-! ### A group -/

theorem sameGroup_iff : SameGroup rows i j ↔ rowKey rows j = rowKey rows i := by
  unfold SameGroup rowKey
  rcases rows[i]? with _ | a <;> rcases rows[j]? with _ | b
  · simp
  · simp
  · simp
  · simp only [Option.map_some, Option.some.injEq, Prod.mk.injEq, TopkRow.partitionKey, List.cons.injEq]
    exact ⟨fun h => ⟨h.1 ▸ rfl, h.2.symm⟩, fun h => ⟨(Int.repr_injective h.1).symm, h.2.symm⟩⟩

theorem groupOf_eq : groupOf rows (rowKey rows i) = (List.range rows.length).filter fun j => SameGroup rows i j :=
  List.filter_congr fun _ _ => decide_eq_decide.mpr sameGroup_iff.symm

theorem mem_groupOf {key : Option (List String)} : i ∈ groupOf rows key ↔ i < rows.length ∧ rowKey rows i = key := by
  simp [groupOf]

theorem groupOf_increasing {key : Option (List String)} : (groupOf rows key).Pairwise (· < ·) :=
  List.pairwise_lt_range.filter _

/-- The row is among the first `k` of its group. -/
def selected (k : Nat) (isTopk : Bool) (rows : List (TopkRow V)) (i : Nat) : Bool :=
  (groupOf rows (rowKey rows i)).countP (fun j => precedes isTopk rows j i) < k

/-- An order of a group of which the first `k` rows are those that are selected. -/
structure OrdersGroup (k : Nat) (isTopk : Bool) (rows : List (TopkRow V)) (key : Option (List String))
    (out : List Nat) : Prop where
  perm : out.Perm (groupOf rows key)
  order : out.Pairwise fun a b => precedes isTopk rows a b = true
  take : ∀ j ∈ groupOf rows key, j ∈ out.take k ↔ selected k isTopk rows j = true

theorem ordersGroup_of_perm {key : Option (List String)} {out : List Nat}
    (h : TotalOn (compareRows isTopk rows) (groupOf rows key)) (hperm : out.Perm (groupOf rows key))
    (horder : out.Pairwise fun a b => precedes isTopk rows a b = true) : OrdersGroup k isTopk rows key out := by
  refine ⟨hperm, horder, fun j hj => ?_⟩
  have hasymm := precedes_asymm (h.of_subset fun a ha => hperm.mem_iff.mp ha)
  rw [mem_take_iff_countP horder hasymm (hperm.mem_iff.mpr hj), hperm.countP_eq, selected, (mem_groupOf.mp hj).2]
  exact decide_eq_true_iff.symm

theorem ordersGroup_of_sort {key : Option (List String)} (hdoc : SortDocumented sortBy)
    (h : TotalOn (compareRows isTopk rows) (groupOf rows key)) :
    ∃ out, sortBy (compareRows isTopk rows) (groupOf rows key) = some out ∧ OrdersGroup k isTopk rows key out := by
  obtain ⟨out, hout, hsorted⟩ := hdoc.total _ _ h
  refine ⟨out, hout, ordersGroup_of_perm h hsorted.perm ?_⟩
  exact (hsorted.pairwise h groupOf_increasing).imp fun hab => by simpa [precedes] using hab

def Ordered (isTopk : Bool) (rows : List (TopkRow V)) : Prop :=
  ∀ i < rows.length, TotalOn (compareRows isTopk rows) (groupOf rows (rowKey rows i))

theorem Ordered.group (h : Ordered isTopk rows) (hi : i < rows.length) :
    ∃ out, OrdersGroup k isTopk rows (rowKey rows i) out := by
  obtain ⟨out, -, hout⟩ := ordersGroup_of_sort insertionSortBy_documented (h i hi) (k := k)
  exact ⟨out, hout⟩

theorem OrdersGroup.precedes {key : Option (List String)} {out : List Nat} (h : OrdersGroup k isTopk rows key out)
    (hi : i ∈ groupOf rows key) (hj : j ∈ groupOf rows key) (hsel : selected k isTopk rows i = true)
    (hnot : selected k isTopk rows j = false) : Reiver.Core.precedes isTopk rows i j = true := by
  have htake : i ∈ out.take k := (h.take i hi).mpr hsel
  have hdrop : j ∈ out.drop k := by
    have hmem : j ∈ out.take k ++ out.drop k := by
      rw [List.take_append_drop]
      exact h.perm.mem_iff.mpr hj
    rcases List.mem_append.mp hmem with hmem | hmem
    · rw [(h.take j hj).mp hmem] at hnot
      cases hnot
    · exact hmem
  have hpair : (out.take k ++ out.drop k).Pairwise fun a b => Reiver.Core.precedes isTopk rows a b = true := by
    rw [List.take_append_drop]
    exact h.order
  exact (List.pairwise_append.mp hpair).2.2 i htake j hdrop

theorem OrdersGroup.count {key : Option (List String)} {out : List Nat} (h : OrdersGroup k isTopk rows key out) :
    ((groupOf rows key).filter (selected k isTopk rows)).length = min k (groupOf rows key).length := by
  have hnodup : out.Nodup := h.perm.nodup_iff.mpr (groupOf_increasing.imp fun hlt => ne_of_lt hlt)
  have hfilter : out.filter (selected k isTopk rows) = out.take k := by
    have htake : ∀ j ∈ out.take k, selected k isTopk rows j = true := fun j hj =>
      (h.take j (h.perm.mem_iff.mp (List.mem_of_mem_take hj))).mp hj
    have hdrop : ∀ j ∈ out.drop k, ¬selected k isTopk rows j = true := fun j hj hsel =>
      List.disjoint_take_drop hnodup le_rfl ((h.take j (h.perm.mem_iff.mp (List.mem_of_mem_drop hj))).mpr hsel) hj
    calc out.filter (selected k isTopk rows)
        = (out.take k ++ out.drop k).filter (selected k isTopk rows) := by rw [List.take_append_drop]
      _ = out.take k := by
        rw [List.filter_append, List.filter_eq_self.mpr htake, List.filter_eq_nil_iff.mpr hdrop, List.append_nil]
  rw [← (h.perm.filter _).length_eq, hfilter, List.length_take, h.perm.length_eq]

/-! ### The rows of all groups -/

def selectedRows (k : Nat) (isTopk : Bool) (rows : List (TopkRow V)) : List Nat :=
  (List.range rows.length).filter (selected k isTopk rows)

theorem mem_selectedRows : i ∈ selectedRows k isTopk rows ↔ i < rows.length ∧ selected k isTopk rows i = true := by
  simp [selectedRows]

theorem selectedRows_increasing : (selectedRows k isTopk rows).Pairwise (· < ·) :=
  List.pairwise_lt_range.filter _

theorem mem_partitionKeys : key ∈ partitionKeys rows ↔ ∃ i < rows.length, rowKey rows i = some key := by
  rw [partitionKeys, (List.mergeSort_perm _ _).mem_iff, List.mem_dedup, List.mem_map]
  constructor
  · rintro ⟨row, hrow, rfl⟩
    obtain ⟨i, hi, hrow⟩ := List.mem_iff_getElem.mp hrow
    exact ⟨i, hi, by simp [rowKey, hi, hrow]⟩
  · rintro ⟨i, hi, hkey⟩
    obtain ⟨row, hrow, hkey⟩ := Option.map_eq_some_iff.mp hkey
    exact ⟨row, List.mem_of_getElem? hrow, hkey⟩

theorem nodup_partitionKeys : (partitionKeys rows).Nodup :=
  (List.mergeSort_perm _ _).nodup_iff.mpr (List.nodup_dedup _)

theorem Ordered.ofKey (h : Ordered isTopk rows) (hkey : key ∈ partitionKeys rows) :
    TotalOn (compareRows isTopk rows) (groupOf rows (some key)) := by
  obtain ⟨i, hi, hrow⟩ := mem_partitionKeys.mp hkey
  exact hrow ▸ h i hi

/-- The rows that the groups select, in input order. -/
theorem selectedIndices_eq (hdoc : SortDocumented sortBy) (h : Ordered isTopk rows) :
    selectedIndices sortBy k isTopk rows = some (selectedRows k isTopk rows) := by
  have hout : ∀ key, ∃ out, key ∈ partitionKeys rows →
      sortBy (compareRows isTopk rows) (groupOf rows (some key)) = some out ∧
        OrdersGroup k isTopk rows (some key) out := fun key => by
    by_cases hkey : key ∈ partitionKeys rows
    · obtain ⟨out, hout⟩ := ordersGroup_of_sort hdoc (h.ofKey hkey) (k := k)
      exact ⟨out, fun _ => hout⟩
    · exact ⟨[], fun hin => absurd hin hkey⟩
  choose out hout using hout
  have hmap : (partitionKeys rows).mapM (fun key =>
      (sortBy (compareRows isTopk rows) (groupOf rows (some key))).map (·.take k)) =
        some ((partitionKeys rows).map fun key => (out key).take k) := by
    refine mapM_of_some fun key hkey => ?_
    rw [(hout key hkey).1, Option.map_some]
  have hgroup {key : List String} (hkey : key ∈ partitionKeys rows) {i : Nat} (hi : i ∈ (out key).take k) :
      i ∈ groupOf rows (some key) := (hout key hkey).2.perm.mem_iff.mp (List.mem_of_mem_take hi)
  have hmem (i : Nat) : i ∈ ((partitionKeys rows).map fun key => (out key).take k).flatten ↔
      i ∈ selectedRows k isTopk rows := by
    rw [List.mem_flatten, mem_selectedRows]
    constructor
    · rintro ⟨l, hl, hi⟩
      obtain ⟨key, hkey, rfl⟩ := List.mem_map.mp hl
      have hi' := hgroup hkey hi
      exact ⟨(mem_groupOf.mp hi').1, ((hout key hkey).2.take i hi').mp hi⟩
    · rintro ⟨hi, hsel⟩
      have hrow : rowKey rows i = some rows[i].partitionKey := by simp [rowKey, hi]
      have hkey := mem_partitionKeys.mpr ⟨i, hi, hrow⟩
      exact ⟨_, List.mem_map_of_mem hkey, ((hout _ hkey).2.take i (mem_groupOf.mpr ⟨hi, hrow⟩)).mpr hsel⟩
  have hnodup : ((partitionKeys rows).map fun key => (out key).take k).flatten.Nodup := by
    refine List.nodup_flatten.mpr ⟨fun l hl => ?_, List.pairwise_map.mpr ?_⟩
    · obtain ⟨key, hkey, rfl⟩ := List.mem_map.mp hl
      have hincreasing : (groupOf rows (some key)).Pairwise (· < ·) := groupOf_increasing
      exact ((hout key hkey).2.perm.nodup_iff.mpr (hincreasing.imp fun hlt => ne_of_lt hlt)).sublist
        (List.take_sublist _ _)
    · refine nodup_partitionKeys.imp_of_mem fun {a b} ha hb hne i hi hi' => ?_
      have hkey := (mem_groupOf.mp (hgroup ha hi)).2.symm.trans (mem_groupOf.mp (hgroup hb hi')).2
      exact hne (Option.some.inj hkey)
  rw [selectedIndices, hmap, Option.map_some, Option.some.injEq]
  have hperm := (List.perm_ext_iff_of_nodup hnodup (selectedRows_increasing.imp fun hlt => ne_of_lt hlt)).mpr hmem
  refine List.Perm.eq_of_pairwise (fun a b _ _ hab hba => le_antisymm hab hba) ?_
    (selectedRows_increasing.imp fun hlt => le_of_lt hlt) ((List.mergeSort_perm _ _).trans hperm)
  exact (List.pairwise_mergeSort (by simpa using fun a b c => le_trans) (by simpa using le_total) _).imp
    of_decide_eq_true

theorem ordered_of_cautiousSort {l : List Nat} (h : selectedIndices cautiousSort k isTopk rows = some l) :
    Ordered isTopk rows := by
  intro i hi
  have hrow : rowKey rows i = some rows[i].partitionKey := by simp [rowKey, hi]
  obtain ⟨selected, hselected, -⟩ := Option.map_eq_some_iff.mp h
  obtain ⟨out, hout⟩ := exists_of_mapM_some hselected (mem_partitionKeys.mpr ⟨i, hi, hrow⟩)
  obtain ⟨sorted, hsorted, -⟩ := Option.map_eq_some_iff.mp hout
  rw [hrow]
  exact totalOn_of_cautiousSort hsorted

/-! ### The rows that are given out -/

/-- The selected rows with their indices as `u32`. -/
def truncated (k : Nat) (isTopk : Bool) (rows : List (TopkRow V)) : List Nat :=
  if (selectedRows k isTopk rows).length = rows.length then List.range rows.length
  else (selectedRows k isTopk rows).map (· % 2 ^ 32)

theorem takenIndices_eq (hdoc : SortDocumented sortBy) (h : Ordered isTopk rows) :
    takenIndices sortBy k isTopk rows = some (truncated k isTopk rows) := by
  rw [takenIndices, selectedIndices_eq hdoc h, Option.map_some, truncated]

/-- No index is cut off: all rows are selected, or none beyond the range of a `u32`. -/
def Untruncated (k : Nat) (isTopk : Bool) (rows : List (TopkRow V)) : Prop :=
  (selectedRows k isTopk rows).length = rows.length ∨ ∀ i ∈ selectedRows k isTopk rows, i < 2 ^ 32

theorem selectedRows_eq_range (h : (selectedRows k isTopk rows).length = rows.length) :
    selectedRows k isTopk rows = List.range rows.length := by
  refine List.filter_sublist.eq_of_length ?_
  rw [List.length_range]
  exact h

theorem truncated_eq (h : Untruncated k isTopk rows) : truncated k isTopk rows = selectedRows k isTopk rows := by
  unfold truncated
  split_ifs with hall
  · exact (selectedRows_eq_range hall).symm
  · have hsmall : ∀ i ∈ selectedRows k isTopk rows, i % 2 ^ 32 = i := fun i hi =>
      Nat.mod_eq_of_lt (h.resolve_left hall i hi)
    exact List.map_congr_left hsmall |>.trans (List.map_id _)

theorem groupOf_selectedRows {key : Option (List String)} :
    (selectedRows k isTopk rows).filter (fun j => rowKey rows j = key) =
      (groupOf rows key).filter (selected k isTopk rows) := by
  simp only [selectedRows, groupOf, List.filter_filter]
  exact List.filter_congr fun j _ => Bool.and_comm _ _

theorem Ordered.count (h : Ordered isTopk rows) (hi : i < rows.length) :
    ((selectedRows k isTopk rows).filter fun j => SameGroup rows i j).length =
      min k ((List.range rows.length).filter fun j => SameGroup rows i j).length := by
  obtain ⟨out, hout⟩ := h.group hi (k := k)
  rw [← groupOf_eq, ← hout.count, ← groupOf_selectedRows]
  exact congrArg List.length (List.filter_congr fun j _ => decide_eq_decide.mpr sameGroup_iff)

/-- Indices that are cut off are not those of the rows to keep: a row that is dropped is selected before one of its
    group that takes its place. -/
theorem untruncated_of_keeps (h : Ordered isTopk rows) (hkeeps : KeepsBest k isTopk rows (truncated k isTopk rows)) :
    Untruncated k isTopk rows := by
  by_contra hcon
  simp only [Untruncated, not_or, not_forall, not_lt] at hcon
  obtain ⟨hlen, i, hi, hlarge⟩ := hcon
  obtain ⟨hin, hsel⟩ := mem_selectedRows.mp hi
  rw [truncated, if_neg hlen] at hkeeps
  have hsmall : ∀ j ∈ (selectedRows k isTopk rows).map (· % 2 ^ 32), j < 2 ^ 32 := fun j hj => by
    obtain ⟨j', -, rfl⟩ := List.mem_map.mp hj
    exact Nat.mod_lt _ (by decide)
  have hdropped : i ∉ (selectedRows k isTopk rows).map (· % 2 ^ 32) := fun hmem => (hsmall i hmem).not_ge hlarge
  -- the group of the row has as many rows taken as selected, so one is taken that is not selected
  obtain ⟨j, htaken, hsame, hnot⟩ : ∃ j ∈ (selectedRows k isTopk rows).map (· % 2 ^ 32), SameGroup rows i j ∧
      j ∉ selectedRows k isTopk rows := by
    by_contra hnone
    simp only [not_exists, not_and, not_not] at hnone
    have hlength := (hkeeps.count i hin).trans (h.count hin (k := k)).symm
    have hself : i ∈ (selectedRows k isTopk rows).filter fun j => SameGroup rows i j :=
      List.mem_filter.mpr ⟨hi, decide_eq_true rfl⟩
    have hsub : ((selectedRows k isTopk rows).map (· % 2 ^ 32)).filter (fun j => SameGroup rows i j) ⊆
        ((selectedRows k isTopk rows).filter fun j => SameGroup rows i j).erase i := fun j hj => by
      obtain ⟨hj, hsame⟩ := List.mem_filter.mp hj
      have hne : j ≠ i := fun heq => hdropped (heq ▸ hj)
      exact (List.mem_erase_of_ne hne).mpr
        (List.mem_filter.mpr ⟨hnone j hj (of_decide_eq_true hsame), hsame⟩)
    have hnodup : (((selectedRows k isTopk rows).map (· % 2 ^ 32)).filter fun j => SameGroup rows i j).Nodup :=
      (hkeeps.order.imp fun hlt => ne_of_lt hlt).filter _
    have hle := (List.subperm_of_subset hnodup hsub).length_le
    rw [List.length_erase_of_mem hself, hlength] at hle
    have hpos := List.length_pos_of_mem hself
    omega
  have hjn := hkeeps.known j htaken
  have hkey := sameGroup_iff.mp hsame
  obtain ⟨out, hout⟩ := h.group hin (k := k)
  have hunselected : selected k isTopk rows j = false := by
    rw [← Bool.not_eq_true]
    exact fun hsel => hnot (mem_selectedRows.mpr ⟨hjn, hsel⟩)
  have hprec := hout.precedes (mem_groupOf.mpr ⟨hin, rfl⟩) (mem_groupOf.mpr ⟨hjn, hkey⟩) hsel hunselected
  have hji : ¬i < j := fun hlt => ((hsmall j htaken).trans_le hlarge).not_gt hlt
  have hlt : compareRows isTopk rows i j = .lt := by
    simpa [precedes, hji] using hprec
  exact hkeeps.best j htaken i hin hdropped (sameGroup_iff.mpr hkey.symm) (compareValues_eq_lt.mp hlt).2.2

theorem all_selected_iff (h : Ordered isTopk rows) : (selectedRows k isTopk rows).length = rows.length ↔
    ∀ i < rows.length, (groupOf rows (rowKey rows i)).length ≤ k := by
  constructor
  · intro hall i hi
    have hcount := h.count hi (k := k)
    rw [selectedRows_eq_range hall, ← groupOf_eq] at hcount
    omega
  · intro hsmall
    have hsel : selectedRows k isTopk rows = List.range rows.length := by
      refine List.filter_eq_self.mpr fun i hi => ?_
      have hin := List.mem_range.mp hi
      obtain ⟨out, hout⟩ := h.group hin (k := k)
      have hmem : i ∈ groupOf rows (rowKey rows i) := mem_groupOf.mpr ⟨hin, rfl⟩
      refine (hout.take i hmem).mp ?_
      rw [List.take_of_length_le (hout.perm.length_eq.trans_le (hsmall i hin))]
      exact hout.perm.mem_iff.mpr hmem
    rw [hsel, List.length_range]

theorem untruncated_iff (h : Ordered isTopk rows) : Untruncated k isTopk rows ↔
    (∀ i < rows.length, (groupOf rows (rowKey rows i)).length ≤ k) ∨
      ∀ i < rows.length, 2 ^ 32 ≤ i → k ≤ (groupOf rows (rowKey rows i)).countP fun j => precedes isTopk rows j i := by
  refine or_congr (all_selected_iff h) (forall_congr' fun i => ?_)
  rw [mem_selectedRows, selected, decide_eq_true_iff]
  constructor
  · intro hsmall hi hlarge
    exact not_lt.mp fun hlt => (hsmall ⟨hi, hlt⟩).not_ge hlarge
  · rintro hlarge ⟨hi, hlt⟩
    exact not_le.mp fun hle => (hlarge hi hle).not_gt hlt

/-! ### The rows that are kept -/

theorem selected_iff_take {key : Option (List String)} (h : TotalOn (compareRows isTopk rows) (groupOf rows key))
    (hequal : ∀ a ∈ groupOf rows key, ∀ b ∈ groupOf rows key, compareRows isTopk rows a b = .eq)
    (hi : i ∈ groupOf rows key) : selected k isTopk rows i = true ↔ i ∈ (groupOf rows key).take k := by
  have horder : (groupOf rows key).Pairwise fun a b => precedes isTopk rows a b = true :=
    groupOf_increasing.imp_of_mem fun ha hb hlt => by simp [precedes, hequal _ ha _ hb, hlt]
  exact ((ordersGroup_of_perm h (List.Perm.refl _) horder).take i hi).symm

theorem compareRows_eq {l : List Nat}
    (h : ∀ x y, some x ∈ l.map (rowValue rows) → some y ∈ l.map (rowValue rows) → x = y) :
    ∀ a ∈ l, ∀ b ∈ l, compareRows isTopk rows a b = .eq := by
  intro a ha b hb
  have hva : rowValue rows a ∈ l.map (rowValue rows) := List.mem_map_of_mem ha
  have hvb : rowValue rows b ∈ l.map (rowValue rows) := List.mem_map_of_mem hb
  unfold compareRows
  rcases hx : rowValue rows a with _ | x
  · exact compareValues_none_left
  · rcases hy : rowValue rows b with _ | y
    · exact compareValues_none_right
    · rw [h x y (hx ▸ hva) (hy ▸ hvb)]
      exact compareValues_self

theorem not_ranksAbove_of_fits (h : Ordered isTopk rows) (hi : i < rows.length)
    (hfits : GroupFits k ((groupOf rows (rowKey rows i)).map (rowValue rows))) (hj : j < rows.length)
    (hkey : rowKey rows j = rowKey rows i) (hsel : selected k isTopk rows i = true)
    (hnot : selected k isTopk rows j = false) : ¬RanksAbove isTopk (rowValue rows j) (rowValue rows i) := by
  have hmi : i ∈ groupOf rows (rowKey rows i) := mem_groupOf.mpr ⟨hi, rfl⟩
  have hmj : j ∈ groupOf rows (rowKey rows i) := mem_groupOf.mpr ⟨hj, hkey⟩
  obtain ⟨out, hout⟩ := h.group hi (k := k)
  have hprec := hout.precedes hmi hmj hsel hnot
  rcases hnone : rowValue rows i with _ | x
  · rcases hfits with hfits | ⟨hequal, hfirst⟩
    · exact absurd (hnone ▸ List.mem_map_of_mem hmi) hfits
    · have hcompare : ∀ a ∈ _, ∀ b ∈ _, compareRows isTopk rows a b = .eq := compareRows_eq hequal
      have hi' := (selected_iff_take (h i hi) hcompare hmi).mp hsel
      have hj' : j ∈ (groupOf rows (rowKey rows i)).drop k := by
        have hmem : j ∈ (groupOf rows (rowKey rows i)).take k ++ (groupOf rows (rowKey rows i)).drop k := by
          rw [List.take_append_drop]
          exact hmj
        rcases List.mem_append.mp hmem with htake | hdrop
        · rw [(selected_iff_take (h i hi) hcompare hmj).mpr htake] at hnot
          cases hnot
        · exact hdrop
      have hnan : rowValue rows j = none := by
        refine hfirst ?_ _ ?_
        · rw [← List.map_take, ← hnone]
          exact List.mem_map_of_mem hi'
        · rw [← List.map_drop]
          exact List.mem_map_of_mem hj'
      rintro ⟨y, hy, -⟩
      rw [hnan] at hy
      cases hy
  · rw [← hnone]
    exact not_ranksAbove_of_precedes hprec (by simp [hnone])

theorem keepsBest_of_fits (h : Ordered isTopk rows)
    (hfits : ∀ i < rows.length, GroupFits k ((groupOf rows (rowKey rows i)).map (rowValue rows))) :
    KeepsBest k isTopk rows (selectedRows k isTopk rows) where
  order := selectedRows_increasing
  known i hi := (mem_selectedRows.mp hi).1
  count i hi := h.count hi
  best i hi j hj hnot hsame := by
    obtain ⟨hin, hsel⟩ := mem_selectedRows.mp hi
    have hunselected : selected k isTopk rows j = false := by
      rw [← Bool.not_eq_true]
      exact fun hsel => hnot (mem_selectedRows.mpr ⟨hj, hsel⟩)
    exact not_ranksAbove_of_fits h hin (hfits i hin) hj (sameGroup_iff.mp hsame) hsel hunselected

theorem fits_of_keepsBest (h : Ordered isTopk rows) (hkeeps : KeepsBest k isTopk rows (selectedRows k isTopk rows))
    (hi : i < rows.length) : GroupFits k ((groupOf rows (rowKey rows i)).map (rowValue rows)) := by
  refine (totalOn_compareRows_iff.mp (h i hi)).imp id fun hequal => ⟨hequal, fun hnan v hv => ?_⟩
  rw [← List.map_take] at hnan
  rw [← List.map_drop] at hv
  obtain ⟨a, ha, hva⟩ := List.mem_map.mp hnan
  obtain ⟨b, hb, rfl⟩ := List.mem_map.mp hv
  by_contra hnumber
  obtain ⟨y, hy⟩ := Option.ne_none_iff_exists'.mp hnumber
  have hma := List.mem_of_mem_take ha
  have hmb := List.mem_of_mem_drop hb
  have hcompare : ∀ a ∈ _, ∀ b ∈ _, compareRows isTopk rows a b = .eq := compareRows_eq hequal
  have hsel := (selected_iff_take (h i hi) hcompare hma).mpr ha
  have hnot : b ∉ selectedRows k isTopk rows := fun hmem => by
    have htake := (selected_iff_take (h i hi) hcompare hmb).mp (mem_selectedRows.mp hmem).2
    exact List.disjoint_take_drop (groupOf_increasing.imp fun hlt => ne_of_lt hlt) le_rfl htake hb
  obtain ⟨han, hkeya⟩ := mem_groupOf.mp hma
  obtain ⟨hbn, hkeyb⟩ := mem_groupOf.mp hmb
  refine hkeeps.best a (mem_selectedRows.mpr ⟨han, hsel⟩) b hbn hnot (sameGroup_iff.mpr (hkeyb.trans hkeya.symm)) ?_
  rw [hva, hy]
  exact ⟨y, rfl, by simp⟩

theorem processBatches_eq {batches : List (List (TopkRow V))}
    (h : takenIndices sortBy k isTopk batches.flatten = some taken) :
    processBatches sortBy k isTopk batches = some (taken.filterMap (batches.flatten[·]?)) := by
  rw [processBatches, h]
  split_ifs with hempty
  · simp [hempty]
  · rfl

/-- The rows that should be kept are given out, whatever sort keeps what is documented, exactly if every group fits. -/
theorem topkRight_iff {batches : List (List (TopkRow V))} :
    (∀ sortBy, SortDocumented sortBy → TopkRight sortBy k isTopk batches) ↔ TopkFits k isTopk batches.flatten := by
  constructor
  · intro hright
    obtain ⟨taken, htaken, hkeeps, -⟩ := hright _ cautiousSort_documented
    obtain ⟨l, hl, -⟩ := Option.map_eq_some_iff.mp htaken
    have hordered := ordered_of_cautiousSort hl
    obtain rfl : truncated k isTopk batches.flatten = taken :=
      Option.some.inj ((takenIndices_eq cautiousSort_documented hordered).symm.trans htaken)
    have huntruncated := untruncated_of_keeps hordered hkeeps
    rw [truncated_eq huntruncated] at hkeeps
    exact ⟨fun i hi => fits_of_keepsBest hordered hkeeps hi, (untruncated_iff hordered).mp huntruncated⟩
  · intro hfits sortBy hdoc
    have hordered : Ordered isTopk batches.flatten := fun i hi =>
      totalOn_compareRows_iff.mpr ((hfits.groups i hi).imp id And.left)
    have htaken := takenIndices_eq hdoc hordered (k := k)
    refine ⟨_, htaken, ?_, processBatches_eq htaken⟩
    rw [truncated_eq ((untruncated_iff hordered).mpr hfits.small)]
    exact keepsBest_of_fits hordered hfits.groups

/-- The rows of one group with the values 1, NaN and 2. -/
def nanBetween : List (TopkRow Nat) := [⟨0, [], some 1⟩, ⟨0, [], none⟩, ⟨0, [], some 2⟩]

/-- Insertion sort, as a short slice is sorted, keeps 1 and drops 2. -/
theorem topk_drops_greatest :
    SortDocumented (fun (cmp : Nat → Nat → Ordering) l => some (insertionSortBy cmp l)) ∧
      ¬TopkRight (fun cmp l => some (insertionSortBy cmp l)) 1 true [nanBetween] := by
  refine ⟨insertionSortBy_documented, ?_⟩
  rintro ⟨taken, htaken, hkeeps, -⟩
  have hfirst : takenIndices (fun cmp l => some (insertionSortBy cmp l)) 1 true [nanBetween].flatten = some [0] := by
    decide +kernel
  obtain rfl : [0] = taken := Option.some.inj (hfirst.symm.trans htaken)
  exact hkeeps.best 0 (by decide) 2 (by decide) (by decide) (by decide) ⟨2, rfl, by decide⟩

end Reiver.Core
