import Reiver.Lib.Binary64
import Reiver.Lib.Greatest
import Reiver.Pond.WalIndex.TwoPhase

/-! # Blocks that are ruled out by their least and greatest value

The builder of `wal_index/skip_index.rs` on the values of the doubles. Integers are rounded to doubles when they are
added and when they are asked for, so a strict comparison is lost where an integer is rounded to the double of the
threshold. -/

namespace Reiver.Pond

/-- The value of a double, `none` for NaN. -/
abbrev DoubleValue := Option ExtRat

def doubleOps : FloatOps DoubleValue where
  ofInt64 v := some (toBinary64 (v.toInt : ℚ))
  ofBits bits := valueOfBits bits.toNat
  isNan x := x.isNone
  le x y := x.any fun a => y.any fun b => a ≤ b
  lt x y := x.any fun a => y.any fun b => a < b

/-! ### The builder -/

structure NumericStats extends MinMaxStats DoubleValue where
  nullCount : Nat
  valueCount : Nat

namespace NumericStats

def empty : NumericStats := { min := some ⊤, max := some ⊥, nullCount := 0, valueCount := 0 }

def new (value : DoubleValue) : NumericStats :=
  if doubleOps.isNan value then { empty with valueCount := 1 }
  else { min := value, max := value, nullCount := 0, valueCount := 1 }

def update (stats : NumericStats) : Option DoubleValue → NumericStats
  | some v =>
    if doubleOps.isNan v then { stats with valueCount := stats.valueCount + 1 }
    else
      { stats with
        min := if doubleOps.lt v stats.min then v else stats.min
        max := if doubleOps.lt stats.max v then v else stats.max
        valueCount := stats.valueCount + 1 }
  | none => { stats with nullCount := stats.nullCount + 1 }

end NumericStats

structure SkipIndexBuilder where
  minMax : Option NumericStats
  valueHashes : List Nat
  isNumeric : Bool

namespace SkipIndexBuilder

def numeric : SkipIndexBuilder := ⟨none, [], true⟩

def string : SkipIndexBuilder := ⟨none, [], false⟩

def addValue (hashes : WalHashes) (builder : SkipIndexBuilder) (value : ColumnValue) : SkipIndexBuilder :=
  if builder.isNumeric then
    let f := value.asF64 doubleOps
    match builder.minMax with
    | some stats => { builder with minMax := some (stats.update f) }
    | none =>
      match f with
      | some v => { builder with minMax := some (NumericStats.new v) }
      | none => { builder with minMax := some { NumericStats.empty with nullCount := 1 } }
  else { builder with valueHashes := builder.valueHashes ++ [hashes.valueHash value] }

/-- The filter of hashes is built by `buildFilter`, which may fail. -/
def build (buildFilter : List Nat → Option (Nat → Bool)) (builder : SkipIndexBuilder) :
    Except String (BlockSkipIndex DoubleValue) :=
  if builder.isNumeric then .ok (.minMax (builder.minMax.getD NumericStats.empty).toMinMaxStats)
  else if builder.valueHashes = [] then .error "No values to build Xor filter"
  else
    match buildFilter builder.valueHashes.dedup with
    | some contains => .ok (.xorFilter contains)
    | none => .error "Failed to build Xor filter"

end SkipIndexBuilder

/-! ### Least and greatest values -/

/-- The statistics are the least and the greatest of some values, the infinities of none. -/
structure MinMaxStats.Bounds (stats : MinMaxStats DoubleValue) (values : List ExtRat) : Prop where
  least : ∃ lo, stats.min = some lo ∧ (∀ x ∈ values, lo ≤ x) ∧ (lo ∈ values ∨ values = [] ∧ lo = ⊤)
  greatest : ∃ hi, stats.max = some hi ∧ (∀ x ∈ values, x ≤ hi) ∧ (hi ∈ values ∨ values = [] ∧ hi = ⊥)

section Bounds
variable {stats : NumericStats} {values : List ExtRat} {x : ExtRat}

theorem bounds_empty : NumericStats.empty.Bounds [] where
  least := ⟨⊤, rfl, fun _ h => absurd h List.not_mem_nil, .inr ⟨rfl, rfl⟩⟩
  greatest := ⟨⊥, rfl, fun _ h => absurd h List.not_mem_nil, .inr ⟨rfl, rfl⟩⟩

theorem bounds_new : (NumericStats.new (some x)).Bounds [x] where
  least := ⟨x, rfl, fun _ h => (List.mem_singleton.mp h).ge, .inl (List.mem_singleton_self x)⟩
  greatest := ⟨x, rfl, fun _ h => (List.mem_singleton.mp h).le, .inl (List.mem_singleton_self x)⟩

theorem bounds_update (h : stats.Bounds values) : (stats.update (some (some x))).Bounds (values ++ [x]) := by
  obtain ⟨lo, hlo, hle, hmem⟩ := h.least
  obtain ⟨hi, hhi, hge, hmem'⟩ := h.greatest
  have hmin : (stats.update (some (some x))).min = if x < lo then some x else some lo := by
    show (if doubleOps.lt (some x) stats.min then some x else stats.min) = _
    rw [hlo]
    by_cases hlt : x < lo <;> simp [doubleOps, hlt]
  have hmax : (stats.update (some (some x))).max = if hi < x then some x else some hi := by
    show (if doubleOps.lt stats.max (some x) then some x else stats.max) = _
    rw [hhi]
    by_cases hlt : hi < x <;> simp [doubleOps, hlt]
  constructor
  · by_cases hlt : x < lo
    · refine ⟨x, by rw [hmin, if_pos hlt], fun y hy => ?_, .inl (List.mem_append_right _ (List.mem_singleton_self x))⟩
      rcases List.mem_append.mp hy with hy | hy
      · exact hlt.le.trans (hle y hy)
      · exact (List.mem_singleton.mp hy).ge
    · refine ⟨lo, by rw [hmin, if_neg hlt], fun y hy => ?_, ?_⟩
      · rcases List.mem_append.mp hy with hy | hy
        · exact hle y hy
        · exact List.mem_singleton.mp hy ▸ not_lt.mp hlt
      · rcases hmem with hmem | ⟨rfl, rfl⟩
        · exact .inl (List.mem_append_left _ hmem)
        · exact .inl (List.mem_singleton.mpr (top_le_iff.mp (not_lt.mp hlt)).symm)
  · by_cases hlt : hi < x
    · refine ⟨x, by rw [hmax, if_pos hlt], fun y hy => ?_, .inl (List.mem_append_right _ (List.mem_singleton_self x))⟩
      rcases List.mem_append.mp hy with hy | hy
      · exact (hge y hy).trans hlt.le
      · exact (List.mem_singleton.mp hy).le
    · refine ⟨hi, by rw [hmax, if_neg hlt], fun y hy => ?_, ?_⟩
      · rcases List.mem_append.mp hy with hy | hy
        · exact hge y hy
        · exact List.mem_singleton.mp hy ▸ not_lt.mp hlt
      · rcases hmem' with hmem' | ⟨rfl, rfl⟩
        · exact .inl (List.mem_append_left _ hmem')
        · exact .inl (List.mem_singleton.mpr (le_bot_iff.mp (not_lt.mp hlt)).symm)

end Bounds

/-- What a builder of a numeric column holds of the numbers that it was given. -/
structure SkipIndexBuilder.Holds (builder : SkipIndexBuilder) (xs : List ExtRat) : Prop where
  numeric : builder.isNumeric = true
  unset : builder.minMax = none → xs = []
  bounds : ∀ stats, builder.minMax = some stats → stats.Bounds xs

/-- The numbers among some values, as doubles; NaN is none. -/
def numbers (values : List ColumnValue) : List ExtRat := values.filterMap fun v => (v.asF64 doubleOps).join

section Builder
variable {hashes : WalHashes} {builder : SkipIndexBuilder} {xs : List ExtRat} {values : List ColumnValue}

/-- What the statistics become with one more value. -/
def nextStats : Option NumericStats → Option DoubleValue → NumericStats
  | some stats, f => stats.update f
  | none, some v => NumericStats.new v
  | none, none => { NumericStats.empty with nullCount := 1 }

theorem addValue_eq (hnumeric : builder.isNumeric = true) (value : ColumnValue) :
    builder.addValue hashes value =
      { builder with minMax := some (nextStats builder.minMax (value.asF64 doubleOps)) } := by
  rw [SkipIndexBuilder.addValue, if_pos hnumeric]
  dsimp only
  cases builder.minMax with
  | some stats => rfl
  | none =>
    cases value.asF64 doubleOps with
    | some v => rfl
    | none => rfl

theorem bounds_nextStats {minMax : Option NumericStats} (hunset : minMax = none → xs = [])
    (hbounds : ∀ stats, minMax = some stats → stats.Bounds xs) (f : Option DoubleValue) :
    (nextStats minMax f).Bounds (xs ++ f.join.toList) := by
  cases minMax with
  | none =>
    rw [hunset rfl, List.nil_append]
    rcases f with _ | _ | x
    · exact bounds_empty
    · exact bounds_empty
    · exact bounds_new
  | some stats =>
    have hstats := hbounds stats rfl
    rcases f with _ | _ | x
    · exact (List.append_nil xs).symm ▸ ⟨hstats.least, hstats.greatest⟩
    · exact (List.append_nil xs).symm ▸ ⟨hstats.least, hstats.greatest⟩
    · exact bounds_update hstats

theorem holds_addValue (h : builder.Holds xs) (value : ColumnValue) :
    (builder.addValue hashes value).Holds (xs ++ numbers [value]) := by
  have hnumbers : numbers [value] = (value.asF64 doubleOps).join.toList := by
    rw [numbers, List.filterMap_cons, List.filterMap_nil]
    cases (value.asF64 doubleOps).join with
    | none => rfl
    | some x => rfl
  rw [hnumbers, addValue_eq h.numeric]
  refine ⟨h.numeric, fun hnone => absurd hnone (Option.some_ne_none _), fun stats hstats => ?_⟩
  cases hstats
  exact bounds_nextStats h.unset h.bounds _

theorem holds_foldl (h : builder.Holds xs) (values : List ColumnValue) :
    (values.foldl (SkipIndexBuilder.addValue hashes) builder).Holds (xs ++ numbers values) := by
  induction values generalizing builder xs with
  | nil => exact (List.append_nil xs).symm ▸ h
  | cons value values ih =>
    have hsplit : numbers (value :: values) = numbers [value] ++ numbers values := by
      rw [numbers, ← List.singleton_append, List.filterMap_append]
      rfl
    rw [hsplit, ← List.append_assoc]
    exact ih (holds_addValue h value)

theorem holds_numeric : SkipIndexBuilder.numeric.Holds [] := ⟨rfl, fun _ => rfl, fun _ h => by cases h⟩

theorem build_bounds {buildFilter : List Nat → Option (Nat → Bool)} (values : List ColumnValue) :
    ∃ stats : MinMaxStats DoubleValue, stats.Bounds (numbers values) ∧
      (values.foldl (SkipIndexBuilder.addValue hashes) .numeric).build buildFilter = .ok (.minMax stats) := by
  have h := @holds_foldl hashes _ _ holds_numeric values
  rw [List.nil_append] at h
  rw [SkipIndexBuilder.build, if_pos h.numeric]
  refine ⟨_, ?_, rfl⟩
  cases hminMax : (values.foldl (SkipIndexBuilder.addValue hashes) .numeric).minMax with
  | none => exact h.unset hminMax ▸ bounds_empty
  | some stats => exact h.bounds stats hminMax

end Builder

/-! ### Integers -/

/-- The integer of a value; times are their milliseconds. -/
def ColumnValue.integer : ColumnValue → Option Int
  | .int64 v => some v.toInt
  | .timestamp millis => some millis.toInt
  | _ => none

def ColumnValue.isIntegral : ColumnValue → Bool
  | .int64 _ | .timestamp _ | .null => true
  | _ => false

def asDouble (v : Int) : ExtRat := toBinary64 (v : ℚ)

/-- No comparison with a threshold misses a value of the block. -/
def EliminationSound (hashes : WalHashes) (buildFilter : List Nat → Option (Nat → Bool)) (values : List ColumnValue)
    (t : Int64) : Prop :=
  ∀ index, (values.foldl (SkipIndexBuilder.addValue hashes) .numeric).build buildFilter = .ok index →
    ∀ v ∈ values.filterMap ColumnValue.integer,
      (v = t.toInt → index.mightContainEq doubleOps hashes (.int64 t) = true) ∧
      (t.toInt < v → index.mightContainGt doubleOps (.int64 t) = true) ∧
      (t.toInt ≤ v → index.mightContainGte doubleOps (.int64 t) = true) ∧
      (v < t.toInt → index.mightContainLt doubleOps (.int64 t) = true) ∧
      (v ≤ t.toInt → index.mightContainLte doubleOps (.int64 t) = true)

/-- The threshold is not rounded to the double of the greatest value above it, nor to that of the least value below. -/
def RoundedApart (values : List ColumnValue) (t : Int64) : Prop :=
  ∀ v ∈ values.filterMap ColumnValue.integer,
    ((∀ w ∈ values.filterMap ColumnValue.integer, w ≤ v) → t.toInt < v → asDouble v ≠ asDouble t.toInt) ∧
    ((∀ w ∈ values.filterMap ColumnValue.integer, v ≤ w) → v < t.toInt → asDouble v ≠ asDouble t.toInt)

section Integers
variable {hashes : WalHashes} {buildFilter : List Nat → Option (Nat → Bool)} {values : List ColumnValue} {t : Int64}
  {stats : MinMaxStats DoubleValue} {v w : Int}

theorem asDouble_mono (h : v ≤ w) : asDouble v ≤ asDouble w := toBinary64_mono (Int.cast_le.mpr h)

theorem numbers_of_integral (h : ∀ value ∈ values, value.isIntegral = true) :
    numbers values = (values.filterMap ColumnValue.integer).map asDouble := by
  rw [numbers, List.map_filterMap]
  refine List.filterMap_congr fun value hvalue => ?_
  have hintegral := h value hvalue
  cases value with
  | int64 _ | timestamp _ | null => rfl
  | bool _ | float64 _ | string _ | bytes _ => cases hintegral

theorem checks_iff (hashes : WalHashes) {lo hi : ExtRat} (hlo : stats.min = some lo) (hhi : stats.max = some hi)
    (t : Int64) :
    ((BlockSkipIndex.minMax stats).mightContainEq doubleOps hashes (.int64 t) = true ↔
        lo ≤ asDouble t.toInt ∧ asDouble t.toInt ≤ hi) ∧
      ((BlockSkipIndex.minMax stats).mightContainGt doubleOps (.int64 t) = true ↔ asDouble t.toInt < hi) ∧
      ((BlockSkipIndex.minMax stats).mightContainGte doubleOps (.int64 t) = true ↔ asDouble t.toInt ≤ hi) ∧
      ((BlockSkipIndex.minMax stats).mightContainLt doubleOps (.int64 t) = true ↔ lo < asDouble t.toInt) ∧
      ((BlockSkipIndex.minMax stats).mightContainLte doubleOps (.int64 t) = true ↔ lo ≤ asDouble t.toInt) := by
  obtain ⟨min, max⟩ := stats
  cases hlo
  cases hhi
  simp [BlockSkipIndex.mightContainEq, BlockSkipIndex.mightContainGt, BlockSkipIndex.mightContainGte,
    BlockSkipIndex.mightContainLt, BlockSkipIndex.mightContainLte, BlockSkipIndex.mightCompare,
    MinMaxStats.mightContain, MinMaxStats.mightContainGt, MinMaxStats.mightContainGte, MinMaxStats.mightContainLt,
    MinMaxStats.mightContainLte, ColumnValue.asF64, doubleOps, asDouble]

theorem exists_greatest {l : List Int} (h : v ∈ l) : ∃ g ∈ l, ∀ w ∈ l, w ≤ g := by
  have hgreatest : GreatestIn id (greatest id l) l := greatestIn_greatest l
  cases hl : greatest id l with
  | none =>
    rw [hl] at hgreatest
    have hnil : l = [] := hgreatest
    exact absurd h (hnil ▸ List.not_mem_nil)
  | some g =>
    rw [hl] at hgreatest
    exact ⟨g, hgreatest⟩

theorem exists_least {l : List Int} (h : v ∈ l) : ∃ g ∈ l, ∀ w ∈ l, g ≤ w := by
  obtain ⟨g, hg, hall⟩ := exists_greatest (l := l.map Neg.neg) (List.mem_map_of_mem h)
  obtain ⟨w, hw, rfl⟩ := List.mem_map.mp hg
  exact ⟨w, hw, fun u hu => Int.neg_le_neg_iff.mp (hall _ (List.mem_map_of_mem hu))⟩

/-- No block is ruled out wrongly exactly if rounding keeps the threshold apart from the greatest value where this is
    above it, and from the least where it is below. -/
theorem eliminationSound_iff (h : ∀ value ∈ values, value.isIntegral = true) :
    EliminationSound hashes buildFilter values t ↔ RoundedApart values t := by
  obtain ⟨stats, hbounds, hbuild⟩ := @build_bounds hashes buildFilter values
  rw [numbers_of_integral h] at hbounds
  obtain ⟨lo, hlo, hle, hmem⟩ := hbounds.least
  obtain ⟨hi, hhi, hge, hmem'⟩ := hbounds.greatest
  obtain ⟨heq, hgt, hgte, hlt, hlte⟩ := checks_iff hashes hlo hhi t
  have hlow : ∀ v ∈ values.filterMap ColumnValue.integer, lo ≤ asDouble v := fun v hv => hle _ (List.mem_map_of_mem hv)
  have hhigh : ∀ v ∈ values.filterMap ColumnValue.integer, asDouble v ≤ hi := fun v hv => hge _ (List.mem_map_of_mem hv)
  constructor
  · intro hsound v hv
    have hne : (values.filterMap ColumnValue.integer).map asDouble ≠ [] := List.ne_nil_of_mem (List.mem_map_of_mem hv)
    obtain ⟨-, hvgt, -, hvlt, -⟩ := hsound _ hbuild v hv
    constructor
    · intro hgreatest hlt' hsame
      obtain ⟨w, hw, rfl⟩ := List.mem_map.mp (hmem'.resolve_right fun h => hne h.1)
      exact absurd (hgt.mp (hvgt hlt')) (not_lt.mpr (hsame ▸ asDouble_mono (hgreatest w hw)))
    · intro hleast hlt' hsame
      obtain ⟨w, hw, rfl⟩ := List.mem_map.mp (hmem.resolve_right fun h => hne h.1)
      exact absurd (hlt.mp (hvlt hlt')) (not_lt.mpr (hsame ▸ asDouble_mono (hleast w hw)))
  · intro hapart index hindex v hv
    cases hbuild.symm.trans hindex
    refine ⟨fun hvt => ?_, fun hvt => ?_, fun hvt => ?_, fun hvt => ?_, fun hvt => ?_⟩
    · exact heq.mpr ⟨hvt ▸ hlow v hv, hvt ▸ hhigh v hv⟩
    · obtain ⟨g, hg, hgreatest⟩ := exists_greatest hv
      have htg : t.toInt < g := hvt.trans_le (hgreatest v hv)
      exact hgt.mpr ((lt_of_le_of_ne (asDouble_mono htg.le) ((hapart g hg).1 hgreatest htg).symm).trans_le (hhigh g hg))
    · exact hgte.mpr ((asDouble_mono hvt).trans (hhigh v hv))
    · obtain ⟨g, hg, hleast⟩ := exists_least hv
      have hgt' : g < t.toInt := (hleast v hv).trans_lt hvt
      exact hlt.mpr ((hlow g hg).trans_lt (lt_of_le_of_ne (asDouble_mono hgt'.le) ((hapart g hg).2 hleast hgt')))
    · exact hlte.mpr ((hlow v hv).trans (asDouble_mono hvt))

/-! ### Small and large thresholds -/

end Integers

section Examples

def noHashes : WalHashes := ⟨fun _ => 0, fun _ => 0⟩

theorem eliminationSound_iff_nulls :
    EliminationSound noHashes (fun _ => none) [.int64 5, .null, .timestamp 7] 6 ↔
      RoundedApart [.int64 5, .null, .timestamp 7] 6 :=
  eliminationSound_iff (by decide)

/-- The block of `2 ^ 53 + 1` is ruled out for values above `2 ^ 53`, to which it is rounded. -/
theorem not_eliminationSound :
    ¬ EliminationSound noHashes (fun _ => none) [.int64 9007199254740993] 9007199254740992 := by
  intro hsound
  have hdouble : ∀ n : Nat, Nat.log 2 n = 53 → nearestInt ((n : ℚ) / 2 ^ (1 : ℤ)) = 2 ^ 52 →
      asDouble (n : ℤ) = overflow (2 ^ 53) := by
    intro n hlog hnearest
    have hexponent : lastExponent (n : ℚ) = 1 := by
      rw [lastExponent, Int.log_natCast, hlog]
      rfl
    have hsign : (0 : ℚ) ≤ ((n : ℤ) : ℚ) := Nat.cast_nonneg n
    have hmagnitude : roundMagnitude ((n : ℤ) : ℚ) = 2 ^ 53 := by
      rw [Int.cast_natCast, roundMagnitude, hexponent, hnearest]
      norm_num
    rw [asDouble, toBinary64, if_pos hsign, hmagnitude]
  have hvalue : asDouble 9007199254740993 = overflow (2 ^ 53) :=
    hdouble 9007199254740993 (by rw [Nat.log_eq_iff (by decide)]; decide) (by norm_num [nearestInt])
  have hthreshold : asDouble 9007199254740992 = overflow (2 ^ 53) :=
    hdouble 9007199254740992 (by rw [Nat.log_eq_iff (by decide)]; decide) (by norm_num [nearestInt])
  obtain ⟨-, hgt, -⟩ := hsound _ rfl 9007199254740993 List.mem_cons_self
  have hlt := (checks_iff noHashes rfl rfl 9007199254740992).2.1.mp (hgt (by decide))
  have hsame : asDouble 9007199254740992 < asDouble 9007199254740993 := hlt
  rw [hvalue, hthreshold] at hsame
  exact lt_irrefl _ hsame

end Examples

end Reiver.Pond
