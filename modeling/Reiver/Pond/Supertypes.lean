import Reiver.Pond.CoercionOrder
import Reiver.Pond.TypeValues

/-! # Common supertypes

What coercion to a type promises: that its values include those of both columns, in either order of the columns. -/

namespace Reiver.Pond

def ArrowType.decimalBased : ArrowType → Bool
  | .decimal128 .. | .decimal256 .. => true
  | .list (.new _ element _) | .largeList (.new _ element _) => element.decimalBased
  | _ => false

/-- The type that is to hold both: one that is given without a warning, or a decimal. -/
def CoercionResult.promised (left : ArrowType) : CoercionResult → Option ArrowType
  | .same => some left
  | .autoCoerce target none => some target
  | .autoCoerce target (some _) => if target.decimalBased then some target else none
  | _ => none

/-- Every value of either type is one of the promised type. -/
def KeepsValues (debug : ArrowType → String) (l r : ArrowType) : Prop :=
  ∀ t, (coerceArrowTypes debug l r).promised l = some t → l.values ⊆ t.values ∧ r.values ⊆ t.values

/-- Types a third one is promised for. -/
inductive Promises : ArrowType → ArrowType → Prop where
  | quietly {l r : ArrowType} (h : widensQuietly l r) : Promises l r
  | zones (u : TimeUnit) {tz tz' : String} (h : tz ≠ tz') : Promises (.timestamp u (some tz)) (.timestamp u (some tz'))
  | floatDecimal (p : UInt8) (s : Int8) : Promises .float64 (.decimal128 p s)
  | joins {l r : ArrowType} (h : Joins l r) : Promises l r
  | list {e e' : ArrowType} (n n' : String) (b b' : Bool) (h : Promises e e') :
    Promises (.list (.new n e b)) (.list (.new n' e' b'))
  | largeList {e e' : ArrowType} (n n' : String) (b b' : Bool) (h : Promises e e') :
    Promises (.largeList (.new n e b)) (.largeList (.new n' e' b'))

/-- The larger precision holds the digits of both decimals at the larger scale. -/
def BothFit (p p' : UInt8) (s s' : Int8) : Prop :=
  DigitsFit p.toNat s.toInt (max p.toNat p'.toNat) (max s.toInt s'.toInt) ∧
    DigitsFit p'.toNat s'.toInt (max p.toNat p'.toNat) (max s.toInt s'.toInt)

instance (p p' : Nat) (s s' : ℤ) : Decidable (DigitsFit p s p' s') :=
  inferInstanceAs (Decidable (p = 0 ∨ p + (s' - s) ≤ p'))

instance (p p' : UInt8) (s s' : Int8) : Decidable (BothFit p p' s s') := inferInstanceAs (Decidable (_ ∧ _))

/-- Types whose values are not all kept: decimals of too many digits, floats as decimals, durations of two units, and
lists with such elements, with nulls on the right alone, or, when long ones have to become short ones. -/
inductive LosesValues : ArrowType → ArrowType → Prop where
  | decimals {p p' : UInt8} {s s' : Int8} (h : ¬BothFit p p' s s') :
    LosesValues (.decimal128 p s) (.decimal128 p' s')
  | floatDecimal (p : UInt8) (s : Int8) : LosesValues .float64 (.decimal128 p s)
  | durations {u v : TimeUnit} (h : u ≠ v) : LosesValues (.duration u) (.duration v)
  | list {e e' : ArrowType} (n n' : String) (b b' : Bool) (h : LosesValues e e') :
    LosesValues (.list (.new n e b)) (.list (.new n' e' b'))
  | largeList {e e' : ArrowType} (n n' : String) (b b' : Bool) (h : LosesValues e e') :
    LosesValues (.largeList (.new n e b)) (.largeList (.new n' e' b'))
  | listNulls {e e' : ArrowType} (n n' : String) (h : Alike e e') :
    LosesValues (.list (.new n e false)) (.list (.new n' e' true))
  | largeListNulls {e e' : ArrowType} (n n' : String) (h : Alike e e') :
    LosesValues (.largeList (.new n e false)) (.largeList (.new n' e' true))
  | offsets {e e' : ArrowType} (n n' : String) (b b' : Bool) (h : Promises e e') :
    LosesValues (.largeList (.new n e b)) (.largeList (.new n' e' b'))

variable (debug : ArrowType → String)

theorem promisesType_iff {l r t : ArrowType} :
    (coerceArrowTypes debug l r).promised l = some t ↔
      (Alike l r ∧ l = t) ∨ ∃ quiet, Coerces l r t quiet ∧ (quiet = true ∨ t.decimalBased = true) := by
  rw [← coerceArrowTypes_eq_same_iff debug]
  simp only [← coerceArrowTypes_gives_iff debug]
  cases coerceArrowTypes debug l r with
  | same => simp [CoercionResult.promised, CoercionResult.Gives]
  | autoCoerce target warning =>
    cases warning with
    | none => simp [CoercionResult.promised, CoercionResult.Gives]
    | some warning =>
      by_cases htarget : target.decimalBased = true
      · simp [CoercionResult.promised, CoercionResult.Gives, htarget]
        rintro rfl
        exact htarget
      · simp [CoercionResult.promised, CoercionResult.Gives, htarget]
        rintro rfl
        simpa using htarget
  | requiresExplicit => simp [CoercionResult.promised, CoercionResult.Gives]
  | incompatible => simp [CoercionResult.promised, CoercionResult.Gives]

theorem decimalBased_loudly {l r : ArrowType} (h : widensLoudly l r) : r.decimalBased = false := by
  unfold widensLoudly at h
  split at h
  all_goals first | rfl | cases h

theorem Coerces.promises {l r t : ArrowType} {quiet : Bool} (h : Coerces l r t quiet)
    (hpromised : quiet = true ∨ t.decimalBased = true) : Promises l r := by
  induction h with
  | quietly h => exact .quietly h
  | loudly h => simp [decimalBased_loudly h] at hpromised
  | naive u v tz => simp [ArrowType.decimalBased] at hpromised
  | naive' u v tz => simp [ArrowType.decimalBased] at hpromised
  | units tz h => simp [ArrowType.decimalBased] at hpromised
  | @zones u v tz tz' h =>
    have huv : u = v := by simpa [ArrowType.decimalBased] using hpromised
    exact huv ▸ .zones u h
  | decimalFloat p s => simp [ArrowType.decimalBased] at hpromised
  | floatDecimal p s => exact .floatDecimal p s
  | joins h => exact .joins h
  | list n n' b b' _ ih => exact .list n n' b b' (ih (by simpa [ArrowType.decimalBased] using hpromised))
  | largeList n n' b b' _ ih => exact .largeList n n' b b' (ih (by simpa [ArrowType.decimalBased] using hpromised))

theorem Promises.coerces {l r : ArrowType} (h : Promises l r) :
    ∃ t quiet, Coerces l r t quiet ∧ (quiet = true ∨ t.decimalBased = true) := by
  induction h with
  | quietly h => exact ⟨_, _, .quietly h, Or.inl rfl⟩
  | zones u h => exact ⟨_, _, .zones u u h, Or.inl (decide_eq_true rfl)⟩
  | floatDecimal p s => exact ⟨_, _, .floatDecimal p s, Or.inr rfl⟩
  | joins h =>
    refine ⟨_, _, .joins h, ?_⟩
    cases h with
    | decimals h => exact Or.inr rfl
    | _ => exact Or.inl rfl
  | list n n' b b' _ ih =>
    obtain ⟨t, quiet, h, hpromised⟩ := ih
    exact ⟨_, _, .list n n' b b' h, by simpa [ArrowType.decimalBased] using hpromised⟩
  | largeList n n' b b' _ ih =>
    obtain ⟨t, quiet, h, hpromised⟩ := ih
    exact ⟨_, _, .largeList n n' b b' h, by simpa [ArrowType.decimalBased] using hpromised⟩

/-! ### What is kept -/

theorem values_quietly {l r : ArrowType} (h : widensQuietly l r) : l.values ⊆ r.values := by
  unfold widensQuietly at h
  split at h
  all_goals try simp only [ArrowType.values]
  all_goals first
    | with_reducible exact signedIntegers_subset (by norm_num)
    | with_reducible exact unsignedIntegers_subset (by norm_num)
    | with_reducible exact unsignedIntegers_subset_signed (by norm_num)
    | exact floats_subset (by norm_num) (by norm_num) (by norm_num)
    | cases h

theorem values_joined {l r : ArrowType} (h : Joins l r) :
    LosesValues l r ∨ l.values ⊆ (joined l r).values ∧ r.values ⊆ (joined l r).values := by
  cases h with
  | @decimals p p' s s' h =>
    by_cases hfit : BothFit p p' s s'
    · refine Or.inr ⟨?_, ?_⟩
      · rw [joined, ArrowType.values, ArrowType.values, toNat_max, toInt_max]
        exact decimals_subset (le_max_left ..) hfit.1
      · rw [joined, ArrowType.values, ArrowType.values, toNat_max, toInt_max]
        exact decimals_subset (le_max_right ..) hfit.2
    · exact Or.inl (.decimals hfit)
  | texts =>
    rw [joined, ArrowType.values, ArrowType.values]
    exact Or.inr ⟨texts_subset (by norm_num [maxI32, maxI64]), subset_rfl⟩
  | texts' =>
    rw [joined, ArrowType.values, ArrowType.values]
    exact Or.inr ⟨subset_rfl, texts_subset (by norm_num [maxI32, maxI64])⟩
  | binaries =>
    rw [joined, ArrowType.values, ArrowType.values]
    exact Or.inr ⟨byteStrings_subset (by norm_num [maxI32, maxI64]), subset_rfl⟩
  | binaries' =>
    rw [joined, ArrowType.values, ArrowType.values]
    exact Or.inr ⟨subset_rfl, byteStrings_subset (by norm_num [maxI32, maxI64])⟩
  | times u v =>
    rw [joined, ArrowType.values, ArrowType.values, ArrowType.values]
    exact Or.inr ⟨timesOfDay_subset u v, u.finer_comm v ▸ timesOfDay_subset v u⟩
  | times' u v =>
    rw [joined, ArrowType.values, ArrowType.values, ArrowType.values]
    exact Or.inr ⟨u.finer_comm v ▸ timesOfDay_subset v u, timesOfDay_subset u v⟩
  | durations h => exact Or.inl (.durations h)

theorem values_of_coerces {l r t : ArrowType} {quiet : Bool} (h : Coerces l r t quiet)
    (hpromised : quiet = true ∨ t.decimalBased = true) :
    LosesValues l r ∨ l.values ⊆ t.values ∧ r.values ⊆ t.values := by
  induction h with
  | quietly h => exact Or.inr ⟨values_quietly h, subset_rfl⟩
  | loudly h => simp [decimalBased_loudly h] at hpromised
  | naive u v tz => simp [ArrowType.decimalBased] at hpromised
  | naive' u v tz => simp [ArrowType.decimalBased] at hpromised
  | units tz h => simp [ArrowType.decimalBased] at hpromised
  | @zones u v tz tz' h =>
    have huv : u = v := by simpa [ArrowType.decimalBased] using hpromised
    subst huv
    have hfiner : u.finer u = u := by simp [TimeUnit.finer]
    rw [hfiner, ArrowType.values, ArrowType.values]
    exact Or.inr ⟨subset_rfl, subset_rfl⟩
  | decimalFloat p s => simp [ArrowType.decimalBased] at hpromised
  | floatDecimal p s => exact Or.inl (.floatDecimal p s)
  | joins h => exact values_joined h
  | @list e e' t quiet n n' b b' h ih =>
    rcases ih (by simpa [ArrowType.decimalBased] using hpromised) with hloses | ⟨hl, hr⟩
    · exact Or.inl (.list n n' b b' hloses)
    · refine Or.inr ⟨list_subset hl ?_, list_subset hr ?_⟩
      · exact fun h => by simp [h]
      · exact fun h => by simp [h]
  | @largeList e e' t quiet n n' b b' h ih =>
    have hpromised' : quiet = true ∨ t.decimalBased = true := by simpa [ArrowType.decimalBased] using hpromised
    exact Or.inl (.offsets n n' b b' (h.promises hpromised'))

theorem values_of_alike {l r : ArrowType} (h : Alike l r) : LosesValues l r ∨ r.values ⊆ l.values := by
  induction h with
  | refl t => exact Or.inr subset_rfl
  | @list e e' n n' b b' h ih =>
    rcases ih with hloses | hsub
    · exact Or.inl (.list n n' b b' hloses)
    · cases b <;> cases b'
      · exact Or.inr (list_subset hsub (by simp))
      · exact Or.inl (.listNulls n n' h)
      · exact Or.inr (list_subset hsub (by simp))
      · exact Or.inr (list_subset hsub (by simp))
  | @largeList e e' n n' b b' h ih =>
    rcases ih with hloses | hsub
    · exact Or.inl (.largeList n n' b b' hloses)
    · cases b <;> cases b'
      · exact Or.inr (largeList_subset hsub (by simp))
      · exact Or.inl (.largeListNulls n n' h)
      · exact Or.inr (largeList_subset hsub (by simp))
      · exact Or.inr (largeList_subset hsub (by simp))

theorem keepsValues_of_not {l r : ArrowType} (h : ¬LosesValues l r) : KeepsValues debug l r := by
  intro t ht
  rcases (promisesType_iff debug).mp ht with ⟨halike, rfl⟩ | ⟨quiet, hcoerces, hpromised⟩
  · exact ⟨subset_rfl, (values_of_alike halike).resolve_left h⟩
  · exact (values_of_coerces hcoerces hpromised).resolve_left h

/-! ### What is lost -/

theorem signedIntegers_nonempty {bits : Nat} : (signedIntegers bits).Nonempty :=
  ⟨_, 0, by simp, by positivity, rfl⟩

theorem unsignedIntegers_nonempty {bits : Nat} : (unsignedIntegers bits).Nonempty :=
  ⟨_, 0, le_rfl, by positivity, rfl⟩

theorem decimals_nonempty {precision : Nat} {scale : ℤ} : (decimals precision scale).Nonempty :=
  ⟨_, 0, by simp, rfl⟩

theorem nan_mem_floats {digits : Nat} {lo hi : ℤ} : Datum.noNumber "NaN" ∈ floats digits lo hi :=
  Or.inl ⟨"NaN", by simp, rfl⟩

theorem floats_nonempty {digits : Nat} {lo hi : ℤ} : (floats digits lo hi).Nonempty := ⟨_, nan_mem_floats⟩

theorem counted_nonempty {make : ℚ → Datum} {unit : TimeUnit} : (counted make unit).Nonempty :=
  ⟨_, 0, ⟨by norm_num, by norm_num⟩, rfl⟩

theorem listsOf_nonempty {limit : Nat} {items : Set (Option Datum)} : (listsOf limit items).Nonempty :=
  ⟨.list [], [], Nat.zero_le _, by simp, rfl⟩

theorem Promises.nonempty {l r : ArrowType} (h : Promises l r) : l.values.Nonempty := by
  cases h with
  | quietly h =>
    unfold widensQuietly at h
    split at h
    all_goals try simp only [ArrowType.values]
    all_goals first
      | exact signedIntegers_nonempty
      | exact unsignedIntegers_nonempty
      | exact floats_nonempty
      | cases h
  | zones u h =>
    rw [ArrowType.values]
    exact counted_nonempty
  | floatDecimal p s =>
    rw [ArrowType.values]
    exact floats_nonempty
  | joins h =>
    cases h with
    | decimals h =>
      rw [ArrowType.values]
      exact decimals_nonempty
    | texts | texts' =>
      rw [ArrowType.values]
      exact ⟨.text "", "", Nat.zero_le _, rfl⟩
    | binaries | binaries' =>
      rw [ArrowType.values]
      exact ⟨.bytes [], [], Nat.zero_le _, rfl⟩
    | times | times' =>
      rw [ArrowType.values]
      exact ⟨_, 0, le_rfl, by simp, rfl⟩
    | durations h =>
      rw [ArrowType.values]
      exact counted_nonempty
  | list n n' b b' h =>
    rw [values_list]
    exact listsOf_nonempty
  | largeList n n' b b' h =>
    rw [values_largeList]
    exact listsOf_nonempty

theorem singleton_mem {n : String} {e : ArrowType} {b : Bool} {d : Datum} {limit : Nat} (hlimit : 0 < limit) :
    Datum.list [some d] ∈ listsOf limit (ArrowField.new n e b).cells ↔ d ∈ e.values := by
  rw [cells_new]
  constructor
  · rintro ⟨xs, -, hxs, heq⟩
    obtain rfl := Datum.list.inj heq
    rcases hxs (some d) (List.mem_singleton_self _) with ⟨hnone, -⟩ | ⟨d', hd', hsome⟩
    · cases hnone
    · rwa [Option.some.inj hsome]
  · intro hd
    refine ⟨[some d], hlimit, ?_, rfl⟩
    rintro x hx
    rw [List.mem_singleton] at hx
    exact Or.inr ⟨d, hd, hx⟩

theorem null_mem {n : String} {e : ArrowType} {b : Bool} {limit : Nat} (hlimit : 0 < limit) :
    Datum.list [none] ∈ listsOf limit (ArrowField.new n e b).cells ↔ b = true := by
  rw [cells_new]
  constructor
  · rintro ⟨xs, -, hxs, heq⟩
    obtain rfl := Datum.list.inj heq
    rcases hxs none (List.mem_singleton_self _) with ⟨-, hb⟩ | ⟨d', -, hsome⟩
    · exact hb
    · cases hsome
  · intro hb
    refine ⟨[none], hlimit, ?_, rfl⟩
    rintro x hx
    rw [List.mem_singleton] at hx
    exact Or.inl ⟨hx, hb⟩

theorem singleton_mem_list {n : String} {e : ArrowType} {b : Bool} {d : Datum} :
    Datum.list [some d] ∈ (ArrowType.list (.new n e b)).values ↔ d ∈ e.values := by
  rw [values_list, singleton_mem (by decide)]

theorem singleton_mem_largeList {n : String} {e : ArrowType} {b : Bool} {d : Datum} :
    Datum.list [some d] ∈ (ArrowType.largeList (.new n e b)).values ↔ d ∈ e.values := by
  rw [values_largeList, singleton_mem (by decide)]

/-- Something is promised, and a value of one of the types is not kept. -/
def Misses (l r : ArrowType) : Prop :=
  ∃ t, (coerceArrowTypes debug l r).promised l = some t ∧ ∃ d, (d ∈ l.values ∨ d ∈ r.values) ∧ d ∉ t.values

theorem Misses.not_keepsValues {l r : ArrowType} (h : Misses debug l r) : ¬KeepsValues debug l r := by
  obtain ⟨t, hpromised, d, hd, hnot⟩ := h
  intro hkeeps
  obtain ⟨hl, hr⟩ := hkeeps t hpromised
  rcases hd with hd | hd
  · exact hnot (hl hd)
  · exact hnot (hr hd)

theorem misses_decimals {p p' : UInt8} {s s' : Int8} (h : ¬BothFit p p' s s') :
    Misses debug (.decimal128 p s) (.decimal128 p' s') := by
  have hdiff : ¬(p = p' ∧ s = s') := by
    rintro ⟨rfl, rfl⟩
    exact h (by simp [BothFit, DigitsFit])
  refine ⟨_, (promisesType_iff debug).mpr (Or.inr ⟨_, .joins (.decimals hdiff), Or.inr rfl⟩), ?_⟩
  by_contra hall
  have hsub : ∀ d, (d ∈ decimals p.toNat s.toInt ∨ d ∈ decimals p'.toNat s'.toInt) →
      d ∈ decimals (max p.toNat p'.toNat) (max s.toInt s'.toInt) := by
    intro d hd
    by_contra hnot
    refine hall ⟨d, hd, ?_⟩
    rwa [joined, ArrowType.values, toNat_max, toInt_max]
  exact h ⟨digitsFit_of_subset (le_max_left ..) fun d hd => hsub d (Or.inl hd),
    digitsFit_of_subset (le_max_right ..) fun d hd => hsub d (Or.inr hd)⟩

theorem misses_durations {u v : TimeUnit} (h : u ≠ v) : Misses debug (.duration u) (.duration v) := by
  refine ⟨_, (promisesType_iff debug).mpr (Or.inr ⟨_, .joins (.durations h), Or.inl rfl⟩), ?_⟩
  have hranks : u.rank ≠ v.rank := by cases u <;> cases v <;> simp_all [TimeUnit.rank]
  rcases Nat.lt_or_gt_of_ne hranks with hlt | hgt
  · have htarget : joined (.duration u) (.duration v) = .duration v := by
      rw [joined, TimeUnit.finer, if_pos hlt.le]
    obtain ⟨d, hd, hnot⟩ := Set.not_subset.mp (durations_not_subset hlt)
    exact ⟨d, Or.inl hd, by rwa [htarget]⟩
  · have htarget : joined (.duration u) (.duration v) = .duration u := by
      rw [joined, TimeUnit.finer, if_neg (by omega)]
    obtain ⟨d, hd, hnot⟩ := Set.not_subset.mp (durations_not_subset hgt)
    exact ⟨d, Or.inr hd, by rwa [htarget]⟩

theorem misses_of_loses {l r : ArrowType} (h : LosesValues l r) : Misses debug l r := by
  induction h with
  | decimals h => exact misses_decimals debug h
  | floatDecimal p s =>
    refine ⟨_, (promisesType_iff debug).mpr (Or.inr ⟨_, .floatDecimal p s, Or.inr rfl⟩), .noNumber "NaN", ?_⟩
    rw [ArrowType.values, ArrowType.values]
    refine ⟨Or.inl nan_mem_floats, ?_⟩
    rintro ⟨m, -, hm⟩
    cases hm
  | durations h => exact misses_durations debug h
  | @list e e' n n' b b' _ ih =>
    obtain ⟨t, hpromised, d, hd, hnot⟩ := ih
    have hlists := hd.imp (singleton_mem_list (n := n) (b := b)).mpr (singleton_mem_list (n := n') (b := b')).mpr
    rcases (promisesType_iff debug).mp hpromised with ⟨halike, rfl⟩ | ⟨quiet, hcoerces, hquiet⟩
    · exact ⟨_, (promisesType_iff debug).mpr (Or.inl ⟨.list n n' b b' halike, rfl⟩), _, hlists,
        fun hmem => hnot (singleton_mem_list.mp hmem)⟩
    · exact ⟨_, (promisesType_iff debug).mpr (Or.inr ⟨_, .list n n' b b' hcoerces, hquiet⟩), _, hlists,
        fun hmem => hnot (singleton_mem_list.mp hmem)⟩
  | @largeList e e' n n' b b' _ ih =>
    obtain ⟨t, hpromised, d, hd, hnot⟩ := ih
    have hlists := hd.imp (singleton_mem_largeList (n := n) (b := b)).mpr
      (singleton_mem_largeList (n := n') (b := b')).mpr
    rcases (promisesType_iff debug).mp hpromised with ⟨halike, rfl⟩ | ⟨quiet, hcoerces, hquiet⟩
    · exact ⟨_, (promisesType_iff debug).mpr (Or.inl ⟨.largeList n n' b b' halike, rfl⟩), _, hlists,
        fun hmem => hnot (singleton_mem_largeList.mp hmem)⟩
    · exact ⟨_, (promisesType_iff debug).mpr (Or.inr ⟨_, .largeList n n' b b' hcoerces, hquiet⟩), _, hlists,
        fun hmem => hnot (singleton_mem_list.mp hmem)⟩
  | @listNulls e e' n n' h =>
    refine ⟨_, (promisesType_iff debug).mpr (Or.inl ⟨.list n n' false true h, rfl⟩), .list [none], ?_⟩
    rw [values_list, values_list, null_mem (by decide), null_mem (by decide)]
    simp
  | @largeListNulls e e' n n' h =>
    refine ⟨_, (promisesType_iff debug).mpr (Or.inl ⟨.largeList n n' false true h, rfl⟩), .list [none], ?_⟩
    rw [values_largeList, values_largeList, null_mem (by decide), null_mem (by decide)]
    simp
  | @offsets e e' n n' b b' h =>
    obtain ⟨t, quiet, hcoerces, hquiet⟩ := h.coerces
    obtain ⟨d, hd⟩ := h.nonempty
    -- one element more than the offsets of a short list reach
    refine ⟨_, (promisesType_iff debug).mpr (Or.inr ⟨_, .largeList n n' b b' hcoerces, hquiet⟩),
      .list (List.replicate (maxI32 + 1) (some d)), Or.inl ?_, ?_⟩
    · rw [values_largeList, cells_new]
      refine ⟨_, ?_, ?_, rfl⟩
      · rw [List.length_replicate]
        norm_num [maxI32, maxI64]
      · rintro x hx
        exact Or.inr ⟨d, hd, List.eq_of_mem_replicate hx⟩
    · rw [values_list]
      rintro ⟨xs, hlen, -, heq⟩
      rw [← Datum.list.inj heq, List.length_replicate] at hlen
      exact absurd hlen (Nat.not_succ_le_self _)

/-- Coercion is to a common supertype, in either order, exactly when no values are lost and the order is of no
matter. -/
theorem common_supertype_iff (l r : ArrowType) :
    (KeepsValues debug l r ∧ commonSupertype debug l r = commonSupertype debug r l) ↔
      ¬LosesValues l r ∧ ¬OrderMatters l r := by
  rw [commonSupertype_comm_iff]
  refine and_congr_left fun _ => ⟨fun hkeeps hloses => ?_, keepsValues_of_not debug⟩
  exact (misses_of_loses debug hloses).not_keepsValues debug hkeeps

/-- Ten digits before the point and ten behind it do not fit into ten; and a wider integer is a supertype only on the
right. -/
theorem not_common_supertype :
    ¬ (∀ l r : ArrowType, KeepsValues (fun _ => "") l r) ∧
      ¬ (∀ l r : ArrowType, commonSupertype (fun _ => "") l r = commonSupertype (fun _ => "") r l) := by
  constructor
  · intro h
    have hloses : LosesValues (.decimal128 10 0) (.decimal128 10 10) := .decimals (by decide)
    exact (misses_of_loses _ hloses).not_keepsValues _ (h _ _)
  · intro h
    exact absurd (h .int8 .int16) (by simp [commonSupertype, coerceArrowTypes])

end Reiver.Pond
