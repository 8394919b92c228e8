import Reiver.Pond.Query.DateValues

/-! # Interval arithmetic

Days and weeks are added as days, months and years as months with the day clamped. What is computed is right, but not
every amount can be computed with: a date past the calendar, the negation of the least `i64` and the months next to it
overflow (`intervals_exact_iff`). -/

namespace Reiver.Pond

/-- The date that lies a number of units after another. -/
def IsAfter (base : CalendarDate) (n : Int) (d : CalendarDate) : DateTimeField → Prop
  | .day => d.dayNumber = base.dayNumber + n
  | .week => d.dayNumber = base.dayNumber + 7 * n
  | .month => d.monthIndex = base.monthIndex + n ∧ d.day = min base.day (daysInMonth d.year d.month)
  | .year => d.monthIndex = base.monthIndex + 12 * n ∧ d.day = min base.day (daysInMonth d.year d.month)
  | .other _ => False

/-- The date itself or nothing, but no overflow. -/
def DateValue.Exact (v : DateValue) (base : CalendarDate) (n : Int) (unit : DateTimeField) : Prop :=
  v ≠ .overflow ∧ ∀ d, v = .known d → IsAfter base n d unit

def DayFits (base : CalendarDate) (days : Int) : Prop :=
  CalendarDate.first.dayNumber ≤ base.dayNumber + days ∧ base.dayNumber + days ≤ CalendarDate.last.dayNumber

def UnitFits (base : CalendarDate) (n : Int) : DateTimeField → Prop
  | .day => DayFits base n
  | .week => DayFits base (7 * n)
  | .month => ¬(int64Min < base.monthIndex + n ∧ base.monthIndex + n ≤ int64Min + 11)
  | .year => True
  | .other _ => True

section Units
variable {base d : CalendarDate} {n days : Int} {unit : DateTimeField}

theorem dayNumber_bounds (d : CalendarDate) : -100000000 ≤ d.dayNumber ∧ d.dayNumber ≤ 100000000 := by
  have hfirst : -100000000 ≤ CalendarDate.first.dayNumber := by decide +kernel
  have hlast : CalendarDate.last.dayNumber ≤ 100000000 := by decide +kernel
  exact ⟨hfirst.trans (CalendarDate.dayNumber_le d.first_le), (CalendarDate.dayNumber_le d.le_last).trans hlast⟩

theorem exact_unknown : DateValue.unknown.Exact base n unit := ⟨by decide, fun _ h => by cases h⟩

theorem not_exact_overflow : ¬DateValue.overflow.Exact base n unit := fun h => h.1 rfl

theorem exact_known : (DateValue.known d).Exact base n unit ↔ IsAfter base n d unit := by
  constructor
  · exact fun h => h.2 d rfl
  · refine fun h => ⟨DateValue.noConfusion, fun d' hd' => ?_⟩
    cases hd'
    exact h

theorem durationDays_of_fits (h : DayFits base days) : durationDays days = some days := by
  have hbase := dayNumber_bounds base
  have hfirst := dayNumber_bounds CalendarDate.first
  have hlast := dayNumber_bounds CalendarDate.last
  have hmax : int64Max / 1000 = 9223372036854775 := by decide
  obtain ⟨hlow, hhigh⟩ := h
  rw [durationDays, hmax, if_pos (by omega)]

theorem addDuration_exact (hunit : ∀ d, IsAfter base n d unit ↔ d.dayNumber = base.dayNumber + days) :
    (addDuration base days).Exact base n unit ↔ DayFits base days := by
  by_cases hfits : DayFits base days
  · refine iff_of_true ?_ hfits
    obtain ⟨d, hd⟩ := Option.ne_none_iff_exists'.mp (CalendarDate.plusDays_ne_none.mpr hfits)
    rw [addDuration, durationDays_of_fits hfits]
    dsimp only
    rw [hd]
    exact exact_known.mpr ((hunit d).mpr (CalendarDate.plusDays_eq_some.mp hd))
  · refine iff_of_false ?_ hfits
    have hnone : base.plusDays days = none := by
      by_contra hne
      exact hfits (CalendarDate.plusDays_ne_none.mp hne)
    rw [addDuration, durationDays]
    split_ifs
    · dsimp only
      rw [hnone]
      exact not_exact_overflow
    · exact not_exact_overflow

/-! ### Months and years -/

theorem findLastDay {year : Int} {month : Nat} {lastDay : CalendarDate}
    (h : ([31, 30, 29, 28].findSome? fun day => CalendarDate.fromYmdOpt year month day) = some lastDay) :
    lastDay.day = daysInMonth year month := by
  have hbounds := daysInMonth_bounds year month
  obtain ⟨before, day, after, hlist, hday, hbefore⟩ := List.findSome?_eq_some_iff.mp h
  obtain ⟨hyear, hmonth, hsame⟩ := CalendarDate.fromYmdOpt_eq_some.mp hday
  have hvalid := lastDay.valid
  rw [hyear, hmonth, hsame] at hvalid
  have hle := hvalid.day_le
  have hnot : ∀ later ∈ before, ¬(later ≤ daysInMonth year month ∧ 1 ≤ later) := fun later hlater hlt =>
    CalendarDate.fromYmdOpt_eq_none.mp (hbefore later hlater) { hvalid with day_pos := hlt.2, day_le := hlt.1 }
  rw [hsame]
  rcases before with _ | ⟨b0, _ | ⟨b1, _ | ⟨b2, _ | ⟨b3, before⟩⟩⟩⟩ <;> simp at hlist
  · omega
  · obtain ⟨rfl, rfl, -⟩ := hlist
    have := hnot 31 (by simp)
    omega
  · obtain ⟨rfl, rfl, rfl, -⟩ := hlist
    have := hnot 30 (by simp)
    omega
  · obtain ⟨rfl, rfl, rfl, rfl, -⟩ := hlist
    have := hnot 29 (by simp)
    omega

theorem tdiv_of_neg {total : Int} (h : total < 0) : (total - 11).tdiv 12 = total / 12 := by
  have hneg : total - 11 = -(11 - total) := by omega
  rw [hneg, Int.neg_tdiv, Int.tdiv_eq_ediv_of_nonneg (by omega)]
  omega

theorem addMonthsToDate_exact :
    (addMonthsToDate base n).Exact base n .month ↔
      ¬(int64Min < base.monthIndex + n ∧ base.monthIndex + n ≤ int64Min + 11) := by
  have hindex : base.monthIndex = base.year * 12 + base.month := by
    rw [CalendarDate.monthIndex, Int.mul_comm]
  have hmin : int64Min = -9223372036854775808 := rfl
  have hmax : int64Max = 9223372036854775807 := rfl
  rw [addMonthsToDate]
  dsimp only
  generalize htotal : base.year * 12 + ((base.month : Int) - 1) + n = total
  by_cases hrange : InInt64 total
  · rw [if_neg (not_not.mpr hrange)]
    obtain ⟨hlow, hhigh⟩ := hrange
    by_cases hover : total < 0 ∧ ¬InInt64 (total - 11)
    · rw [if_pos hover]
      refine iff_of_false not_exact_overflow ?_
      rw [InInt64] at hover
      omega
    · rw [if_neg hover]
      rw [InInt64] at hover
      refine iff_of_true ?_ (by omega)
      have hyear : (if 0 ≤ total then total / 12 else (total - 11).tdiv 12) = total / 12 := by
        split_ifs with hsign
        · rfl
        · exact tdiv_of_neg (not_le.mp hsign)
      rw [hyear]
      by_cases hnarrow : InInt32 (total / 12)
      · rw [if_neg (not_not.mpr hnarrow)]
        split
        · next lastDay hlast =>
          have hlast := findLastDay hlast
          cases hresult : CalendarDate.fromYmdOpt (total / 12) ((total % 12).toNat + 1) (min base.day lastDay.day) with
          | none => exact exact_unknown
          | some d =>
            obtain ⟨hyear, hmonth, hday⟩ := CalendarDate.fromYmdOpt_eq_some.mp hresult
            refine exact_known.mpr ⟨?_, ?_⟩
            · rw [CalendarDate.monthIndex, hyear, hmonth, hindex]
              omega
            · rw [hday, hlast, hyear, hmonth]
        · exact exact_unknown
      · rw [if_pos hnarrow]
        exact exact_unknown
  · rw [if_pos hrange]
    refine iff_of_true exact_unknown ?_
    rw [InInt64] at hrange
    omega

theorem addYears_exact : (addYears base n).Exact base n .year := by
  rw [addYears]
  dsimp only
  by_cases hvalue : InInt32 n
  · rw [if_neg (not_not.mpr hvalue)]
    by_cases hyear : InInt32 (base.year + n)
    · rw [if_neg (not_not.mpr hyear)]
      cases hresult : CalendarDate.fromYmdOpt (base.year + n) base.month
          (if base.month = 2 ∧ base.day = 29 then
            if (CalendarDate.fromYmdOpt (base.year + n) 2 29).isSome then 29 else 28
          else base.day) with
      | none => exact exact_unknown
      | some d =>
        obtain ⟨hyear, hmonth, hday⟩ := CalendarDate.fromYmdOpt_eq_some.mp hresult
        have hvalid := d.valid
        rw [hyear, hmonth] at hvalid
        refine exact_known.mpr ⟨?_, ?_⟩
        · rw [CalendarDate.monthIndex, hyear, hmonth, CalendarDate.monthIndex]
          omega
        · rw [hyear, hmonth, hday]
          split_ifs with hleap hfound
          · obtain ⟨february, hfebruary⟩ := Option.isSome_iff_exists.mp hfound
            obtain ⟨hy, hm, hd⟩ := CalendarDate.fromYmdOpt_eq_some.mp hfebruary
            have hle := february.valid.day_le
            rw [hy, hm, hd] at hle
            rw [hleap.1, hleap.2]
            omega
          · have hinvalid := CalendarDate.fromYmdOpt_eq_none.mp (Option.not_isSome_iff_eq_none.mp hfound)
            have hshort : ¬29 ≤ daysInMonth (base.year + n) 2 := fun hle =>
              hinvalid ⟨hvalid.year_ge, hvalid.year_le, by decide, by decide, by decide, hle⟩
            have hbounds := daysInMonth_bounds (base.year + n) 2
            rw [hleap.1, hleap.2]
            omega
          · have hle := hvalid.day_le
            rw [hday, if_neg hleap] at hle
            omega
    · rw [if_pos hyear]
      exact exact_unknown
  · rw [if_pos hvalue]
    exact exact_unknown

theorem addUnits_exact : (addUnits base n unit).Exact base n unit ↔ UnitFits base n unit := by
  cases unit with
  | day => exact addDuration_exact fun d => Iff.rfl
  | week => exact addDuration_exact fun d => Iff.rfl
  | month => exact addMonthsToDate_exact
  | year => exact iff_of_true addYears_exact trivial
  | other text => exact iff_of_true exact_unknown trivial

end Units

/-! ### Intervals and functions -/

def signedAmount (subtract : Bool) (value : Int) : Int := if subtract then -value else value

section Amounts
variable {base : CalendarDate} {amount : WhereExpr} {leadingField : Option DateTimeField} {subtract : Bool}
  {unit : DateTimeField} {parse : String → Option Int} {args : List WhereExpr}

theorem signed_eq (value : Int) :
    signed subtract value = if subtract = true ∧ value = int64Min then none
      else some (signedAmount subtract value) := by
  cases subtract with
  | false => rfl
  | true =>
    rw [signed, if_pos rfl, negateI64, signedAmount, if_pos rfl]
    simp

/-- The interval is added exactly or not at all. -/
def IntervalExact (base : CalendarDate) (amount : WhereExpr) (leadingField : Option DateTimeField) (subtract : Bool) :
    Prop :=
  applyInterval base amount leadingField subtract ≠ .overflow ∧
    ∀ d, applyInterval base amount leadingField subtract = .known d →
      ∃ value ∈ (intervalText amount).bind parseAsI64, ∃ unit ∈ leadingField,
        IsAfter base (signedAmount subtract value) d unit

/-- An amount that is not negated to an overflow and fits its unit, if it has one. -/
def IntervalFits (base : CalendarDate) (amount : WhereExpr) (leadingField : Option DateTimeField) (subtract : Bool) :
    Prop :=
  ∀ value ∈ (intervalText amount).bind parseAsI64, ¬(subtract = true ∧ value = int64Min) ∧
    ∀ unit ∈ leadingField, UnitFits base (signedAmount subtract value) unit

theorem applyInterval_exact_iff :
    IntervalExact base amount leadingField subtract ↔ IntervalFits base amount leadingField subtract := by
  rw [IntervalExact, IntervalFits, applyInterval]
  cases (intervalText amount).bind parseAsI64 with
  | none => simp
  | some value =>
    dsimp only
    rw [signed_eq]
    by_cases hmin : subtract = true ∧ value = int64Min
    · rw [if_pos hmin]
      simp [hmin]
    · rw [if_neg hmin]
      cases leadingField with
      | none =>
        refine iff_of_true ⟨DateValue.noConfusion, fun d hd => by cases hd⟩ ?_
        rintro _ ⟨⟩
        exact ⟨hmin, fun unit hunit => by cases hunit⟩
      | some unit =>
        have hunits : (addUnits base (signedAmount subtract value) unit).Exact base (signedAmount subtract value) unit ↔
          UnitFits base (signedAmount subtract value) unit := addUnits_exact
        simp only [Option.mem_def, Option.some.injEq, exists_eq_left', forall_eq']
        exact hunits.trans (and_iff_right hmin).symm

/-- What a function adds is added exactly or not at all. -/
def AddSubExact (unit : DateTimeField) (parse : String → Option Int) (base : CalendarDate) (args : List WhereExpr)
    (subtract : Bool) : Prop :=
  parseDateAddSub unit parse (.known base) args subtract ≠ .overflow ∧
    ∀ d, parseDateAddSub unit parse (.known base) args subtract = .known d →
      ∃ n ∈ numberArg parse args, IsAfter base (signedAmount subtract n) d unit

def AddSubFits (unit : DateTimeField) (parse : String → Option Int) (base : CalendarDate) (args : List WhereExpr)
    (subtract : Bool) : Prop :=
  ∀ n ∈ numberArg parse args, ¬(subtract = true ∧ n = int64Min) ∧ UnitFits base (signedAmount subtract n) unit

theorem numberArg_length {n : Int} (h : numberArg parse args = some n) : args.length = 2 := by
  rcases args with _ | ⟨a, _ | ⟨b, _ | ⟨c, args⟩⟩⟩
  · cases h
  · cases h
  · rfl
  · simp [numberArg] at h

theorem parseDateAddSub_exact_iff :
    AddSubExact unit parse base args subtract ↔ AddSubFits unit parse base args subtract := by
  rw [AddSubExact, AddSubFits, parseDateAddSub]
  cases harg : numberArg parse args with
  | none =>
    split_ifs <;> simp [DateValue.bind]
  | some n =>
    rw [if_neg (not_not.mpr (numberArg_length harg))]
    dsimp only [DateValue.bind]
    rw [signed_eq]
    by_cases hmin : subtract = true ∧ n = int64Min
    · rw [if_pos hmin]
      simp [hmin]
    · rw [if_neg hmin]
      have hunits : (addUnits base (signedAmount subtract n) unit).Exact base (signedAmount subtract n) unit ↔
        UnitFits base (signedAmount subtract n) unit := addUnits_exact
      simp only [Option.mem_def, Option.some.injEq, exists_eq_left', forall_eq']
      exact hunits.trans (and_iff_right hmin).symm

end Amounts

/-- Intervals and functions of dates compute exactly, or nothing, for just the amounts that fit. -/
theorem intervals_exact_iff (base : CalendarDate) (subtract : Bool) :
    (∀ amount leadingField,
        IntervalExact base amount leadingField subtract ↔ IntervalFits base amount leadingField subtract) ∧
      ∀ unit parse args, AddSubExact unit parse base args subtract ↔ AddSubFits unit parse base args subtract :=
  ⟨fun _ _ => applyInterval_exact_iff, fun _ _ _ => parseDateAddSub_exact_iff⟩

/-- `INTERVAL 9223372036854775807 DAY`. -/
theorem longInterval_overflows :
    ¬IntervalExact ⟨2025, 1, 1, by decide⟩ (.value (.number "9223372036854775807")) (some .day) false := by
  have hover : applyInterval ⟨2025, 1, 1, by decide⟩ (.value (.number "9223372036854775807")) (some .day) false =
      .overflow := by decide +kernel
  exact fun h => h.1 hover

end Reiver.Pond
