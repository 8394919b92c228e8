import Mathlib.Order.Monotone.Basic
import Reiver.Lib.Calendar

/-! The days of the calendar, numbered from the first day of year one, and addition of days and months. -/

namespace Reiver

def daysBeforeYear (year : Int) : Int := 365 * (year - 1) + (year - 1) / 4 - (year - 1) / 100 + (year - 1) / 400

def daysBeforeMonth (year : Int) : Nat → Nat
  | 0 => 0
  | 1 => 0
  | m + 2 => daysBeforeMonth year (m + 1) + daysInMonth year (m + 1)

theorem daysBeforeMonth_succ (year : Int) {m : Nat} (hm : 1 ≤ m) :
    daysBeforeMonth year (m + 1) = daysBeforeMonth year m + daysInMonth year m := by
  obtain ⟨m, rfl⟩ := Nat.exists_eq_add_of_le' hm
  rfl

theorem daysBeforeMonth_mono (year : Int) : Monotone (daysBeforeMonth year) := by
  refine monotone_nat_of_le_succ fun m => ?_
  rcases m with _ | m
  · exact Nat.le_refl _
  · exact Nat.le_add_right _ _

theorem daysBeforeYear_succ (year : Int) :
    daysBeforeYear (year + 1) = daysBeforeYear year + daysBeforeMonth year 13 := by
  have hsum : daysBeforeMonth year 13 = 337 + if leapYear year then 29 else 28 := by
    cases hleap : leapYear year <;> simp [daysBeforeMonth, daysInMonth, hleap]
  rw [hsum, daysBeforeYear, daysBeforeYear]
  by_cases hleap : leapYear year = true
  · rw [if_pos hleap]
    simp only [leapYear, decide_eq_true_eq] at hleap
    omega
  · rw [if_neg hleap]
    simp only [leapYear, decide_eq_true_eq] at hleap
    omega

theorem daysBeforeYear_mono {a b : Int} (h : a ≤ b) : daysBeforeYear a ≤ daysBeforeYear b := by
  rw [daysBeforeYear, daysBeforeYear]
  omega

namespace CalendarDate

def dayNumber (d : CalendarDate) : Int := daysBeforeYear d.year + daysBeforeMonth d.year d.month + d.day

theorem dayNumber_lt {a b : CalendarDate} (h : a < b) : a.dayNumber < b.dayNumber := by
  have hmonth : daysBeforeMonth a.year a.month + a.day ≤ daysBeforeMonth a.year (a.month + 1) := by
    rw [daysBeforeMonth_succ _ a.valid.month_pos]
    exact Nat.add_le_add_left a.valid.day_le _
  have hpos := b.valid.day_pos
  rw [dayNumber, dayNumber]
  have hlt := not_le.mpr h
  rw [le_iff] at hlt
  rcases lt_trichotomy a.year b.year with hyear | hyear | hyear
  · have hlast : daysBeforeMonth a.year (a.month + 1) ≤ daysBeforeMonth a.year 13 :=
      daysBeforeMonth_mono _ (Nat.succ_le_succ a.valid.month_le)
    have hnext := daysBeforeYear_succ a.year
    have hmono := daysBeforeYear_mono (Int.add_one_le_of_lt hyear)
    omega
  · rcases lt_trichotomy a.month b.month with hless | hsame | hless
    · have hmono : daysBeforeMonth a.year (a.month + 1) ≤ daysBeforeMonth a.year b.month := daysBeforeMonth_mono _ hless
      rw [← hyear]
      omega
    · rw [← hyear, ← hsame]
      omega
    · omega
  · omega

theorem dayNumber_le {a b : CalendarDate} (h : a ≤ b) : a.dayNumber ≤ b.dayNumber := by
  rcases h.lt_or_eq with hlt | rfl
  · exact (dayNumber_lt hlt).le
  · exact le_refl _

theorem dayNumber_injective : Function.Injective dayNumber := by
  intro a b h
  rcases lt_trichotomy a b with hlt | heq | hlt
  · exact absurd h (dayNumber_lt hlt).ne
  · exact heq
  · exact absurd h (dayNumber_lt hlt).ne'

def daysFromSunday (d : CalendarDate) : Nat := (d.dayNumber % 7).toNat

/-! ### Adding days -/

def nextDay (d : CalendarDate) : Option CalendarDate :=
  match fromYmdOpt d.year d.month (d.day + 1) with
  | some next => some next
  | none => d.nextMonth

def prevDay (d : CalendarDate) : Option CalendarDate :=
  if 1 < d.day then fromYmdOpt d.year d.month (d.day - 1)
  else if 1 < d.month then fromYmdOpt d.year (d.month - 1) (daysInMonth d.year (d.month - 1))
  else fromYmdOpt (d.year - 1) 12 31

def plusDays (d : CalendarDate) : Int → Option CalendarDate
  | .ofNat n => n.rec (some d) fun _ day => day.bind nextDay
  | .negSucc n => n.rec d.prevDay fun _ day => day.bind prevDay

theorem nextDay_eq_none_day {d : CalendarDate} (h : fromYmdOpt d.year d.month (d.day + 1) = none) :
    d.day = daysInMonth d.year d.month := by
  have hle := d.valid.day_le
  refine Nat.le_antisymm hle (Nat.le_of_not_lt fun hlt => fromYmdOpt_eq_none.mp h ?_)
  exact { d.valid with day_pos := Nat.succ_pos _, day_le := hlt }

theorem dayNumber_nextDay {d next : CalendarDate} (h : d.nextDay = some next) : next.dayNumber = d.dayNumber + 1 := by
  rw [nextDay] at h
  rw [dayNumber, dayNumber]
  cases hsame : fromYmdOpt d.year d.month (d.day + 1) with
  | some n =>
    rw [hsame] at h
    cases h
    obtain ⟨hyear, hmonth, hday⟩ := fromYmdOpt_eq_some.mp hsame
    rw [hyear, hmonth, hday]
    omega
  | none =>
    rw [hsame] at h
    have hday := nextDay_eq_none_day hsame
    change d.nextMonth = some next at h
    rw [nextMonth] at h
    split_ifs at h with hlast
    · obtain ⟨hyear, hmonth, hfirst⟩ := fromYmdOpt_eq_some.mp h
      have hsucc := daysBeforeMonth_succ d.year d.valid.month_pos
      rw [hyear, hmonth, hfirst, daysBeforeYear_succ, hday]
      rw [hlast] at hsucc ⊢
      change daysBeforeMonth d.year 13 = _ at hsucc
      have hzero : daysBeforeMonth (d.year + 1) 1 = 0 := rfl
      omega
    · obtain ⟨hyear, hmonth, hfirst⟩ := fromYmdOpt_eq_some.mp h
      have hsucc := daysBeforeMonth_succ d.year d.valid.month_pos
      rw [hyear, hmonth, hfirst, hsucc, hday]
      omega

theorem nextDay_eq_none {d : CalendarDate} (h : d.nextDay = none) : ∀ d' : CalendarDate, d' ≤ d := by
  intro d'
  rw [nextDay] at h
  cases hsame : fromYmdOpt d.year d.month (d.day + 1) with
  | some n =>
    rw [hsame] at h
    cases h
  | none =>
    rw [hsame] at h
    have hday := nextDay_eq_none_day hsame
    have hindex := nextMonth_eq_none h d'
    have hpos := d.valid.month_pos
    have hle := d.valid.month_le
    have hpos' := d'.valid.month_pos
    have hle' := d'.valid.month_le
    have hday' := d'.valid.day_le
    rw [monthIndex, monthIndex] at hindex
    rw [le_iff]
    rcases lt_trichotomy d'.year d.year with hyear | hyear | hyear
    · exact Or.inl hyear
    · refine Or.inr ⟨hyear, ?_⟩
      rcases lt_trichotomy d'.month d.month with hmonth | hmonth | hmonth
      · exact Or.inl hmonth
      · exact Or.inr ⟨hmonth, by rw [hday, ← hyear, ← hmonth]; exact hday'⟩
      · omega
    · omega

theorem dayNumber_prevDay {d prev : CalendarDate} (h : d.prevDay = some prev) : prev.dayNumber = d.dayNumber - 1 := by
  have hday := d.valid.day_pos
  have hmonth := d.valid.month_pos
  rw [prevDay] at h
  rw [dayNumber, dayNumber]
  split_ifs at h with hinner hfirst
  · obtain ⟨hyear, hsame, hprev⟩ := fromYmdOpt_eq_some.mp h
    rw [hyear, hsame, hprev]
    omega
  · obtain ⟨hyear, hprevious, hlast⟩ := fromYmdOpt_eq_some.mp h
    have hsucc := daysBeforeMonth_succ d.year (show 1 ≤ d.month - 1 by omega)
    rw [Nat.sub_add_cancel hmonth] at hsucc
    rw [hyear, hprevious, hlast, hsucc]
    omega
  · obtain ⟨hyear, hdecember, hlast⟩ := fromYmdOpt_eq_some.mp h
    have hsucc : daysBeforeMonth (d.year - 1) 13 = daysBeforeMonth (d.year - 1) 12 + 31 := rfl
    have hnext := daysBeforeYear_succ (d.year - 1)
    rw [Int.sub_add_cancel] at hnext
    have hone : d.month = 1 := by omega
    have hzero : daysBeforeMonth d.year 1 = 0 := rfl
    rw [hyear, hdecember, hlast, hone, hnext]
    omega

theorem prevDay_eq_none {d : CalendarDate} (h : d.prevDay = none) : ∀ d' : CalendarDate, d ≤ d' := by
  intro d'
  have hvalid := d.valid
  have hpos := hvalid.day_pos
  have hmonth := hvalid.month_pos
  have hday := hvalid.day_le
  have hle := hvalid.month_le
  have hyear := d'.valid.year_ge
  have hge := hvalid.year_ge
  have hmax := hvalid.year_le
  have hpos' := d'.valid.day_pos
  have hmonth' := d'.valid.month_pos
  rw [prevDay] at h
  split_ifs at h with hinner hfirst
  · exact absurd { hvalid with day_pos := by omega, day_le := by omega } (fromYmdOpt_eq_none.mp h)
  · have hdays := daysInMonth_bounds d.year (d.month - 1)
    refine absurd ?_ (fromYmdOpt_eq_none.mp h)
    exact ⟨hge, hmax, by omega, by omega, by omega, le_refl _⟩
  · have hdays : (31 : Nat) ≤ daysInMonth (d.year - 1) 12 := le_refl _
    have hlow : ¬minYear ≤ d.year - 1 := fun hlow => fromYmdOpt_eq_none.mp h
      ⟨hlow, by omega, by decide, by decide, by decide, hdays⟩
    rw [le_iff]
    omega

theorem nextDay_eq_some {d d' : CalendarDate} : d.nextDay = some d' ↔ d'.dayNumber = d.dayNumber + 1 := by
  refine ⟨dayNumber_nextDay, fun h => ?_⟩
  cases hnext : d.nextDay with
  | none =>
    have hle := dayNumber_le (nextDay_eq_none hnext d')
    omega
  | some next =>
    have hnumber := dayNumber_nextDay hnext
    exact congrArg some (dayNumber_injective (by omega))

theorem prevDay_eq_some {d d' : CalendarDate} : d.prevDay = some d' ↔ d'.dayNumber = d.dayNumber - 1 := by
  refine ⟨dayNumber_prevDay, fun h => ?_⟩
  cases hprev : d.prevDay with
  | none =>
    have hle := dayNumber_le (prevDay_eq_none hprev d')
    omega
  | some prev =>
    have hnumber := dayNumber_prevDay hprev
    exact congrArg some (dayNumber_injective (by omega))

theorem plusDays_ofNat (d : CalendarDate) (n : Nat) {d' : CalendarDate} :
    d.plusDays (.ofNat n) = some d' ↔ d'.dayNumber = d.dayNumber + n := by
  induction n generalizing d' with
  | zero =>
    rw [Int.ofNat_zero, Int.add_zero, dayNumber_injective.eq_iff, eq_comm (a := d')]
    exact Option.some_inj
  | succ n ih =>
    have hstep : d.plusDays (.ofNat (n + 1)) = (d.plusDays (.ofNat n)).bind nextDay := rfl
    rw [hstep, Option.bind_eq_some_iff]
    constructor
    · rintro ⟨day, hday, hnext⟩
      rw [dayNumber_nextDay hnext, ih.mp hday]
      omega
    · intro h
      cases hprev : d'.prevDay with
      | none =>
        have hle := dayNumber_le (prevDay_eq_none hprev d)
        omega
      | some day =>
        have hnumber := dayNumber_prevDay hprev
        exact ⟨day, ih.mpr (by omega), nextDay_eq_some.mpr (by omega)⟩

theorem plusDays_negSucc (d : CalendarDate) (n : Nat) {d' : CalendarDate} :
    d.plusDays (.negSucc n) = some d' ↔ d'.dayNumber = d.dayNumber - (n + 1) := by
  induction n generalizing d' with
  | zero => exact prevDay_eq_some
  | succ n ih =>
    have hstep : d.plusDays (.negSucc (n + 1)) = (d.plusDays (.negSucc n)).bind prevDay := rfl
    rw [hstep, Option.bind_eq_some_iff]
    constructor
    · rintro ⟨day, hday, hprev⟩
      rw [dayNumber_prevDay hprev, ih.mp hday]
      omega
    · intro h
      cases hnext : d'.nextDay with
      | none =>
        have hle := dayNumber_le (nextDay_eq_none hnext d)
        omega
      | some day =>
        have hnumber := dayNumber_nextDay hnext
        exact ⟨day, ih.mpr (by omega), prevDay_eq_some.mpr (by omega)⟩

theorem plusDays_eq_some {d d' : CalendarDate} {n : Int} : d.plusDays n = some d' ↔ d'.dayNumber = d.dayNumber + n := by
  cases n with
  | ofNat n => exact plusDays_ofNat d n
  | negSucc n =>
    rw [plusDays_negSucc, Int.negSucc_eq]
    omega

theorem exists_dayNumber {a b : CalendarDate} {n : Int} (ha : a.dayNumber ≤ n) (hb : n ≤ b.dayNumber) :
    ∃ d : CalendarDate, d.dayNumber = n := by
  obtain ⟨k, hk⟩ := Int.eq_ofNat_of_zero_le (Int.sub_nonneg_of_le ha)
  induction k generalizing n with
  | zero => exact ⟨a, by omega⟩
  | succ k ih =>
    obtain ⟨d, hd⟩ := ih (n := n - 1) (by omega) (by omega) (by omega)
    cases hnext : d.nextDay with
    | none =>
      have hle := dayNumber_le (nextDay_eq_none hnext b)
      omega
    | some next => exact ⟨next, by rw [dayNumber_nextDay hnext]; omega⟩

def first : CalendarDate := ⟨minYear, 1, 1, by decide⟩

def last : CalendarDate := ⟨maxYear, 12, 31, by decide⟩

theorem first_le (d : CalendarDate) : first ≤ d := by
  have hyear := d.valid.year_ge
  have hmonth := d.valid.month_pos
  have hday := d.valid.day_pos
  rw [le_iff]
  simp only [first]
  omega

theorem le_last (d : CalendarDate) : d ≤ last := by
  have hyear := d.valid.year_le
  have hmonth := d.valid.month_le
  have hday := d.day_le
  rw [le_iff]
  simp only [last]
  omega

theorem plusDays_ne_none {d : CalendarDate} {n : Int} :
    d.plusDays n ≠ none ↔ first.dayNumber ≤ d.dayNumber + n ∧ d.dayNumber + n ≤ last.dayNumber := by
  rw [Option.ne_none_iff_exists']
  constructor
  · rintro ⟨d', h⟩
    rw [← plusDays_eq_some.mp h]
    exact ⟨dayNumber_le (first_le d'), dayNumber_le (le_last d')⟩
  · rintro ⟨hlow, hhigh⟩
    obtain ⟨d', h⟩ := exists_dayNumber hlow hhigh
    exact ⟨d', plusDays_eq_some.mpr h⟩

example : (⟨2024, 2, 28, by decide⟩ : CalendarDate).plusDays 2 = some ⟨2024, 3, 1, by decide⟩ := by decide +kernel

example : (⟨2025, 1, 1, by decide⟩ : CalendarDate).daysFromSunday = 3 := by decide

end CalendarDate

end Reiver
