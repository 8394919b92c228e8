import Mathlib.Algebra.Order.Ring.Int
import Mathlib.Order.Lattice

/-! Dates of the proleptic Gregorian calendar, between a first and a last year. -/

namespace Reiver

def leapYear (year : Int) : Bool := year % 4 = 0 ∧ (year % 100 ≠ 0 ∨ year % 400 = 0)

def daysInMonth (year : Int) (month : Nat) : Nat :=
  if month = 2 then if leapYear year then 29 else 28
  else if month = 4 ∨ month = 6 ∨ month = 9 ∨ month = 11 then 30
  else 31

theorem daysInMonth_bounds (year : Int) (month : Nat) : 28 ≤ daysInMonth year month ∧ daysInMonth year month ≤ 31 := by
  rw [daysInMonth]
  split_ifs <;> omega

def minYear : Int := -262143

def maxYear : Int := 262142

structure ValidYmd (year : Int) (month day : Nat) : Prop where
  year_ge : minYear ≤ year
  year_le : year ≤ maxYear
  month_pos : 1 ≤ month
  month_le : month ≤ 12
  day_pos : 1 ≤ day
  day_le : day ≤ daysInMonth year month

instance (year : Int) (month day : Nat) : Decidable (ValidYmd year month day) :=
  decidable_of_iff (minYear ≤ year ∧ year ≤ maxYear ∧ 1 ≤ month ∧ month ≤ 12 ∧ 1 ≤ day ∧ day ≤ daysInMonth year month)
    ⟨fun ⟨a, b, c, d, e, f⟩ => ⟨a, b, c, d, e, f⟩, fun ⟨a, b, c, d, e, f⟩ => ⟨a, b, c, d, e, f⟩⟩

structure CalendarDate where
  year : Int
  month : Nat
  day : Nat
  valid : ValidYmd year month day
deriving DecidableEq

namespace CalendarDate

def fromYmdOpt (year : Int) (month day : Nat) : Option CalendarDate :=
  if h : ValidYmd year month day then some ⟨year, month, day, h⟩ else none

/-- The number of a month, counted over the years. -/
def monthIndex (d : CalendarDate) : Int := 12 * d.year + d.month

def rank (d : CalendarDate) : Int := 31 * d.monthIndex + d.day

theorem day_le (d : CalendarDate) : d.day ≤ 31 := d.valid.day_le.trans (daysInMonth_bounds _ _).2

theorem rank_injective : Function.Injective rank := by
  intro a b h
  obtain ⟨ya, ma, da, ha⟩ := a
  obtain ⟨yb, mb, db, hb⟩ := b
  have hda := day_le ⟨ya, ma, da, ha⟩
  have hdb := day_le ⟨yb, mb, db, hb⟩
  have hma := ha.month_pos
  have hma' := ha.month_le
  have hmb := hb.month_pos
  have hmb' := hb.month_le
  have hpa := ha.day_pos
  have hpb := hb.day_pos
  simp only [rank, monthIndex] at h hda hdb
  obtain rfl : da = db := by omega
  obtain rfl : ma = mb := by omega
  obtain rfl : ya = yb := by omega
  rfl

instance : LinearOrder CalendarDate := LinearOrder.lift' rank rank_injective

theorem le_def {a b : CalendarDate} : a ≤ b ↔ a.rank ≤ b.rank := Iff.rfl

theorem le_iff {a b : CalendarDate} :
    a ≤ b ↔ a.year < b.year ∨ a.year = b.year ∧ (a.month < b.month ∨ a.month = b.month ∧ a.day ≤ b.day) := by
  have hda := day_le a
  have hdb := day_le b
  have hma := a.valid.month_pos
  have hma' := a.valid.month_le
  have hmb := b.valid.month_pos
  have hmb' := b.valid.month_le
  have hpa := a.valid.day_pos
  have hpb := b.valid.day_pos
  rw [le_def, rank, rank, monthIndex, monthIndex]
  omega

theorem monthIndex_mono {a b : CalendarDate} (h : a ≤ b) : a.monthIndex ≤ b.monthIndex := by
  have hda := day_le a
  have hdb := day_le b
  have hpa := a.valid.day_pos
  have hpb := b.valid.day_pos
  rw [le_def, rank, rank] at h
  omega

theorem year_mono {a b : CalendarDate} (h : a ≤ b) : a.year ≤ b.year := by
  rw [le_iff] at h
  omega

/-- The first day of the next month, if there is one. -/
def nextMonth (d : CalendarDate) : Option CalendarDate :=
  if d.month = 12 then fromYmdOpt (d.year + 1) 1 1 else fromYmdOpt d.year (d.month + 1) 1

theorem fromYmdOpt_eq_some {year : Int} {month day : Nat} {d : CalendarDate} :
    fromYmdOpt year month day = some d ↔ d.year = year ∧ d.month = month ∧ d.day = day := by
  rw [fromYmdOpt]
  constructor
  · intro h
    split_ifs at h
    cases h
    exact ⟨rfl, rfl, rfl⟩
  · rintro ⟨rfl, rfl, rfl⟩
    rw [dif_pos d.valid]

theorem fromYmdOpt_eq_none {year : Int} {month day : Nat} :
    fromYmdOpt year month day = none ↔ ¬ValidYmd year month day := by
  rw [fromYmdOpt]
  split_ifs with h
  · exact iff_of_false (by simp) (not_not.mpr h)
  · exact iff_of_true rfl h

theorem nextMonth_eq_some {d next : CalendarDate} (h : d.nextMonth = some next) :
    next.monthIndex = d.monthIndex + 1 ∧ next.day = 1 := by
  rw [nextMonth] at h
  rw [monthIndex, monthIndex]
  split_ifs at h
  · obtain ⟨hyear, hmonth, hday⟩ := fromYmdOpt_eq_some.mp h
    omega
  · obtain ⟨hyear, hmonth, hday⟩ := fromYmdOpt_eq_some.mp h
    omega

theorem nextMonth_eq_none {d : CalendarDate} (h : d.nextMonth = none) :
    ∀ d' : CalendarDate, d'.monthIndex ≤ d.monthIndex := by
  intro d'
  have hge := d.valid.year_ge
  have hle := d.valid.year_le
  have hle' := d'.valid.year_le
  have hmonth := d.valid.month_le
  have hmonth' := d'.valid.month_le
  have hpos := d.valid.month_pos
  have hdays : ∀ year month, 1 ≤ daysInMonth year month := fun year month => by
    have := daysInMonth_bounds year month
    omega
  rw [monthIndex, monthIndex]
  rw [nextMonth] at h
  split_ifs at h with hlast
  · have hyear : ¬d.year + 1 ≤ maxYear := fun hyear => fromYmdOpt_eq_none.mp h
      ⟨by omega, hyear, by omega, by omega, by omega, hdays _ _⟩
    omega
  · exact absurd ⟨hge, hle, by omega, by omega, by omega, hdays _ _⟩ (fromYmdOpt_eq_none.mp h)

/-- A date and the first days of the following months, up to a last date. -/
def monthsFrom (current stop : CalendarDate) : List CalendarDate :=
  if current ≤ stop then
    current ::
      match _h : current.nextMonth with
      | some next => monthsFrom next stop
      | none => []
  else []
termination_by (stop.monthIndex + 1 - current.monthIndex).toNat
decreasing_by
  have hindex := (nextMonth_eq_some _h).1
  have hle := monthIndex_mono (by assumption : current ≤ stop)
  omega

theorem monthsFrom_of_lt {current stop : CalendarDate} (h : ¬current ≤ stop) : monthsFrom current stop = [] := by
  rw [monthsFrom, if_neg h]

theorem monthsFrom_of_some {current stop next : CalendarDate} (h : current ≤ stop)
    (hnext : current.nextMonth = some next) :
    monthsFrom current stop = current :: monthsFrom next stop := by
  rw [monthsFrom, if_pos h]
  split
  · next n hn =>
    rw [hnext] at hn
    cases hn
    rfl
  · next hn =>
    rw [hnext] at hn
    cases hn

theorem monthsFrom_of_none {current stop : CalendarDate} (h : current ≤ stop) (hnext : current.nextMonth = none) :
    monthsFrom current stop = [current] := by
  rw [monthsFrom, if_pos h]
  split
  · next n hn =>
    rw [hnext] at hn
    cases hn
  · rfl

theorem monthsFrom_index {current stop : CalendarDate} (h : current ≤ stop) : (monthsFrom current stop).map monthIndex =
    (List.range (stop.monthIndex + 1 - current.monthIndex).toNat).map fun i : Nat => current.monthIndex + i := by
  generalize hn : (stop.monthIndex + 1 - current.monthIndex).toNat = n
  have hmono := monthIndex_mono h
  induction n generalizing current with
  | zero => omega
  | succ n ih =>
    have hshift : (List.range (n + 1)).map (fun i : Nat => current.monthIndex + i) =
        current.monthIndex :: (List.range n).map fun i : Nat => current.monthIndex + 1 + i := by
      rw [List.range_succ_eq_map, List.map_cons, List.map_map, Int.ofNat_zero, Int.add_zero]
      refine congrArg _ (List.map_congr_left fun i _ => ?_)
      show current.monthIndex + ((i + 1 : Nat) : Int) = _
      omega
    rw [hshift]
    cases hnext : current.nextMonth with
    | none =>
      have hlast := nextMonth_eq_none hnext stop
      obtain rfl : n = 0 := by omega
      rw [monthsFrom_of_none h hnext]
      rfl
    | some next =>
      obtain ⟨hindex, hday⟩ := nextMonth_eq_some hnext
      rw [monthsFrom_of_some h hnext, List.map_cons, ← hindex]
      by_cases hle : next ≤ stop
      · rw [ih hle (by omega) (monthIndex_mono hle)]
      · have hpos := stop.valid.day_pos
        have hzero : n = 0 := by
          rw [le_def, rank, rank] at hle
          omega
        rw [monthsFrom_of_lt hle, hzero]
        rfl

end CalendarDate

end Reiver
