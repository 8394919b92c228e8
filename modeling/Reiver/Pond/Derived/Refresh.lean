import Mathlib.Data.List.Basic
import Mathlib.Algebra.Order.Ring.Int
import Reiver.Lib.Windows

/-! # Refresh of derived tables

`execute_derived_refresh` and `refresh_inner`: the query of an incremental table is given the moment of the last
refresh, and the moment of this one is stored when its rows are. Times are nanoseconds since the epoch. -/

namespace Reiver.Pond

def second (t : Int) : Int := t / 1000000000 * 1000000000

inductive RefreshMode where
  | full
  | incremental
deriving DecidableEq

/-- When a refresh starts its query, which moment's rows the query sees, and when the clock is read for the table. -/
structure Refresh where
  start : Int
  snapshot : Int
  finish : Int
  start_le : start ≤ snapshot
  le_finish : snapshot ≤ finish

section Tables
variable {Row : Type}

/-- A derived table; the rows of its files are kept by refresh. -/
structure DerivedTable (Row : Type) where
  refreshMode : RefreshMode
  lastRefreshedAt : Option Int
  rowCount : Nat
  files : List (List Row)

/-- The moment that stands for `\x7b\x7blast_refresh\x7d\x7d` in the query: a text of whole seconds. -/
def substituteLastRefresh (lastRefreshedAt : Option Int) : Int :=
  match lastRefreshedAt with
  | some t => second t
  | none => 0

variable (eventTime : Row → Int) (source : List Row)

/-- The rows that are visible, after a moment if one is given. -/
def materializeQuery (since : Option Int) (snapshot : Int) : List Row :=
  source.filter fun row => eventTime row ≤ snapshot && since.all (· < eventTime row)

/-- A refresh adds a file of its own: the paths of the files, which name the second of the refresh, are left out, and so
    are refreshes that share one. -/
def refreshInner (dt : DerivedTable Row) (since : Option Int) (run : Refresh) : DerivedTable Row :=
  let rows := materializeQuery eventTime source since run.snapshot
  { dt with
    lastRefreshedAt := some run.finish
    rowCount := if dt.refreshMode = .full then rows.length else dt.rowCount + rows.length
    files := if dt.refreshMode = .full then [rows] else dt.files ++ [rows] }

/-- The row of the table is read before the lock is taken; refreshes in turn find it as the one before has left it. -/
def executeDerivedRefresh (dt : DerivedTable Row) (run : Refresh) : DerivedTable Row :=
  let since := if dt.refreshMode = .incremental then some (substituteLastRefresh dt.lastRefreshedAt) else none
  refreshInner eventTime source dt since run

def refreshes (dt : DerivedTable Row) (runs : List Refresh) : DerivedTable Row :=
  runs.foldl (executeDerivedRefresh eventTime source) dt

/-- In how many refreshes a row has been stored. -/
def stored [DecidableEq Row] (dt : DerivedTable Row) (row : Row) : Nat := dt.files.countP (row ∈ ·)

/-! ### Runs -/

/-- One refresh after the other, the first not before the moment of the last one. -/
def InTurn : Int → List Refresh → Prop
  | _, [] => True
  | earliest, run :: runs => earliest ≤ run.start ∧ InTurn run.finish runs

def windowOf (run : Refresh) : Lib.Windows.Window Int := ⟨run.snapshot, second run.finish⟩

theorem second_mono {s t : Int} (h : s ≤ t) : second s ≤ second t := by
  unfold second
  omega

theorem InTurn.start_ge {earliest : Int} {runs : List Refresh} (h : InTurn earliest runs) :
    ∀ run ∈ runs, earliest ≤ run.start := by
  induction runs generalizing earliest with
  | nil => simp
  | cons run runs ih =>
    rintro run' hrun'
    rcases List.mem_cons.mp hrun' with rfl | hmem
    · exact h.1
    · exact h.1.trans (run.start_le.trans (run.le_finish.trans (ih h.2 run' hmem)))

theorem ordered_windows {mark earliest : Int} {runs : List Refresh} (hmark : mark ≤ second earliest)
    (h : InTurn earliest runs) : Lib.Windows.Ordered mark (runs.map windowOf) := by
  induction runs generalizing mark earliest with
  | nil => trivial
  | cons run runs ih =>
    have hspan := run.start_le.trans run.le_finish
    refine ⟨hmark.trans (second_mono (h.1.trans hspan)), ?_, ih le_rfl h.2⟩
    rintro w hw
    obtain ⟨run', hrun', rfl⟩ := List.mem_map.mp hw
    exact run.le_finish.trans ((h.2.start_ge run' hrun').trans run'.start_le)

variable [DecidableEq Row] {eventTime source}

theorem stored_refreshes {dt : DerivedTable Row} (hmode : dt.refreshMode = .incremental) {row : Row}
    (hrow : row ∈ source) (runs : List Refresh) :
    stored (refreshes eventTime source dt runs) row =
      stored dt row + Lib.Windows.count (eventTime row) (substituteLastRefresh dt.lastRefreshedAt)
        (runs.map windowOf) := by
  induction runs generalizing dt with
  | nil => rfl
  | cons run runs ih =>
    have hnext : (executeDerivedRefresh eventTime source dt run).refreshMode = .incremental := hmode
    have hmem : row ∈ materializeQuery eventTime source (some (substituteLastRefresh dt.lastRefreshedAt)) run.snapshot ↔
        substituteLastRefresh dt.lastRefreshedAt < eventTime row ∧ eventTime row ≤ run.snapshot := by
      simp [materializeQuery, hrow, and_comm]
    have hstored : stored (executeDerivedRefresh eventTime source dt run) row = stored dt row +
        if substituteLastRefresh dt.lastRefreshedAt < eventTime row ∧ eventTime row ≤ run.snapshot then 1 else 0 := by
      simp [executeDerivedRefresh, refreshInner, stored, hmode, List.countP_append, List.countP_cons, hmem]
    have hmark : substituteLastRefresh (executeDerivedRefresh eventTime source dt run).lastRefreshedAt =
        (windowOf run).mark := rfl
    rw [refreshes, List.foldl_cons, ← refreshes, ih hnext, hstored, hmark, List.map_cons, Lib.Windows.count,
      Nat.add_assoc]
    rfl

/-- Every row from before the last query is stored in exactly one refresh exactly when it is from after the second of
the first mark, and each refresh but the last has its rows in view up to the second of its moment: none later that it
sees, none earlier that it does not. -/
theorem stored_once_iff {dt : DerivedTable Row} (hmode : dt.refreshMode = .incremental) (hnew : dt.files = [])
    {runs : List Refresh} {last : Refresh} (hturn : InTurn (dt.lastRefreshedAt.getD 0) (runs ++ [last])) :
    (∀ row ∈ source, eventTime row < last.start →
        stored (refreshes eventTime source dt (runs ++ [last])) row = 1) ↔
      ∀ row ∈ source, eventTime row < last.start →
        substituteLastRefresh dt.lastRefreshedAt < eventTime row ∧
          ∀ run ∈ runs, (eventTime row ≤ run.snapshot ↔ eventTime row ≤ second run.finish) := by
  have hmark : substituteLastRefresh dt.lastRefreshedAt ≤ second (dt.lastRefreshedAt.getD 0) := by
    cases dt.lastRefreshedAt with
    | none => exact le_rfl
    | some t => exact le_rfl
  have hordered := ordered_windows hmark hturn
  rw [List.map_append, List.map_singleton] at hordered
  refine forall_congr' fun row => forall_congr' fun hrow => forall_congr' fun hbefore => ?_
  have hempty : stored dt row = 0 := by rw [stored, hnew, List.countP_nil]
  rw [stored_refreshes hmode hrow, hempty, Nat.zero_add, List.map_append, List.map_singleton,
    Lib.Windows.count_eq_one_iff hordered (hbefore.le.trans last.start_le), List.forall_mem_map]
  rfl

end Tables

/-! ### Rows lost and rows stored twice -/

/-- A table that has not been refreshed, with event times for rows. -/
def newTable : DerivedTable Int := ⟨.incremental, none, 0, []⟩

def refreshOf (start length : Nat) : Refresh where
  start := start * 1000000
  snapshot := start * 1000000
  finish := (start + length) * 1000000
  start_le := le_rfl
  le_finish := by omega

theorem stored_once_quick :
    (∀ row ∈ [(5000000000 : Int)], row < 20000000000 →
        stored (refreshes id [5000000000] newTable ([refreshOf 10000 0] ++ [refreshOf 20000 0])) row = 1) ↔
      ∀ row ∈ [(5000000000 : Int)], row < 20000000000 →
        0 < row ∧ ∀ run ∈ [refreshOf 10000 0], (row ≤ run.snapshot ↔ row ≤ second run.finish) := by
  have hturn : InTurn (newTable.lastRefreshedAt.getD 0) ([refreshOf 10000 0] ++ [refreshOf 20000 0]) :=
    ⟨by decide, by decide, trivial⟩
  exact stored_once_iff rfl rfl hturn

/-- A row that comes while a query of five seconds runs is in no refresh. One that comes before a query, in the second
the refresh ends in, is in two. -/
theorem not_stored_once :
    stored (refreshes id [12000000000] newTable ([refreshOf 10000 5000] ++ [refreshOf 20000 0])) 12000000000 = 0 ∧
      stored (refreshes id [9500000000] newTable ([refreshOf 9800 100] ++ [refreshOf 20000 0])) 9500000000 = 2 ∧
      ¬ ∀ (source : List Int) (runs : List Refresh) (last : Refresh), InTurn 0 (runs ++ [last]) →
        ∀ row ∈ source, row < last.start → stored (refreshes id source newTable (runs ++ [last])) row = 1 := by
  refine ⟨by decide, by decide, fun h => ?_⟩
  have hlost := h [12000000000] [refreshOf 10000 5000] (refreshOf 20000 0) ⟨by decide, by decide, trivial⟩
    12000000000 (by decide) (by decide)
  exact absurd hlost (by decide)

end Reiver.Pond
