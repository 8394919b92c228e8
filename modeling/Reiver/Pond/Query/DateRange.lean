import Mathlib.Data.List.Infix
import Reiver.Lib.Calendar
import Reiver.Lib.Glob
import Reiver.Lib.LengthPrefixed

/-! # Date ranges and the paths they select

The model of `DateRange` in `warehouse/types.rs` and of `date_range_to_partition_keys` in `query/rewriter.rs`. Files of
a date lie under `prefix/YYYY/MM/DD`; a range is turned into glob patterns for them, or into partition keys. What day it
is now is an argument. -/

namespace Reiver.Pond

structure DateRange where
  start : Option CalendarDate
  stop : Option CalendarDate

/-! ### Patterns -/

def dayPattern (pathPrefix : String) (d : CalendarDate) : String :=
  pathPrefix ++ "/" ++ zeroPadInt 4 d.year ++ "/" ++ zeroPad 2 d.month ++ "/" ++ zeroPad 2 d.day ++ "/*.parquet"

def monthDaysPattern (pathPrefix : String) (year : Int) (month : Nat) : String :=
  pathPrefix ++ "/" ++ zeroPadInt 4 year ++ "/" ++ zeroPad 2 month ++ "/*/*.parquet"

def monthPattern (pathPrefix : String) (year : Int) (month : Nat) : String :=
  pathPrefix ++ "/" ++ zeroPadInt 4 year ++ "/" ++ zeroPad 2 month ++ "/**/*.parquet"

def yearPattern (pathPrefix : String) (year : Int) : String :=
  pathPrefix ++ "/" ++ zeroPadInt 4 year ++ "/**/*.parquet"

def allPattern (pathPrefix : String) : String := pathPrefix ++ "/**/*.parquet"

def noMatchPattern (pathPrefix : String) : String := pathPrefix ++ "/__dh_no_match__/*.parquet"

def yearsThrough (first last : Int) : List Int := (List.range (last + 1 - first).toNat).map fun i : Nat => first + i

/-- The months of a year from one to another. -/
def monthsThrough (first last : Nat) : List Nat := List.range' first (last + 1 - first)

def maxMonthPatterns : Nat := 24

def generateMonthPatterns (pathPrefix : String) (start stop : CalendarDate) : List String :=
  (start.monthsFrom stop).map fun current => monthPattern pathPrefix current.year current.month

def generateOptimizedPatterns (pathPrefix : String) (start stop : CalendarDate) : List String :=
  if stop.year > start.year ∧ stop.year - start.year > 1 then
    (if start.month = 1 ∧ start.day = 1 then [yearPattern pathPrefix start.year]
      else (monthsThrough start.month 12).map (monthPattern pathPrefix start.year)) ++
    (yearsThrough (start.year + 1) (stop.year - 1)).map (yearPattern pathPrefix) ++
    (if stop.month = 12 ∧ stop.day = 31 then [yearPattern pathPrefix stop.year]
      else (monthsThrough 1 stop.month).map (monthPattern pathPrefix stop.year))
  else
    let patterns := generateMonthPatterns pathPrefix start stop
    if patterns.length > maxMonthPatterns then (yearsThrough start.year stop.year).map (yearPattern pathPrefix)
    else patterns

namespace DateRange

def isImpossible (r : DateRange) : Bool :=
  match r.start, r.stop with
  | some start, some stop => start > stop
  | _, _ => false

def bracePatterns : List String → String
  | [pattern] => pattern
  | patterns => "\x7b" ++ ",".intercalate patterns ++ "\x7d"

def toGlobPattern (now : CalendarDate) (pathPrefix : String) (r : DateRange) : String :=
  if r.isImpossible then noMatchPattern pathPrefix
  else
    match r.start, r.stop with
    | some start, some stop =>
      if start = stop then dayPattern pathPrefix start
      else if start.year = stop.year ∧ start.month = stop.month then monthDaysPattern pathPrefix start.year start.month
      else bracePatterns (generateOptimizedPatterns pathPrefix start stop)
    | some start, none =>
      if start.year ≥ now.year then yearPattern pathPrefix start.year
      else if now.year - start.year ≤ 5 then
        bracePatterns ((yearsThrough start.year now.year).map (yearPattern pathPrefix))
      else allPattern pathPrefix
    | none, _ => allPattern pathPrefix

def toPatternList (now : CalendarDate) (pathPrefix : String) (r : DateRange) : List String :=
  if r.isImpossible then []
  else
    match r.start, r.stop with
    | some start, some stop =>
      if start = stop then [dayPattern pathPrefix start]
      else if start.year = stop.year ∧
        start.month = stop.month then [monthDaysPattern pathPrefix start.year start.month]
      else generateOptimizedPatterns pathPrefix start stop
    | some start, none =>
      if start.year ≥ now.year then [yearPattern pathPrefix start.year]
      else (yearsThrough start.year now.year).map (yearPattern pathPrefix)
    | none, _ => [allPattern pathPrefix]

end DateRange

/-! ### Partition keys -/

def maxPartitionKeys : Nat := 24

def partitionKey (d : CalendarDate) : String := zeroPadInt 4 d.year ++ "/" ++ zeroPad 2 d.month

/-- Too many keys are given up for a full scan. -/
def enumerateMonths (keys : List String) : List CalendarDate → List String
  | [] => keys
  | current :: rest =>
    if keys.length ≥ maxPartitionKeys then [] else enumerateMonths (keys ++ [partitionKey current]) rest

def dateRangeToPartitionKeys (now : CalendarDate) (r : DateRange) : List String :=
  if r.isImpossible then []
  else
    match r.start, r.stop with
    | some start, some stop => enumerateMonths [] (start.monthsFrom stop)
    | some start, none => enumerateMonths [] (start.monthsFrom now)
    | none, _ => []

/-! ### Paths -/

def objectPath (pathPrefix : String) (d : CalendarDate) (file : String) : String :=
  pathPrefix ++ "/" ++ zeroPadInt 4 d.year ++ "/" ++ zeroPad 2 d.month ++ "/" ++ zeroPad 2 d.day ++ "/" ++ file ++
    ".parquet"

def PatternMatches (pattern path : String) : Prop := GlobMatches pattern.toList path.toList

/-- Table names are checked before they become part of a prefix. -/
def validTableName (name : String) : Bool :=
  name ≠ "" ∧ (name.toList.all fun c => c.isAlphanum || c = '_' || c = '-' || c = '.') ∧ name.toList.head? ≠ some '.' ∧
    ¬['.', '.'] <:+: name.toList

/-- The prefix of a table that is partitioned by date. -/
def datePartitionPrefix (projectId sourceType tableName : String) : Option String :=
  if validTableName tableName then some (projectId ++ "/" ++ sourceType ++ "/" ++ tableName) else none

theorem datePartitionPrefix_plain {projectId sourceType tableName pathPrefix : String}
    (hproject : Plain projectId.toList) (hsource : Plain sourceType.toList)
    (h : datePartitionPrefix projectId sourceType tableName = some pathPrefix) :
    Plain pathPrefix.toList := by
  rw [datePartitionPrefix] at h
  split_ifs at h with hvalid
  cases h
  simp only [validTableName, Bool.decide_and, Bool.and_eq_true, decide_eq_true_eq] at hvalid
  have hname := List.all_eq_true.mp hvalid.2.1
  intro c hc
  rw [String.toList_append, String.toList_append, String.toList_append, String.toList_append] at hc
  simp only [List.mem_append] at hc
  rcases hc with (((hc | hc) | hc) | hc) | hc
  · exact hproject c hc
  · rw [List.mem_singleton.mp hc]
    decide
  · exact hsource c hc
  · rw [List.mem_singleton.mp hc]
    decide
  · have hc := hname c hc
    intro hmem
    simp only [List.mem_cons, List.not_mem_nil, or_false] at hmem
    rcases hmem with rfl | rfl | rfl | rfl | rfl <;> exact absurd hc (by decide)

end Reiver.Pond
