import Mathlib.Algebra.BigOperators.Group.Finset.Basic
import Mathlib.Algebra.Order.BigOperators.Group.Finset
import Mathlib.Data.List.Infix
import Mathlib.Data.String.Basic
import Reiver.Lib.Dict

/-! # Data skipping index

The model of `indexes/skip_index.rs`: per-file sets of column values, per-partition summaries of them, and
the filter that skips partitions and files.

An FST set is the finite set of strings it stores. Its byte order is the code point order of the strings,
so a range of keys is a range of strings. -/

namespace Reiver.Pond

/-- The keys of an `fst::Set`. -/
abbrev FstSet := Finset String

def maxSummaryCardinality : Nat := 100000

def maxSummaryMemoryBytes : Nat := 50 * 1024 * 1024

/-- Prefix of the columns that hold full-text tokens. -/
def ftsColumnPrefix : String := "__fts__:"

/-- The next scalar value of a character below `char::MAX`, across the surrogate gap. -/
def nextChar (c : Char) : Char := if c.toNat = 0xD7FF then Char.ofNat 0xE000 else Char.ofNat (c.toNat + 1)

/-- The least string above every string with prefix `s`. Trailing `char::MAX` are dropped; when nothing is
    left there is no such string and `s` itself is returned. -/
def incrementLastByte (s : String) : String :=
  match s.toList.reverse.dropWhile (·.toNat = 0x10FFFF) with
  | [] => s
  | c :: rest => String.ofList (rest.reverse ++ [nextChar c])

/-- A literal searched in the keys of an FST, `.*literal.*`. -/
structure SubstringAutomaton where
  literal : String
deriving DecidableEq

/-- `regex-automata` refuses a pattern whose DFA exceeds its size limit; `builds` tells which it accepts. -/
def SubstringAutomaton.new (builds : String → Bool) (substring : String) : Option SubstringAutomaton :=
  if builds substring then some ⟨substring⟩ else none

def SubstringAutomaton.accepts (aut : SubstringAutomaton) (key : String) : Bool :=
  decide (aut.literal.toList <:+: key.toList)

/-! ## Checks of one column

The file level and the partition level ask the same questions of different maps. A column without a set
might contain anything. -/

section Checks
variable (columns : Dict String FstSet) (column : String)

def mightContain (value : String) : Bool :=
  match columns.lookup column with
  | some fst => value ∈ fst
  | none => true

def mightContainPrefix (pfx : String) : Bool :=
  if pfx = "" then true
  else
    match columns.lookup column with
    | some fst =>
      let upper := incrementLastByte pfx
      if upper = pfx then decide (∃ key ∈ fst, pfx ≤ key) else decide (∃ key ∈ fst, pfx ≤ key ∧ key < upper)
    | none => true

def mightContainSubstringWithAutomaton (aut : SubstringAutomaton) : Bool :=
  match columns.lookup column with
  | some fst => decide (∃ key ∈ fst, aut.accepts key = true)
  | none => true

def aboveMin (minValue : Option String) (minExclusive : Bool) (key : String) : Bool :=
  match minValue with
  | some min => if minExclusive then min < key else min ≤ key
  | none => true

def belowMax (maxValue : Option String) (maxExclusive : Bool) (key : String) : Bool :=
  match maxValue with
  | some max => if maxExclusive then key < max else key ≤ max
  | none => true

def mightContainRangeEx (minValue : Option String) (minExclusive : Bool) (maxValue : Option String)
    (maxExclusive : Bool) : Bool :=
  match columns.lookup column with
  | some fst =>
    if minValue = none ∧ maxValue = none then true
    else decide (∃ key ∈ fst, aboveMin minValue minExclusive key = true ∧ belowMax maxValue maxExclusive key = true)
  | none => true

def mightContainAny (values : List String) : Bool :=
  if values = [] then false
  else
    match columns.lookup column with
    | some fst => values.any (· ∈ fst)
    | none => true

end Checks

/-! ## Predicates -/

structure RangePredicate where
  minValue : Option String
  maxValue : Option String
  minExclusive : Bool
  maxExclusive : Bool
deriving DecidableEq

structure SkipPredicates where
  equality : Dict String String := ∅
  prefixes : Dict String String := ∅
  inLists : Dict String (List String) := ∅
  ranges : Dict String RangePredicate := ∅
  substring : Dict String (List String) := ∅
  tokenSearch : Dict String (List String) := ∅
  contradicted : Bool := false

namespace SkipPredicates

def isEmpty (p : SkipPredicates) : Bool :=
  !p.contradicted && p.equality.entries.isEmpty && p.prefixes.entries.isEmpty && p.inLists.entries.isEmpty &&
    p.ranges.entries.isEmpty && p.substring.entries.isEmpty && p.tokenSearch.entries.isEmpty

/-- The conjunction that `filter_with_skip_predicates` asks of a partition summary and of a file. -/
def admits (builds : String → Bool) (p : SkipPredicates) (columns : Dict String FstSet) : Bool :=
  p.equality.pairs.all (fun e => mightContain columns e.1 e.2) &&
  p.prefixes.pairs.all (fun e => mightContainPrefix columns e.1 e.2) &&
  p.ranges.pairs.all (fun e =>
    mightContainRangeEx columns e.1 e.2.minValue e.2.minExclusive e.2.maxValue e.2.maxExclusive) &&
  p.inLists.pairs.all (fun e => mightContainAny columns e.1 e.2) &&
  p.substring.pairs.all (fun e =>
    (e.2.filterMap (SubstringAutomaton.new builds)).all (mightContainSubstringWithAutomaton columns e.1)) &&
  p.tokenSearch.pairs.all (fun e => e.2.all (mightContain columns (ftsColumnPrefix ++ e.1)))

end SkipPredicates

/-! ## File index -/

structure FileSkipIndex where
  filePath : String
  columnValues : Dict String FstSet

namespace FileSkipIndex

/-- Sorting and deduplicating a column's values before they go into the set leaves the set of them. -/
def build (filePath : String) (columns : Dict String (List String)) : FileSkipIndex :=
  { filePath, columnValues := Dict.ofPairs (columns.pairs.map fun e => (e.1, e.2.toFinset)) }

def newEmpty (filePath : String) : FileSkipIndex := { filePath, columnValues := ∅ }

end FileSkipIndex

/-! ## Partition index -/

structure PartitionIndex where
  partitionKey : String
  /-- Union of the values of the partition's files, per column. -/
  summary : Dict String FstSet
  files : Dict String FileSkipIndex
  estimatedRows : Nat
  fileRowCounts : Dict String Nat
  columnCardinality : Dict String Nat
  highCardinalityColumns : Finset String

/-- Memory the summary of a set is charged with. -/
def summaryMemory (s : FstSet) : Nat := s.sum fun key => key.utf8ByteSize + 16

/-- The streaming union of two sets with its cardinality. The loop counts keys and bytes and gives up at
    the first key past a bound; the counters only grow, so it gives up exactly when a total is past it. -/
def unionWithinBudget (existing new : FstSet) : Option (FstSet × Nat) :=
  let union := existing ∪ new
  if union.card > maxSummaryCardinality ∨ summaryMemory union > maxSummaryMemoryBytes then none
  else some (union, union.card)

def u64Max : Nat := 2 ^ 64 - 1

namespace PartitionIndex

def new (partitionKey : String) : PartitionIndex :=
  { partitionKey, summary := ∅, files := ∅, estimatedRows := 0, fileRowCounts := ∅, columnCardinality := ∅,
    highCardinalityColumns := ∅ }

/-- A column past a bound leaves the summary for good. -/
def exclude (p : PartitionIndex) (column : String) : PartitionIndex :=
  { p with
    summary := p.summary.erase column
    columnCardinality := p.columnCardinality.erase column
    highCardinalityColumns := insert column p.highCardinalityColumns }

/-- One column of a new file goes into the summary. -/
def addColumn (p : PartitionIndex) (column : String) (newFst : FstSet) : PartitionIndex :=
  if column ∈ p.highCardinalityColumns then p
  else
    match p.summary.lookup column with
    | some existingFst =>
      let existingCardinality := (p.columnCardinality.lookup column).getD 0
      -- Early detection: the union has at most the sum of the cardinalities.
      if existingCardinality + newFst.card > maxSummaryCardinality then p.exclude column
      else
        match unionWithinBudget existingFst newFst with
        | none => p.exclude column
        | some (newSet, count) =>
          { p with
            summary := p.summary.insert column newSet
            columnCardinality := p.columnCardinality.insert column count }
    | none =>
      if newFst.card > maxSummaryCardinality then
        { p with highCardinalityColumns := insert column p.highCardinalityColumns }
      else
        { p with
          summary := p.summary.insert column newFst
          columnCardinality := p.columnCardinality.insert column newFst.card }

/-- Stores the file under its path and adjusts the row estimate. -/
def storeFile (p : PartitionIndex) (file : FileSkipIndex) (rowCount : Nat) : PartitionIndex :=
  let oldRows := (p.fileRowCounts.lookup file.filePath).getD 0
  let isNew := (p.files.lookup file.filePath).isNone
  { p with
    files := p.files.insert file.filePath file
    fileRowCounts := p.fileRowCounts.insert file.filePath rowCount
    estimatedRows := min (p.estimatedRows - (if isNew then 0 else oldRows) + rowCount) u64Max }

/-- Building a set from a sorted stream in memory cannot fail, so neither can this. -/
def addFile (p : PartitionIndex) (file : FileSkipIndex) (rowCount : Nat) : PartitionIndex :=
  (file.columnValues.pairs.foldl (fun p e => p.addColumn e.1 e.2) p).storeFile file rowCount

end PartitionIndex

/-! ## Hierarchical index -/

structure HierarchicalSkipIndex where
  partitions : Dict String PartitionIndex
  globalSummary : Dict String FstSet
  totalFiles : Nat
  globalCardinality : Dict String Nat
  globalHighCardinality : Finset String

namespace HierarchicalSkipIndex

def new : HierarchicalSkipIndex :=
  { partitions := ∅, globalSummary := ∅, totalFiles := 0, globalCardinality := ∅, globalHighCardinality := ∅ }

/-- One column of a new file goes into the summary of all partitions. -/
def addGlobalColumn (idx : HierarchicalSkipIndex) (column : String) (newFst : FstSet) : HierarchicalSkipIndex :=
  match idx.globalSummary.lookup column with
  | some existingFst =>
    match unionWithinBudget existingFst newFst with
    | none =>
      { idx with
        globalSummary := idx.globalSummary.erase column
        globalHighCardinality := insert column idx.globalHighCardinality
        globalCardinality := idx.globalCardinality.erase column }
    | some (newSet, count) =>
      { idx with
        globalSummary := idx.globalSummary.insert column newSet
        globalCardinality := idx.globalCardinality.insert column count }
  | none =>
    if newFst.card > maxSummaryCardinality then
      { idx with globalHighCardinality := insert column idx.globalHighCardinality }
    else
      { idx with
        globalSummary := idx.globalSummary.insert column newFst
        globalCardinality := idx.globalCardinality.insert column newFst.card }

/-- Stores the file in its partition, which is created when it is missing. -/
def addToPartition (idx : HierarchicalSkipIndex) (partitionKey : String) (file : FileSkipIndex) (rowCount : Nat) :
    HierarchicalSkipIndex :=
  let part := (idx.partitions.lookup partitionKey).getD (PartitionIndex.new partitionKey)
  let wasNew := (part.files.lookup file.filePath).isNone
  { idx with
    partitions := idx.partitions.insert partitionKey (part.addFile file rowCount)
    totalFiles := idx.totalFiles + if wasNew then 1 else 0 }

def addFile (idx : HierarchicalSkipIndex) (partitionKey : String) (file : FileSkipIndex) (rowCount : Nat) :
    HierarchicalSkipIndex :=
  let columnValues := file.columnValues.pairs.filter fun e => e.1 ∉ idx.globalHighCardinality
  columnValues.foldl (fun idx e => idx.addGlobalColumn e.1 e.2) (idx.addToPartition partitionKey file rowCount)

/-- The partitions a search looks at: the hinted ones that exist, or all of them. -/
def partitionsToSearch (idx : HierarchicalSkipIndex) (partitionHints : Option (List String)) : List PartitionIndex :=
  match partitionHints with
  | some hints => hints.filterMap idx.partitions.lookup
  | none => idx.partitions.values

def filterWithSkipPredicates (builds : String → Bool) (idx : HierarchicalSkipIndex) (predicates : SkipPredicates)
    (partitionHints : Option (List String)) : List String :=
  if predicates.contradicted then []
  else if predicates.isEmpty then (idx.partitionsToSearch partitionHints).flatMap fun part => part.files.keys
  else
    ((idx.partitionsToSearch partitionHints).filter fun part => predicates.admits builds part.summary).flatMap
      fun part => (part.files.values.filter fun file => predicates.admits builds file.columnValues).map (·.filePath)

end HierarchicalSkipIndex

end Reiver.Pond
