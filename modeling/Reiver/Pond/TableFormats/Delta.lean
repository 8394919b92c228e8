import Mathlib.Data.List.Induction
import Mathlib.Data.List.Sort
import Reiver.Lib.AddRemoveLog
import Reiver.Lib.Dict
import Reiver.Lib.Fallible
import Reiver.Lib.Int64

/-! # Replaying a Delta log

The model of `load_state` of `table_formats/delta.rs`. The commit files of a directory are sorted by their version and
their lines are replayed in order; the last action on a path decides. When that is the state of the table. -/

namespace Reiver.Pond

structure DeltaAddAction where
  path : String
  partitionValues : List (String × String) := []
  size : Int64 := 0
  modificationTime : Int64 := 0
  dataChange : Bool := false
  stats : Option String := none
deriving DecidableEq

structure DeltaRemoveAction where
  path : String
  deletionTimestamp : Option Int64 := none
  dataChange : Bool := false
deriving DecidableEq

/-- One line of a commit; the actions on metadata, protocol and commit are not read. -/
structure DeltaAction where
  add : Option DeltaAddAction
  remove : Option DeltaRemoveAction
deriving DecidableEq

inductive TableFormatError where
  | missingFile (message : String)
  | io (e : String)
  | json (e : String)
  | unsupported (message : String)
deriving DecidableEq

/-- An entry of the log directory: its name, and what reading it gives. -/
structure LogEntry where
  name : String
  content : Except String String

/-- The log directory, whose listing may fail as a whole or at an entry. -/
structure DeltaLog where
  path : String
  isDir : Bool
  entries : Except String (List (Except String LogEntry))

/-- The parser of a line, and the whitespace of `trim`. -/
structure DeltaEnv where
  parseAction : String → Except String DeltaAction
  isWhitespace : Char → Bool

def maxCommitsToReplay : Nat := 10000

/-- The version that a file name states: a number before `.json`. -/
def commitVersion (name : String) : Option Int64 :=
  if ".json".toList <:+ name.toList then parseI64 (String.ofList (name.toList.take (name.length - 5))) else none

/-- The lines of a text, without their line feeds and the carriage returns before these; `line` is kept reversed. -/
def contentLines (line : List Char) : List Char → List String
  | [] => if line = [] then [] else [String.ofList line.reverse]
  | '\n' :: cs =>
    let line := if line.head? = some '\r' then line.tail else line
    String.ofList line.reverse :: contentLines [] cs
  | c :: cs => contentLines (c :: line) cs

def applyAction (files : Dict String DeltaAddAction) (action : DeltaAction) : Dict String DeltaAddAction :=
  let files :=
    match action.add with
    | some add => files.insert add.path add
    | none => files
  match action.remove with
  | some remove => files.erase remove.path
  | none => files

section Load
variable (env : DeltaEnv)

def replayLine (files : Dict String DeltaAddAction) (line : String) :
    Except TableFormatError (Dict String DeltaAddAction) :=
  if line.toList.all env.isWhitespace then .ok files
  else
    match env.parseAction line with
    | .ok action => .ok (applyAction files action)
    | .error e => .error (.json e)

def replayCommit (state : Int64 × Dict String DeltaAddAction) (commit : Int64 × LogEntry) :
    Except TableFormatError (Int64 × Dict String DeltaAddAction) :=
  match commit.2.content with
  | .ok content => do
    let files ← (contentLines [] content.toList).foldlM (replayLine env) state.2
    .ok (commit.1, files)
  | .error e => .error (.io e)

/-- The commit files of the directory, in the order of their versions. -/
def commitFiles (log : DeltaLog) : Except TableFormatError (List (Int64 × LogEntry)) :=
  if log.isDir then do
    let entries ← log.entries.mapError .io
    let entries ← entries.mapM fun entry => entry.mapError .io
    let files := entries.filterMap fun entry => (commitVersion entry.name).map fun version => (version, entry)
    if files = [] then .error (.missingFile "No commit files found in Delta log")
    else if files.length > maxCommitsToReplay then
      .error (.unsupported
        ("Delta table has " ++ toString files.length ++ " commit files, exceeding the replay limit of " ++
          toString maxCommitsToReplay ++
          ". Use Delta checkpoints (_last_checkpoint) for tables with large transaction logs."))
    else .ok (files.insertionSort fun a b => a.1.toInt ≤ b.1.toInt)
  else .error (.missingFile ("Delta log directory not found: " ++ log.path))

def loadState (log : DeltaLog) : Except TableFormatError (Int64 × Dict String DeltaAddAction) := do
  let files ← commitFiles log
  files.foldlM (replayCommit env) (0, ∅)

/-! ### What a log holds -/

abbrev Commit := Int64 × List DeltaAction

def lineActions (line : String) : Except TableFormatError (List DeltaAction) :=
  if line.toList.all env.isWhitespace then .ok []
  else
    match env.parseAction line with
    | .ok action => .ok [action]
    | .error e => .error (.json e)

def readCommit (commit : Int64 × LogEntry) : Except TableFormatError Commit :=
  match commit.2.content with
  | .ok content => ((contentLines [] content.toList).mapM (lineActions env)).map fun lines => (commit.1, lines.flatten)
  | .error e => .error (.io e)

def readLog (log : DeltaLog) : Except TableFormatError (List Commit) := do
  let files ← commitFiles log
  files.mapM (readCommit env)

end Load

def applyCommit (state : Int64 × Dict String DeltaAddAction) (commit : Commit) : Int64 × Dict String DeltaAddAction :=
  (commit.1, commit.2.foldl applyAction state.2)

/-- The versions are those from 0 on, without a gap. -/
def Contiguous (commits : List Commit) : Prop :=
  ∃ n : Nat, ∀ v : Int, (∃ c ∈ commits, c.1.toInt = v) ↔ 0 ≤ v ∧ v < n

def Adds (c : Commit) (path : String) : Prop := ∃ action ∈ c.2, ∃ add ∈ action.add, add.path = path

def Removes (c : Commit) (path : String) : Prop := ∃ action ∈ c.2, ∃ remove ∈ action.remove, remove.path = path

/-- A file is active that some commit adds and no later commit removes. -/
def ActiveFile (commits : List Commit) (path : String) : Prop :=
  ∃ c ∈ commits, Adds c path ∧ ∀ c' ∈ commits, Removes c' path → c'.1.toInt ≤ c.1.toInt

/-- What is loaded is loaded from the start of the table, and is its active files. -/
def ReplaysRight (env : DeltaEnv) (log : DeltaLog) : Prop :=
  ∀ version files, loadState env log = .ok (version, files) →
    ∃ commits, readLog env log = .ok commits ∧ Contiguous commits ∧
      ∀ path, (files.lookup path).isSome = true ↔ ActiveFile commits path

/-! ### The actions on paths, in order -/

def actionEvents (version : Int64) (action : DeltaAction) : List (LogEvent Int String) :=
  (action.add.toList.map fun add => ⟨version.toInt, add.path, true⟩) ++
    action.remove.toList.map fun remove => ⟨version.toInt, remove.path, false⟩

def logEvents (commits : List Commit) : List (LogEvent Int String) :=
  commits.flatMap fun c => c.2.flatMap (actionEvents c.1)

section Events
variable {commits : List Commit} {path : String} {version v : Int64} {e : LogEvent Int String}

theorem mem_actionEvents {action : DeltaAction} :
    e ∈ actionEvents version action ↔
      (∃ add ∈ action.add, e = ⟨version.toInt, add.path, true⟩) ∨
        ∃ remove ∈ action.remove, e = ⟨version.toInt, remove.path, false⟩ := by
  simp only [actionEvents, List.mem_append, List.mem_map, Option.mem_toList, Option.mem_def, eq_comm]

theorem mem_logEvents_added :
    e ∈ logEvents commits ∧ e.key = path ∧ e.added = true ↔
      ∃ c ∈ commits, Adds c path ∧ e = ⟨c.1.toInt, path, true⟩ := by
  simp only [logEvents, List.mem_flatMap, mem_actionEvents]
  constructor
  · rintro ⟨⟨c, hc, action, haction, ⟨add, hadd, rfl⟩ | ⟨remove, -, rfl⟩⟩, hkey, hadded⟩
    · cases hkey
      exact ⟨c, hc, ⟨action, haction, add, hadd, rfl⟩, rfl⟩
    · cases hadded
  · rintro ⟨c, hc, ⟨action, haction, add, hadd, rfl⟩, rfl⟩
    exact ⟨⟨c, hc, action, haction, .inl ⟨add, hadd, rfl⟩⟩, rfl, rfl⟩

theorem mem_logEvents_removed :
    e ∈ logEvents commits ∧ e.key = path ∧ e.added = false ↔
      ∃ c ∈ commits, Removes c path ∧ e = ⟨c.1.toInt, path, false⟩ := by
  simp only [logEvents, List.mem_flatMap, mem_actionEvents]
  constructor
  · rintro ⟨⟨c, hc, action, haction, ⟨add, -, rfl⟩ | ⟨remove, hremove, rfl⟩⟩, hkey, hadded⟩
    · cases hadded
    · cases hkey
      exact ⟨c, hc, ⟨action, haction, remove, hremove, rfl⟩, rfl⟩
  · rintro ⟨c, hc, ⟨action, haction, remove, hremove, rfl⟩, rfl⟩
    exact ⟨⟨c, hc, action, haction, .inr ⟨remove, hremove, rfl⟩⟩, rfl, rfl⟩

theorem activeFile_iff_live : ActiveFile commits path ↔ Live (logEvents commits) path := by
  constructor
  · rintro ⟨c, hc, hadds, hall⟩
    obtain ⟨hmem, hkey, hadded⟩ := mem_logEvents_added.mpr ⟨c, hc, hadds, rfl⟩
    refine ⟨_, hmem, hkey, hadded, fun e' he' hkey' hremoved => ?_⟩
    obtain ⟨c', hc', hremoves, rfl⟩ := mem_logEvents_removed.mp ⟨he', hkey', hremoved⟩
    exact hall c' hc' hremoves
  · rintro ⟨e, he, hkey, hadded, hall⟩
    obtain ⟨c, hc, hadds, rfl⟩ := mem_logEvents_added.mp ⟨he, hkey, hadded⟩
    refine ⟨c, hc, hadds, fun c' hc' hremoves => ?_⟩
    obtain ⟨hmem', hkey', hremoved'⟩ := mem_logEvents_removed.mpr ⟨c', hc', hremoves, rfl⟩
    exact hall _ hmem' hkey' hremoved'

theorem logEvents_concat (c : Commit) :
    logEvents (commits ++ [c]) = logEvents commits ++ c.2.flatMap (actionEvents c.1) := by
  rw [logEvents, List.flatMap_append, List.flatMap_singleton]
  rfl

theorem logEvents_sorted (h : commits.Pairwise fun a b => a.1.toInt ≤ b.1.toInt) :
    (logEvents commits).Pairwise (·.version ≤ ·.version) := by
  have hversion : ∀ c : Commit, ∀ e ∈ c.2.flatMap (actionEvents c.1), e.version = c.1.toInt := by
    intro c e he
    obtain ⟨action, -, he⟩ := List.mem_flatMap.mp he
    rcases mem_actionEvents.mp he with ⟨add, -, rfl⟩ | ⟨remove, -, rfl⟩
    · rfl
    · rfl
  refine List.pairwise_flatMap.mpr ⟨fun c _ => ?_, h.imp fun {c d} hcd e he e' he' => ?_⟩
  · exact List.pairwise_of_forall_mem_list fun e he e' he' => by rw [hversion c e he, hversion c e' he']
  · rw [hversion c e he, hversion d e' he']
    exact hcd

/-! ### The replay -/

/-- A path is in the map if its last event added it. -/
def Tracks (files : Dict String DeltaAddAction) (events : List (LogEvent Int String)) : Prop :=
  ∀ path, (files.lookup path).isSome = (lastEvent events path).any (·.added)

theorem tracks_applyAction {files : Dict String DeltaAddAction} {events : List (LogEvent Int String)}
    (h : Tracks files events) (version : Int64) (action : DeltaAction) :
    Tracks (applyAction files action) (events ++ actionEvents version action) := by
  have hinsert : ∀ {files : Dict String DeltaAddAction} {events : List (LogEvent Int String)}, Tracks files events →
      ∀ add : DeltaAddAction,
        Tracks (files.insert add.path add) (events ++ [⟨version.toInt, add.path, true⟩]) := by
    intro files events h add path
    rw [Dict.lookup_insert', lastEvent_concat]
    by_cases hpath : path = add.path
    · rw [if_pos hpath, if_pos hpath.symm]
      rfl
    · rw [if_neg hpath, if_neg (Ne.symm hpath)]
      exact h path
  have herase : ∀ {files : Dict String DeltaAddAction} {events : List (LogEvent Int String)}, Tracks files events →
      ∀ removed : String, Tracks (files.erase removed) (events ++ [⟨version.toInt, removed, false⟩]) := by
    intro files events h removed path
    rw [Dict.lookup_erase', lastEvent_concat]
    by_cases hpath : path = removed
    · rw [if_pos hpath, if_pos hpath.symm]
      rfl
    · rw [if_neg hpath, if_neg (Ne.symm hpath)]
      exact h path
  obtain ⟨add, remove⟩ := action
  rw [actionEvents, ← List.append_assoc]
  cases add with
  | none =>
    rw [Option.toList_none, List.map_nil, List.append_nil]
    cases remove with
    | none => exact (List.append_nil events).symm ▸ h
    | some remove => exact herase h remove.path
  | some add =>
    cases remove with
    | none => exact (List.append_nil (events ++ _)).symm ▸ hinsert h add
    | some remove => exact herase (hinsert h add) remove.path

theorem tracks_applyCommit {state : Int64 × Dict String DeltaAddAction} {commits : List Commit}
    (h : Tracks state.2 (logEvents commits)) (c : Commit) :
    Tracks (applyCommit state c).2 (logEvents (commits ++ [c])) := by
  rw [logEvents_concat, applyCommit]
  generalize logEvents commits = events at h
  generalize state.2 = files at h
  generalize c.2 = actions
  induction actions generalizing files events with
  | nil => exact (List.append_nil events).symm ▸ h
  | cons action actions ih =>
    rw [List.flatMap_cons, ← List.append_assoc]
    exact ih _ _ (tracks_applyAction h c.1 action)

theorem tracks_replay (commits : List Commit) : Tracks (commits.foldl applyCommit (0, ∅)).2 (logEvents commits) := by
  induction commits using List.reverseRecOn with
  | nil => exact fun path => rfl
  | append_singleton commits c ih =>
    rw [List.foldl_append]
    exact tracks_applyCommit ih c

end Events

/-! ### The state of the table -/

section State
variable {env : DeltaEnv} {log : DeltaLog} {commits : List Commit}

theorem replayLine_eq (files : Dict String DeltaAddAction) (line : String) :
    replayLine env files line = (lineActions env line).map fun actions => actions.foldl applyAction files := by
  rw [replayLine, lineActions]
  split
  · rfl
  · cases env.parseAction line with
    | ok action => rfl
    | error e => rfl

theorem replayCommit_eq (state : Int64 × Dict String DeltaAddAction) (commit : Int64 × LogEntry) :
    replayCommit env state commit = (readCommit env commit).map (applyCommit state) := by
  rw [replayCommit, readCommit]
  cases commit.2.content with
  | error e => rfl
  | ok content =>
    dsimp only
    rw [foldlM_eq_map replayLine_eq]
    cases (contentLines [] content.toList).mapM (lineActions env) with
    | error e => rfl
    | ok lines =>
      show Except.ok _ = Except.ok (applyCommit state (commit.1, lines.flatten))
      rw [applyCommit, List.foldl_flatten]

theorem loadState_eq (env : DeltaEnv) (log : DeltaLog) :
    loadState env log = (readLog env log).map fun commits => commits.foldl applyCommit (0, ∅) := by
  rw [loadState, readLog]
  cases commitFiles log with
  | error e => rfl
  | ok files => exact foldlM_eq_map replayCommit_eq files (0, ∅)

theorem readLog_sorted (h : readLog env log = .ok commits) : commits.Pairwise fun a b => a.1.toInt ≤ b.1.toInt := by
  obtain ⟨files, hfiles, hcommits⟩ := bind_ok h
  have hsorted : files.Pairwise fun a b => a.1.toInt ≤ b.1.toInt := by
    rw [commitFiles] at hfiles
    split at hfiles
    · obtain ⟨listing, -, hfiles⟩ := bind_ok hfiles
      obtain ⟨entries, -, hfiles⟩ := bind_ok hfiles
      dsimp only at hfiles
      split_ifs at hfiles
      cases hfiles
      exact List.pairwise_insertionSort _ _
    · cases hfiles
  have hversion : ∀ (file : Int64 × LogEntry) (c : Commit), readCommit env file = .ok c → c.1 = file.1 := by
    intro file c hread
    rw [readCommit] at hread
    split at hread
    · obtain ⟨lines, -, hread⟩ := map_ok hread
      rw [← hread]
    · cases hread
  have hall := mapM_ok hcommits
  clear h hfiles hcommits
  induction hall with
  | nil => exact .nil
  | @cons file c files commits hread hall ih =>
    obtain ⟨hhead, htail⟩ := List.pairwise_cons.mp hsorted
    refine List.pairwise_cons.mpr ⟨fun d hd => ?_, ih htail⟩
    obtain ⟨file', hfile', hread'⟩ := exists_of_forall₂ hall hd
    rw [hversion file c hread, hversion file' d hread']
    exact hhead file' hfile'

/-- A log is replayed right exactly if, where it can be read at all, its versions have no gap from 0 on, and no version
    whose removal is the last action on a path also adds the path. -/
theorem replaysRight_iff (env : DeltaEnv) (log : DeltaLog) :
    ReplaysRight env log ↔
      ∀ commits, readLog env log = .ok commits → Contiguous commits ∧ RemovalsAlone (logEvents commits) := by
  have hlive : ∀ commits, readLog env log = .ok commits →
      ((∀ path, ((commits.foldl applyCommit (0, ∅)).2.lookup path).isSome = true ↔ ActiveFile commits path) ↔
        RemovalsAlone (logEvents commits)) := by
    intro commits hread
    rw [← lastEvent_live_iff (logEvents_sorted (readLog_sorted hread))]
    exact forall_congr' fun path => by rw [tracks_replay commits path, activeFile_iff_live]
  constructor
  · intro h commits hread
    obtain ⟨commits', hread', hcontiguous, hactive⟩ := h _ _ (by rw [loadState_eq, hread]; rfl)
    obtain rfl := Except.ok.inj (hread.symm.trans hread')
    exact ⟨hcontiguous, (hlive commits hread).mp hactive⟩
  · intro h version files hload
    rw [loadState_eq] at hload
    obtain ⟨commits, hread, hreplay⟩ := map_ok hload
    obtain ⟨hcontiguous, halone⟩ := h commits hread
    have hfiles : files = (commits.foldl applyCommit (0, ∅)).2 := by rw [hreplay]
    exact ⟨commits, hread, hcontiguous, fun path => hfiles ▸ (hlive commits hread).mpr halone path⟩

end State

/-! ### A log that was cleaned up, and a file that is written anew -/

section Examples

def addLine : String := "\x7b\"add\":\x7b\"path\":\"a\"\x7d\x7d"

def removeLine : String := "\x7b\"remove\":\x7b\"path\":\"a\"\x7d\x7d"

def twoLines : DeltaEnv where
  parseAction line :=
    if line = addLine then .ok ⟨some { path := "a" }, none⟩
    else if line = removeLine then .ok ⟨none, some { path := "a" }⟩
    else .error "expected value"
  isWhitespace := Char.isWhitespace

def singleFile (name content : String) : DeltaLog where
  path := "t/_delta_log"
  isDir := true
  entries := .ok [.ok ⟨name, .ok content⟩]

/-- Without its first commit a log is loaded all the same, and a removal after an addition of one commit wins. -/
theorem not_replaysRight :
    ¬ ReplaysRight twoLines (singleFile "00000000000000000001.json" addLine) ∧
    ¬ ReplaysRight twoLines (singleFile "00000000000000000000.json" (addLine ++ "\n" ++ removeLine)) := by
  constructor
  · intro h
    obtain ⟨commits, hread, ⟨n, hversions⟩, -⟩ := h 1 _ rfl
    cases hread
    obtain ⟨c, hc, hzero⟩ := (hversions 0).mpr ⟨le_rfl, by
      obtain ⟨-, hlt⟩ := (hversions 1).mp ⟨_, List.mem_singleton_self _, rfl⟩
      omega⟩
    rw [List.mem_singleton.mp hc] at hzero
    exact absurd hzero (by decide)
  · intro h
    obtain ⟨commits, hread, -, hactive⟩ := h 0 _ rfl
    cases hread
    have hlost : ActiveFile [(0, [⟨some { path := "a" }, none⟩, ⟨none, some { path := "a" }⟩])] "a" :=
      ⟨_, List.mem_singleton_self _, ⟨_, List.mem_cons_self, _, rfl, rfl⟩,
        fun c hc _ => by rw [List.mem_singleton.mp hc]⟩
    exact absurd ((hactive "a").mpr hlost) (by decide)

end Examples

end Reiver.Pond
