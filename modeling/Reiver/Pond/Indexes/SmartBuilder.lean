import Mathlib.Data.Finset.Basic
import Reiver.Lib.Dict
import Reiver.Lib.Run

/-! # Smart index builder

The model of `indexes/smart_builder.rs`, with `MutabilityStrategy` of `types.rs`. Times and durations are
nanoseconds; what the clock reads is an argument. -/

namespace Reiver.Pond

def nanosPerHour : Int := 3600 * 10 ^ 9

inductive WindowUnit where
  | hour
  | day
  | week
  | month
deriving DecidableEq

def WindowUnit.toDuration (count : Nat) : WindowUnit → Int
  | .hour => count * nanosPerHour
  | .day => count * (24 * nanosPerHour)
  | .week => count * (7 * 24 * nanosPerHour)
  | .month => count * 30 * (24 * nanosPerHour)

inductive MutabilityStrategy where
  | allImmutable
  | allMutable
  | rollingWindow (window : Nat) (unit : WindowUnit)
  | fileAge (hours : Nat)

def MutabilityStrategy.isMutable (partitionTime now : Int) : MutabilityStrategy → Bool
  | .allImmutable => false
  | .allMutable => true
  | .rollingWindow window unit => decide (partitionTime > now - unit.toDuration window)
  | .fileAge hours => decide (partitionTime > now - hours * nanosPerHour)

structure SmartIndexBuilderConfig where
  freezeThreshold : Int
  maxFilesPerPartition : Nat
  minFilesForMerge : Nat
  mutabilityStrategy : Option MutabilityStrategy

def SmartIndexBuilderConfig.default : SmartIndexBuilderConfig where
  freezeThreshold := 24 * nanosPerHour
  maxFilesPerPartition := 100
  minFilesForMerge := 10
  mutabilityStrategy := none

/-- `is_hot_partition`, for a partition last modified at a given time. -/
def SmartIndexBuilderConfig.isHot (config : SmartIndexBuilderConfig) (now lastModified : Int) : Bool :=
  match config.mutabilityStrategy with
  | some strategy => strategy.isMutable lastModified now
  | none => decide (lastModified > now - config.freezeThreshold)

structure PartitionMetadata where
  lastModified : Int
  fileCount : Nat
  estimatedSizeBytes : Nat
  merged : Bool

structure SmartIndexBuilder where
  config : SmartIndexBuilderConfig
  partitionMetadata : Dict String PartitionMetadata
  frozenPartitions : Finset String

namespace SmartIndexBuilder

def new (config : SmartIndexBuilderConfig) : SmartIndexBuilder where
  config := config
  partitionMetadata := ∅
  frozenPartitions := ∅

def registerPartitionWithSize (b : SmartIndexBuilder) (key : String) (lastModified : Int)
    (fileCount estimatedSizeBytes : Nat) : SmartIndexBuilder :=
  { b with
    partitionMetadata :=
      b.partitionMetadata.insert key { lastModified, fileCount, estimatedSizeBytes, merged := false } }

def registerPartition (b : SmartIndexBuilder) (key : String) (lastModified : Int) (fileCount : Nat) :
    SmartIndexBuilder :=
  b.registerPartitionWithSize key lastModified fileCount 0

def updatePartition (b : SmartIndexBuilder) (key : String) (lastModified : Int) : SmartIndexBuilder :=
  match b.partitionMetadata.lookup key with
  | some metadata =>
    { b with
      partitionMetadata := b.partitionMetadata.insert key { metadata with lastModified }
      frozenPartitions := b.frozenPartitions.erase key }
  | none => b

/-- Unlike `updatePartition`, this leaves the mark. -/
def addFileToPartition (b : SmartIndexBuilder) (now : Int) (key : String) : SmartIndexBuilder :=
  match b.partitionMetadata.lookup key with
  | some metadata =>
    { b with
      partitionMetadata :=
        b.partitionMetadata.insert key { metadata with fileCount := metadata.fileCount + 1, lastModified := now } }
  | none => b

def markFrozen (b : SmartIndexBuilder) (key : String) : SmartIndexBuilder :=
  { b with
    frozenPartitions := insert key b.frozenPartitions
    partitionMetadata :=
      match b.partitionMetadata.lookup key with
      | some metadata => b.partitionMetadata.insert key { metadata with merged := true }
      | none => b.partitionMetadata }

def removePartition (b : SmartIndexBuilder) (key : String) : SmartIndexBuilder :=
  { b with
    partitionMetadata := b.partitionMetadata.erase key
    frozenPartitions := b.frozenPartitions.erase key }

/-! ### Queries -/

def shouldRebuildPartition (b : SmartIndexBuilder) (now : Int) (key : String) : Bool :=
  if key ∈ b.frozenPartitions then false
  else
    match b.partitionMetadata.lookup key with
    | some metadata =>
      b.config.isHot now metadata.lastModified || decide (metadata.fileCount > b.config.maxFilesPerPartition)
    | none => true

def isFrozen (b : SmartIndexBuilder) (now : Int) (key : String) : Bool :=
  if key ∈ b.frozenPartitions then true
  else
    match b.partitionMetadata.lookup key with
    | some metadata => !b.config.isHot now metadata.lastModified
    | none => false

def needsMerge (b : SmartIndexBuilder) (now : Int) (key : String) : Bool :=
  match b.partitionMetadata.lookup key with
  | some metadata =>
    !metadata.merged && decide (metadata.fileCount ≥ b.config.minFilesForMerge) && b.isFrozen now key
  | none => false

def getHotPartitions (b : SmartIndexBuilder) (now : Int) : List String :=
  b.partitionMetadata.keys.filter (b.shouldRebuildPartition now)

def getPartitionsNeedingMerge (b : SmartIndexBuilder) (now : Int) : List String :=
  b.partitionMetadata.keys.filter (b.needsMerge now)

def getFrozenPartitions (b : SmartIndexBuilder) (now : Int) : List String :=
  b.partitionMetadata.keys.filter fun key => b.isFrozen now key && !b.needsMerge now key

/-! ### When a partition was last modified -/

/-- The recorded time of a partition the builder knows. -/
def modified (b : SmartIndexBuilder) (key : String) : Option Int :=
  (b.partitionMetadata.lookup key).map (·.lastModified)

section Modified
variable (b : SmartIndexBuilder) (key key' : String) (time : Int)

theorem modified_registerPartitionWithSize (fileCount size : Nat) :
    (b.registerPartitionWithSize key time fileCount size).modified key' =
      if key' = key then some time else b.modified key' := by
  rw [modified, registerPartitionWithSize, Dict.lookup_insert']
  split <;> rfl

theorem modified_updatePartition : (b.updatePartition key time).modified key' =
    if key' = key then (b.modified key).map fun _ => time else b.modified key' := by
  rw [updatePartition]
  cases hkey : b.partitionMetadata.lookup key with
  | none =>
    dsimp only
    split
    · next h => rw [h, modified, hkey, Option.map_none, Option.map_none]
    · rfl
  | some metadata =>
    simp only [modified, Dict.lookup_insert', hkey]
    split <;> rfl

theorem modified_addFileToPartition : (b.addFileToPartition time key).modified key' =
    if key' = key then (b.modified key).map fun _ => time else b.modified key' := by
  rw [addFileToPartition]
  cases hkey : b.partitionMetadata.lookup key with
  | none =>
    dsimp only
    split
    · next h => rw [h, modified, hkey, Option.map_none, Option.map_none]
    · rfl
  | some metadata =>
    simp only [modified, Dict.lookup_insert', hkey]
    split <;> rfl

theorem modified_markFrozen : (b.markFrozen key).modified key' = b.modified key' := by
  simp only [modified, markFrozen]
  cases hkey : b.partitionMetadata.lookup key with
  | none => rfl
  | some metadata =>
    rw [Dict.lookup_insert']
    split
    · next h => rw [h, hkey, Option.map_some, Option.map_some]
    · rfl

theorem modified_removePartition : (b.removePartition key).modified key' =
    if key' = key then none else b.modified key' := by
  rw [modified, removePartition, Dict.lookup_erase']
  split <;> rfl

theorem rebuilt_iff (now : Int) : b.isFrozen now key = false ∧ b.shouldRebuildPartition now key = true ↔
    key ∉ b.frozenPartitions ∧ ∀ time ∈ b.modified key, b.config.isHot now time = true := by
  unfold isFrozen shouldRebuildPartition modified
  by_cases hmark : key ∈ b.frozenPartitions
  · simp [hmark]
  · rw [if_neg hmark, if_neg hmark]
    cases b.partitionMetadata.lookup key with
    | none => simp [hmark]
    | some metadata =>
      simp only [Bool.not_eq_eq_eq_not, Bool.not_false, Bool.or_eq_true, Option.map_some, Option.mem_some_iff, hmark,
        not_false_eq_true, forall_eq', true_and]
      exact ⟨And.left, fun hhot => ⟨hhot, Or.inl hhot⟩⟩

end Modified

end SmartIndexBuilder

end Reiver.Pond

/-! # Frozen marks

Histories of the smart index builder. A partition that was marked has changed since its last mark when, after it, it
was registered, updated or given a file. Such a partition should be rebuilt. Only `update_partition` takes the mark
away, so a history keeps its marks fresh exactly when nothing else reaches a marked partition and, as the marks
are not all that freezes a partition, the changed partitions are asked about while they are hot. -/

namespace Reiver.Pond

inductive BuilderOp where
  | registerPartition (key : String) (lastModified : Int) (fileCount : Nat)
  | registerPartitionWithSize (key : String) (lastModified : Int) (fileCount estimatedSizeBytes : Nat)
  | updatePartition (key : String) (lastModified : Int)
  | addFileToPartition (key : String)
  | markFrozen (key : String)
  | removePartition (key : String)
  /-- Any of the methods that only read. -/
  | query

namespace BuilderOp

def apply (now : Int) (b : SmartIndexBuilder) : BuilderOp → SmartIndexBuilder
  | registerPartition key lastModified fileCount => b.registerPartition key lastModified fileCount
  | registerPartitionWithSize key lastModified fileCount size =>
    b.registerPartitionWithSize key lastModified fileCount size
  | updatePartition key lastModified => b.updatePartition key lastModified
  | addFileToPartition key => b.addFileToPartition now key
  | markFrozen key => b.markFrozen key
  | removePartition key => b.removePartition key
  | query => b

/-- The partition an operation brings a file or a change to. -/
def changes : BuilderOp → Option String
  | registerPartition key _ _ | registerPartitionWithSize key _ _ _ | updatePartition key _ | addFileToPartition key =>
    some key
  | markFrozen _ | removePartition _ | query => none

/-- Whether a partition was ever marked, once the operation is done. -/
def markedAfter (marked : String → Bool) (op : BuilderOp) (key : String) : Bool :=
  match op with
  | markFrozen key' => marked key || decide (key = key')
  | _ => marked key

/-- Whether a partition that was marked has changed since its last mark, once the operation is done. -/
def changedAfter (marked changed : String → Bool) (op : BuilderOp) (key : String) : Bool :=
  match op with
  | markFrozen key' => if key = key' then false else changed key
  | op => changed key || (marked key && decide (op.changes = some key))

/-- The time a partition is recorded to be modified at, once the operation is done. -/
def modifiedAfter (now : Int) (b : SmartIndexBuilder) (op : BuilderOp) (key : String) : Option Int :=
  match op with
  | registerPartition key' time _ | registerPartitionWithSize key' time _ _ =>
    if key = key' then some time else b.modified key
  | updatePartition key' time => if key = key' then (b.modified key').map fun _ => time else b.modified key
  | addFileToPartition key' => if key = key' then (b.modified key').map fun _ => now else b.modified key
  | removePartition key' => if key = key' then none else b.modified key
  | markFrozen _ | query => b.modified key

/-- No mark stays on the partition an operation changes: it carries none, or it is a known one that is updated. -/
def LiftsMark (marked : String → Bool) (b : SmartIndexBuilder) : BuilderOp → Prop
  | updatePartition key _ => marked key = true → key ∈ b.frozenPartitions → (b.modified key).isSome
  | op => ∀ key ∈ op.changes, marked key = true → key ∉ b.frozenPartitions

theorem modified_apply (now : Int) (b : SmartIndexBuilder) (op : BuilderOp) (key : String) :
    (op.apply now b).modified key = op.modifiedAfter now b key := by
  cases op with
  | registerPartition key' time fileCount => exact b.modified_registerPartitionWithSize key' key time fileCount 0
  | registerPartitionWithSize key' time fileCount size =>
    exact b.modified_registerPartitionWithSize key' key time fileCount size
  | updatePartition key' time => exact b.modified_updatePartition key' key time
  | addFileToPartition key' => exact b.modified_addFileToPartition key' key now
  | markFrozen key' => exact b.modified_markFrozen key' key
  | removePartition key' => exact b.modified_removePartition key' key
  | query => rfl

theorem config_apply (now : Int) (b : SmartIndexBuilder) (op : BuilderOp) : (op.apply now b).config = b.config := by
  cases op with
  | updatePartition key time =>
    rw [apply, SmartIndexBuilder.updatePartition]
    split <;> rfl
  | addFileToPartition key =>
    rw [apply, SmartIndexBuilder.addFileToPartition]
    split <;> rfl
  | registerPartition key time fileCount => rfl
  | registerPartitionWithSize key time fileCount size => rfl
  | markFrozen key => rfl
  | removePartition key => rfl
  | query => rfl

end BuilderOp

/-- A builder, what was marked, what has changed since it was last marked, and the time of the last operation. -/
structure TrackedBuilder where
  builder : SmartIndexBuilder
  marked : String → Bool
  changed : String → Bool
  clock : Int

namespace TrackedBuilder

def new (config : SmartIndexBuilderConfig) (clock : Int) : TrackedBuilder :=
  { builder := .new config, marked := fun _ => false, changed := fun _ => false, clock }

def step (s : TrackedBuilder) (op : Int × BuilderOp) : Option TrackedBuilder :=
  some { builder := op.2.apply op.1 s.builder, marked := op.2.markedAfter s.marked,
         changed := op.2.changedAfter s.marked s.changed, clock := op.1 }

/-- Every partition that has changed since its last mark is treated as one to rebuild. -/
def ChangesRebuilt (s : TrackedBuilder) : Prop :=
  ∀ key, s.changed key = true →
    s.builder.isFrozen s.clock key = false ∧ s.builder.shouldRebuildPartition s.clock key = true

/-- An operation at a given time leaves no mark on what it changes, and comes while what has changed is hot. -/
def InTime (s : TrackedBuilder) (op : Int × BuilderOp) : Prop :=
  op.2.LiftsMark s.marked s.builder ∧ ∀ key, op.2.changedAfter s.marked s.changed key = true →
    ∀ time ∈ op.2.modifiedAfter op.1 s.builder key, s.builder.config.isHot op.1 time = true

/-! ### One operation -/

section Step
variable {marked changed : String → Bool} {frozen : Finset String} {key : Option String}

theorem forall_changed_iff (hfresh : ∀ k, changed k = true → k ∉ frozen) :
    (∀ k, (changed k || (marked k && decide (key = some k))) = true → k ∉ frozen) ↔
      ∀ k ∈ key, marked k = true → k ∉ frozen := by
  constructor
  · intro h k hk hmarked
    exact h k (by rw [Option.mem_def.mp hk, hmarked, decide_eq_true rfl, Bool.and_true, Bool.or_true])
  · intro h k hk
    rcases Bool.or_eq_true_iff.mp hk with hchanged | hnow
    · exact hfresh k hchanged
    · obtain ⟨hmarked, heq⟩ := (Bool.and_eq_true_iff).mp hnow
      exact h k (of_decide_eq_true heq) hmarked

theorem frozen_updatePartition (b : SmartIndexBuilder) (key : String) (time : Int) :
    (b.updatePartition key time).frozenPartitions =
      if (b.modified key).isSome then b.frozenPartitions.erase key else b.frozenPartitions := by
  rw [SmartIndexBuilder.updatePartition, SmartIndexBuilder.modified]
  cases b.partitionMetadata.lookup key <;> rfl

theorem frozen_addFileToPartition (b : SmartIndexBuilder) (now : Int) (key : String) :
    (b.addFileToPartition now key).frozenPartitions = b.frozenPartitions := by
  rw [SmartIndexBuilder.addFileToPartition]
  split <;> rfl

/-- After an operation no changed partition carries a mark, exactly when the operation lifts the mark of what it
    changes. -/
theorem unmarked_iff {b : SmartIndexBuilder} (now : Int) (op : BuilderOp)
    (hfresh : ∀ k, changed k = true → k ∉ b.frozenPartitions) :
    (∀ k, op.changedAfter marked changed k = true → k ∉ (op.apply now b).frozenPartitions) ↔
      op.LiftsMark marked b := by
  cases op with
  | registerPartition key time fileCount => exact forall_changed_iff hfresh
  | registerPartitionWithSize key time fileCount size => exact forall_changed_iff hfresh
  | addFileToPartition key =>
    rw [BuilderOp.apply, frozen_addFileToPartition]
    exact forall_changed_iff hfresh
  | query => exact forall_changed_iff hfresh
  | removePartition key =>
    refine iff_of_true (fun k hk hmem => ?_) (fun k hk => nomatch hk)
    have hchanged : changed k = true := by simpa [BuilderOp.changedAfter, BuilderOp.changes] using hk
    exact hfresh k hchanged (Finset.mem_of_mem_erase hmem)
  | markFrozen key =>
    refine iff_of_true (fun k hk hmem => ?_) (fun k hk => nomatch hk)
    rw [BuilderOp.changedAfter] at hk
    split at hk
    · cases hk
    · next hne => exact hfresh k hk ((Finset.mem_insert.mp hmem).resolve_left hne)
  | updatePartition key time =>
    rw [BuilderOp.apply, frozen_updatePartition, BuilderOp.LiftsMark]
    by_cases hknown : (b.modified key).isSome = true
    · rw [if_pos hknown]
      refine iff_of_true (fun k hk hmem => ?_) (fun _ _ => hknown)
      obtain ⟨hne, hmem⟩ := Finset.mem_erase.mp hmem
      rcases Bool.or_eq_true_iff.mp hk with hchanged | hnow
      · exact hfresh k hchanged hmem
      · exact hne (Option.some.inj (of_decide_eq_true (Bool.and_eq_true_iff.mp hnow).2)).symm
    · rw [if_neg hknown]
      refine (forall_changed_iff hfresh).trans
        ⟨fun h hmarked hmem => (h key rfl hmarked hmem).elim, fun h k hk hmarked hmem => ?_⟩
      cases Option.mem_some_iff.mp hk
      exact hknown (h hmarked hmem)

end Step

theorem changesRebuilt_iff (s : TrackedBuilder) : s.ChangesRebuilt ↔
    (∀ key, s.changed key = true → key ∉ s.builder.frozenPartitions) ∧
      ∀ key, s.changed key = true → ∀ time ∈ s.builder.modified key, s.builder.config.isHot s.clock time = true := by
  have hrebuilt := fun key => s.builder.rebuilt_iff key s.clock
  simp only [ChangesRebuilt, hrebuilt]
  exact ⟨fun h => ⟨fun key hkey => (h key hkey).1, fun key hkey => (h key hkey).2⟩,
    fun h key hkey => ⟨h.1 key hkey, h.2 key hkey⟩⟩

theorem ChangesRebuilt.listed {s : TrackedBuilder} (h : s.ChangesRebuilt) {key : String}
    (hchanged : s.changed key = true) :
    (key ∈ s.builder.partitionMetadata.keys → key ∈ s.builder.getHotPartitions s.clock) ∧
      key ∉ s.builder.getPartitionsNeedingMerge s.clock ∧ key ∉ s.builder.getFrozenPartitions s.clock := by
  obtain ⟨hfrozen, hrebuild⟩ := h key hchanged
  refine ⟨fun hkey => List.mem_filter.mpr ⟨hkey, hrebuild⟩, fun hmerge => ?_, fun hlisted => ?_⟩
  · have hneeds := (List.mem_filter.mp hmerge).2
    rw [SmartIndexBuilder.needsMerge, hfrozen] at hneeds
    split at hneeds
    · rw [Bool.and_false] at hneeds
      cases hneeds
    · cases hneeds
  · have hmarked := (List.mem_filter.mp hlisted).2
    rw [hfrozen, Bool.false_and] at hmarked
    cases hmarked

theorem changesRebuilt_step {s s' : TrackedBuilder} {op : Int × BuilderOp} (hs : s.ChangesRebuilt)
    (hstep : s.step op = some s') : s'.ChangesRebuilt ↔ s.InTime op := by
  cases hstep
  rw [changesRebuilt_iff] at hs ⊢
  rw [InTime]
  simp only [BuilderOp.modified_apply, BuilderOp.config_apply, unmarked_iff op.1 op.2 hs.1]

/-! ### Histories -/

/-- Exactly what is asked of a history. -/
theorem changesRebuilt_iff_inTime (config : SmartIndexBuilderConfig) (clock : Int) (ops : List (Int × BuilderOp)) :
    Always step ChangesRebuilt (new config clock) ops ↔ Meets step InTime (new config clock) ops :=
  always_iff_meets (fun _ _ _ => changesRebuilt_step) (fun _ h => nomatch h)

/-- A partition of ten files is merged and marked, then gets one more file within the hour. -/
def lateFile : List (Int × BuilderOp) :=
  [(0, .registerPartition "2025/01/15" 0 10), (1, .markFrozen "2025/01/15"), (2, .addFileToPartition "2025/01/15")]

theorem lateFile_skipped : ¬Always step ChangesRebuilt (new .default 0) lateFile := by
  intro h
  have hlast := h.of_exec rfl "2025/01/15" (by decide)
  exact absurd hlast.2 (by decide)

end TrackedBuilder

end Reiver.Pond
