import Mathlib.Algebra.Order.Ring.Int
import Mathlib.Data.List.Sort
import Reiver.Lib.Dict

/-! # Skip index cache

The model of `indexes/skip_index_cache.rs`. Times are nanoseconds since the baseline, sizes are bytes, and the
tracked memory is a `u64` that wraps. The type of the cached indexes is a parameter. -/

namespace Reiver.Pond

structure SkipIndexCacheConfig where
  maxTablesPerProject : Nat
  maxProjects : Nat
  maxMemoryBytes : Nat
  ttl : Nat

def SkipIndexCacheConfig.default : SkipIndexCacheConfig :=
  { maxTablesPerProject := 100, maxProjects := 1000, maxMemoryBytes := 512 * 1024 * 1024, ttl := 300 * 10 ^ 9 }

structure CachedIndex (α : Type) where
  index : α
  cachedAtNanos : Nat
  lastAccessedNanos : Nat
  generation : Nat
  estimatedSizeBytes : Nat
deriving DecidableEq

namespace CachedIndex
variable {α : Type}

def new (now : Nat) (index : α) (generation estimatedSizeBytes : Nat) : CachedIndex α :=
  { index, cachedAtNanos := now, lastAccessedNanos := now, generation, estimatedSizeBytes }

def isExpired (e : CachedIndex α) (now ttl : Nat) : Bool := decide (now - e.cachedAtNanos > ttl)

def isStale (e : CachedIndex α) (currentGeneration : Nat) : Bool := decide (e.generation < currentGeneration)

end CachedIndex

structure ProjectCache (α : Type) where
  tables : Dict String (CachedIndex α)
  lastAccessedNanos : Nat

def ProjectCache.new {α : Type} (now : Nat) : ProjectCache α := { tables := ∅, lastAccessedNanos := now }

structure SkipIndexCache (α : Type) where
  projects : Dict Uuid (ProjectCache α)
  generation : Nat
  memoryUsage : Nat

/-- `fetch_add` of an `AtomicU64`. -/
def fetchAdd (a b : Nat) : Nat := (a + b) % 2 ^ 64

/-- `fetch_sub` of an `AtomicU64`. -/
def fetchSub (a b : Nat) : Nat := (a + (2 ^ 64 - b % 2 ^ 64)) % 2 ^ 64

namespace SkipIndexCache
variable {α : Type}

def new : SkipIndexCache α := { projects := ∅, generation := 0, memoryUsage := 0 }

def entry (c : SkipIndexCache α) (projectId : Uuid) (tableName : String) : Option (CachedIndex α) :=
  (c.projects.lookup projectId).bind fun projectCache => projectCache.tables.lookup tableName

/-- The part of `get` under the lock of the shard, with the generation read before. -/
def getWith (c : SkipIndexCache α) (cfg : SkipIndexCacheConfig) (currentGeneration now : Nat) (projectId : Uuid)
    (tableName : String) : Option α :=
  match c.entry projectId tableName with
  | some entry => if !entry.isExpired now cfg.ttl && !entry.isStale currentGeneration then some entry.index else none
  | none => none

/-- The part of `put` under the lock of the shard: the entry replaces the old one of its table. -/
def insertEntry (c : SkipIndexCache α) (now : Nat) (projectId : Uuid) (tableName : String) (entry : CachedIndex α) :
    SkipIndexCache α :=
  let projectCache := (c.projects.lookup projectId).getD (ProjectCache.new now)
  let memoryUsage :=
    match projectCache.tables.lookup tableName with
    | some oldEntry => fetchSub c.memoryUsage oldEntry.estimatedSizeBytes
    | none => c.memoryUsage
  { c with
    projects := c.projects.insert projectId
      { tables := projectCache.tables.insert tableName entry, lastAccessedNanos := now }
    memoryUsage := fetchAdd memoryUsage entry.estimatedSizeBytes }

def invalidateTable (c : SkipIndexCache α) (projectId : Uuid) (tableName : String) : SkipIndexCache α :=
  match c.projects.lookup projectId with
  | some projectCache =>
    match projectCache.tables.lookup tableName with
    | some entry =>
      { c with
        projects := c.projects.insert projectId { projectCache with tables := projectCache.tables.erase tableName }
        memoryUsage := fetchSub c.memoryUsage entry.estimatedSizeBytes }
    | none => c
  | none => c

/-- The memory the entries of a project are charged with. -/
def ProjectCache.size (projectCache : ProjectCache α) : Nat :=
  (projectCache.tables.values.map (·.estimatedSizeBytes)).sum

def invalidateProject (c : SkipIndexCache α) (projectId : Uuid) : SkipIndexCache α :=
  match c.projects.lookup projectId with
  | some projectCache =>
    { c with
      projects := c.projects.erase projectId
      memoryUsage := fetchSub c.memoryUsage (ProjectCache.size projectCache) }
  | none => c

def incrementGeneration (c : SkipIndexCache α) : SkipIndexCache α := { c with generation := c.generation + 1 }

def clear (c : SkipIndexCache α) : SkipIndexCache α := { c with projects := ∅, memoryUsage := 0 }

/-! ### Eviction -/

/-- One round of the eviction loop: a candidate goes, and its project when it is left empty. The size is the
    one read when the candidates were collected. -/
def evictEntry (c : SkipIndexCache α) (projectId : Uuid) (tableName : String) (size : Nat) : SkipIndexCache α :=
  match c.projects.lookup projectId with
  | some projectCache =>
    let memoryUsage :=
      if (projectCache.tables.lookup tableName).isSome then fetchSub c.memoryUsage size else c.memoryUsage
    let tables := projectCache.tables.erase tableName
    if tables.entries = [] then { c with projects := c.projects.erase projectId, memoryUsage }
    else { c with projects := c.projects.insert projectId { projectCache with tables }, memoryUsage }
  | none => c

/-- One round of the loop over projects past the project limit: the project goes as if invalidated. -/
def evictProject (c : SkipIndexCache α) (projectId : Uuid) : SkipIndexCache α := c.invalidateProject projectId

/-! ### What an operation does to an entry -/

section Entry
variable {c : SkipIndexCache α} {p p' : Uuid} {t t' : String} {now size : Nat} {e : CachedIndex α}

theorem entry_insertEntry : (c.insertEntry now p t e).entry p' t' =
    if p' = p ∧ t' = t then some e else c.entry p' t' := by
  unfold entry insertEntry
  dsimp only
  rw [Dict.lookup_insert']
  by_cases hp : p' = p
  · subst hp
    rw [if_pos rfl, Option.bind_some, Dict.lookup_insert']
    by_cases ht : t' = t
    · rw [if_pos ht, if_pos ⟨rfl, ht⟩]
    · rw [if_neg ht, if_neg fun h => ht h.2]
      cases c.projects.lookup p' <;> rfl
  · rw [if_neg hp, if_neg fun h => hp h.1]

theorem entry_invalidateTable : (c.invalidateTable p t).entry p' t' =
    if p' = p ∧ t' = t then none else c.entry p' t' := by
  unfold invalidateTable
  cases hp : c.projects.lookup p with
  | none =>
    dsimp only
    split
    · next h => rw [h.1, entry, hp, Option.bind_none]
    · rfl
  | some projectCache =>
    dsimp only
    cases ht : projectCache.tables.lookup t with
    | none =>
      dsimp only
      split
      · next h => rw [h.1, h.2, entry, hp, Option.bind_some, ht]
      · rfl
    | some old =>
      simp only [entry, Dict.lookup_insert']
      by_cases hpp : p' = p
      · rw [if_pos hpp, Option.bind_some, Dict.lookup_erase', hpp, hp, Option.bind_some]
        by_cases htt : t' = t
        · rw [if_pos htt, if_pos ⟨rfl, htt⟩]
        · rw [if_neg htt, if_neg fun h => htt h.2]
      · rw [if_neg hpp, if_neg fun h => hpp h.1]

theorem entry_invalidateProject : (c.invalidateProject p).entry p' t' = if p' = p then none else c.entry p' t' := by
  unfold invalidateProject
  cases hp : c.projects.lookup p with
  | none =>
    dsimp only
    split
    · next h => rw [h, entry, hp, Option.bind_none]
    · rfl
  | some projectCache =>
    simp only [entry, Dict.lookup_erase']
    split <;> rfl

theorem entry_evictEntry (h : (c.evictEntry p t size).entry p' t' = some e) : c.entry p' t' = some e := by
  unfold evictEntry at h
  cases hp : c.projects.lookup p with
  | none =>
    rw [hp] at h
    exact h
  | some projectCache =>
    rw [hp] at h
    dsimp only at h
    split at h
    · rw [entry, Dict.lookup_erase'] at h
      split at h
      · cases h
      · exact h
    · rw [entry, Dict.lookup_insert'] at h
      split at h
      · next hpp =>
        rw [Option.bind_some, Dict.lookup_erase'] at h
        split at h
        · cases h
        · rw [hpp, entry, hp]
          exact h
      · exact h

theorem entry_evictProject (h : (c.evictProject p).entry p' t' = some e) : c.entry p' t' = some e := by
  rw [evictProject, entry_invalidateProject] at h
  split at h
  · cases h
  · exact h

end Entry

end SkipIndexCache

end Reiver.Pond
