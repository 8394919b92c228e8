import Reiver.Lib.Dict
import Reiver.Lib.Run
import Reiver.Pond.Indexes.SkipIndexCache

/-! # Bookkeeping of the skip index cache

Histories of one thread. Where eviction goes over a hash map, the order it finds is part of the operation: any
order will do, sorted by last access as `sort_by_key` leaves it. `put` has no branch for a project that is full,
so `max_tables_per_project` is kept only by histories that put no new table into one. -/

namespace Reiver.Pond

/-- What eviction collects of an entry: its place, its last access and its size. -/
structure EvictionCandidate where
  projectId : Uuid
  tableName : String
  lastAccessed : Nat
  size : Nat
deriving DecidableEq

namespace SkipIndexCache
variable {α : Type}

def candidates (c : SkipIndexCache α) : List EvictionCandidate :=
  c.projects.pairs.flatMap fun project => project.2.tables.pairs.map fun table =>
    ⟨project.1, table.1, table.2.lastAccessedNanos, table.2.estimatedSizeBytes⟩

def projectAccess (c : SkipIndexCache α) : List (Uuid × Nat) :=
  c.projects.pairs.map fun project => (project.1, project.2.lastAccessedNanos)

/-- Four fifths of a limit, as a `usize` product gives it. -/
def target (limit : Nat) : Nat := limit * 8 % 2 ^ 64 / 10

/-- The eviction loop, and the subtractions it makes from the tracked memory: what was there and what went. -/
def evictCandidates (stop : Nat) : List EvictionCandidate → SkipIndexCache α → SkipIndexCache α × List (Nat × Nat)
  | [], c => (c, [])
  | e :: rest, c =>
    if c.memoryUsage ≤ stop then (c, [])
    else
      let next := evictCandidates stop rest (c.evictEntry e.projectId e.tableName e.size)
      if (c.entry e.projectId e.tableName).isSome then (next.1, (c.memoryUsage, e.size) :: next.2) else next

def evictProjects : List Uuid → SkipIndexCache α → SkipIndexCache α × List (Nat × Nat)
  | [], c => (c, [])
  | projectId :: rest, c =>
    let next := evictProjects rest (c.evictProject projectId)
    match c.projects.lookup projectId with
    | some projectCache => (next.1, (c.memoryUsage, ProjectCache.size projectCache) :: next.2)
    | none => next

/-- `evict_if_needed`, going over the entries and the projects in given orders. -/
def evictInOrder (cfg : SkipIndexCacheConfig) (entries : List EvictionCandidate) (projects : List (Uuid × Nat))
    (c : SkipIndexCache α) : Option (SkipIndexCache α × List (Nat × Nat)) :=
  if c.memoryUsage ≤ cfg.maxMemoryBytes ∧ Dict.size c.projects ≤ cfg.maxProjects then some (c, [])
  else if entries.Perm c.candidates ∧ entries.Pairwise (fun a b => a.lastAccessed ≤ b.lastAccessed) then
    let evicted := evictCandidates (target cfg.maxMemoryBytes) entries c
    if Dict.size evicted.1.projects ≤ cfg.maxProjects then some evicted
    else if projects.Perm evicted.1.projectAccess ∧ projects.Pairwise (fun a b => a.2 ≤ b.2) then
      let toEvict := Dict.size evicted.1.projects - target cfg.maxProjects
      let last := evictProjects ((projects.take toEvict).map Prod.fst) evicted.1
      some (last.1, evicted.2 ++ last.2)
    else none
  else none

def touchEntry (cfg : SkipIndexCacheConfig) (generation now : Nat) (tableName : String)
    (tables : Dict String (CachedIndex α)) : Dict String (CachedIndex α) :=
  match tables.lookup tableName with
  | some entry =>
    if !entry.isExpired now cfg.ttl && !entry.isStale generation then
      tables.insert tableName { entry with lastAccessedNanos := now }
    else tables
  | none => tables

/-- `get_and_touch` sets the time of a project, and of an entry that can be served. -/
def touch (c : SkipIndexCache α) (cfg : SkipIndexCacheConfig) (now : Nat) (projectId : Uuid) (tableName : String) :
    SkipIndexCache α :=
  match c.projects.lookup projectId with
  | some projectCache =>
    { c with
      projects := c.projects.insert projectId
        { tables := touchEntry cfg c.generation now tableName projectCache.tables, lastAccessedNanos := now } }
  | none => c

end SkipIndexCache

inductive CacheOp (α : Type) where
  | put (now : Nat) (projectId : Uuid) (tableName : String) (index : α) (estimatedSizeBytes : Nat)
      (entries : List EvictionCandidate) (projects : List (Uuid × Nat))
  | get (now : Nat) (projectId : Uuid) (tableName : String)
  | getAndTouch (now : Nat) (projectId : Uuid) (tableName : String)
  | invalidateTable (projectId : Uuid) (tableName : String)
  | invalidateProject (projectId : Uuid)
  | incrementGeneration
  | clear

/-- A cache, and the subtractions the last operation made from its tracked memory. -/
structure CacheHistory (α : Type) where
  cache : SkipIndexCache α
  subtracted : List (Nat × Nat)

namespace CacheHistory
variable {α : Type}

def new : CacheHistory α := { cache := .new, subtracted := [] }

/-- The subtraction that comes with the removal of an entry. -/
def entrySubtracted (c : SkipIndexCache α) (projectId : Uuid) (tableName : String) : List (Nat × Nat) :=
  ((c.entry projectId tableName).map fun entry => (c.memoryUsage, entry.estimatedSizeBytes)).toList

def step (cfg : SkipIndexCacheConfig) (s : CacheHistory α) : CacheOp α → Option (CacheHistory α)
  | .put now projectId tableName index size entries projects =>
    let entry := CachedIndex.new now index s.cache.generation size
    ((s.cache.insertEntry now projectId tableName entry).evictInOrder cfg entries projects).map fun evicted =>
      { cache := evicted.1, subtracted := entrySubtracted s.cache projectId tableName ++ evicted.2 }
  | .get _ _ _ => some { s with subtracted := [] }
  | .getAndTouch now projectId tableName =>
    some { cache := s.cache.touch cfg now projectId tableName, subtracted := [] }
  | .invalidateTable projectId tableName =>
    some { cache := s.cache.invalidateTable projectId tableName
           subtracted := entrySubtracted s.cache projectId tableName }
  | .invalidateProject projectId =>
    some {
      cache := s.cache.invalidateProject projectId
      subtracted := (SkipIndexCache.evictProjects [projectId] s.cache).2 }
  | .incrementGeneration => some { cache := s.cache.incrementGeneration, subtracted := [] }
  | .clear => some { cache := s.cache.clear, subtracted := [] }

end CacheHistory

namespace SkipIndexCache
variable {α : Type}

def total (c : SkipIndexCache α) : Nat := Dict.total ProjectCache.size c.projects

end SkipIndexCache

/-- The tracked memory is exact, nothing was subtracted that was not there, and every limit is kept. -/
structure CacheHistory.WithinLimits {α : Type} (cfg : SkipIndexCacheConfig) (s : CacheHistory α) : Prop where
  exact : s.cache.memoryUsage = s.cache.total
  subtracted : ∀ sub ∈ s.subtracted, sub.2 ≤ sub.1
  memory : s.cache.memoryUsage ≤ cfg.maxMemoryBytes
  projects : Dict.size s.cache.projects ≤ cfg.maxProjects
  tables : ∀ projectId projectCache, s.cache.projects.lookup projectId = some projectCache →
    Dict.size projectCache.tables ≤ cfg.maxTablesPerProject

def SkipIndexCache.tableCount {α : Type} (c : SkipIndexCache α) (projectId : Uuid) : Nat :=
  (c.projects.lookup projectId).elim 0 fun projectCache => Dict.size projectCache.tables

def SkipIndexCache.replacedSize {α : Type} (c : SkipIndexCache α) (projectId : Uuid) (tableName : String) : Nat :=
  (c.entry projectId tableName).elim 0 (·.estimatedSizeBytes)

/-- A put replaces a table or finds its project with room for one more, and the sizes add up within 64 bits. -/
def CacheHistory.HasRoom {α : Type} (cfg : SkipIndexCacheConfig) (s : CacheHistory α) : CacheOp α → Prop
  | .put _ projectId tableName _ size _ _ =>
    ((s.cache.entry projectId tableName).isSome ∨ s.cache.tableCount projectId < cfg.maxTablesPerProject) ∧
      s.cache.memoryUsage - s.cache.replacedSize projectId tableName + size < 2 ^ 64
  | _ => True

namespace SkipIndexCache
variable {α : Type} {c c' c'' : SkipIndexCache α} {p : Uuid} {t : String} {projectCache : ProjectCache α}
  {e : CachedIndex α} {size now : Nat}

/-! ### The counter -/

theorem fetchSub_of_le {a b : Nat} (hle : b ≤ a) (ha : a < 2 ^ 64) : fetchSub a b = a - b := by
  rw [fetchSub, Nat.mod_eq_of_lt (Nat.lt_of_le_of_lt hle ha)]
  have hsum : a + (2 ^ 64 - b) = a - b + 2 ^ 64 := by omega
  rw [hsum, Nat.add_mod_right]
  exact Nat.mod_eq_of_lt (by omega)

theorem fetchAdd_of_lt {a b : Nat} (h : a + b < 2 ^ 64) : fetchAdd a b = a + b := Nat.mod_eq_of_lt h

theorem target_le (limit : Nat) : target limit ≤ limit := by
  have hmod : limit * 8 % 2 ^ 64 ≤ limit * 8 := Nat.mod_le _ _
  rw [target]
  omega

/-- The counter is the sum of the sizes, which fits. -/
structure Exact (c : SkipIndexCache α) : Prop where
  total : c.memoryUsage = c.total
  fits : c.memoryUsage < 2 ^ 64

/-! ### What the sizes add up to -/

theorem total_insert_project (projectCache' : ProjectCache α) (h : c.projects.lookup p = some projectCache) :
    Dict.total ProjectCache.size (c.projects.insert p projectCache') + ProjectCache.size projectCache =
      ProjectCache.size projectCache' + c.total := by
  have hold : c.total = _ := Dict.total_erase h
  rw [hold, Dict.total_insert]
  omega

theorem size_erase_table {tables : Dict String (CachedIndex α)} (h : tables.lookup t = some e) (now now' : Nat) :
    ProjectCache.size ⟨tables, now⟩ = e.estimatedSizeBytes + ProjectCache.size ⟨tables.erase t, now'⟩ :=
  Dict.total_erase h

theorem size_le_total (h : c.projects.lookup p = some projectCache) : ProjectCache.size projectCache ≤ c.total :=
  Dict.le_total h

theorem entry_eq (h : c.projects.lookup p = some projectCache) : c.entry p t = projectCache.tables.lookup t := by
  rw [entry, h, Option.bind_some]

theorem entrySize_le_total (h : c.entry p t = some e) : e.estimatedSizeBytes ≤ c.total := by
  obtain ⟨projectCache, hp, ht⟩ := Option.bind_eq_some_iff.mp h
  exact (Dict.le_total (f := CachedIndex.estimatedSizeBytes) ht).trans (size_le_total hp)

theorem total_eq_zero (h : ∀ p t, c.entry p t = none) : c.total = 0 := by
  refine Dict.total_eq_zero fun p projectCache hp => Dict.total_eq_zero fun t e ht => ?_
  have hentry := h p t
  rw [entry_eq hp, ht] at hentry
  cases hentry

/-! ### Single operations -/

/-- The tables a put into a project finds there. -/
def tablesOf (c : SkipIndexCache α) (p : Uuid) : Dict String (CachedIndex α) :=
  (c.projects.lookup p).elim ∅ (·.tables)

theorem entry_tablesOf : c.entry p t = (c.tablesOf p).lookup t := by
  rw [entry, tablesOf]
  cases c.projects.lookup p <;> rfl

theorem total_tablesOf : c.total = Dict.total CachedIndex.estimatedSizeBytes (c.tablesOf p) +
    Dict.total ProjectCache.size (c.projects.erase p) := by
  rw [tablesOf]
  cases hp : c.projects.lookup p with
  | none => rw [Option.elim_none, Dict.total_empty, Nat.zero_add, Dict.erase_of_lookup_none hp, total]
  | some projectCache => exact Dict.total_erase hp

theorem projects_insertEntry : (c.insertEntry now p t e).projects =
    c.projects.insert p { tables := (c.tablesOf p).insert t e, lastAccessedNanos := now } := by
  rw [insertEntry, tablesOf]
  cases c.projects.lookup p <;> rfl

theorem memoryUsage_insertEntry (now : Nat) (e : CachedIndex α) (h : c.Exact) : (c.insertEntry now p t e).memoryUsage =
    fetchAdd (c.memoryUsage - c.replacedSize p t) e.estimatedSizeBytes := by
  have hsub : ∀ old, c.entry p t = some old →
      fetchSub c.memoryUsage old.estimatedSizeBytes = c.memoryUsage - old.estimatedSizeBytes := fun old hold =>
    fetchSub_of_le (h.total ▸ entrySize_le_total hold) h.fits
  rw [replacedSize]
  unfold insertEntry
  dsimp only
  cases hp : c.projects.lookup p with
  | none => rw [entry, hp]; rfl
  | some projectCache =>
    rw [entry_eq hp] at hsub ⊢
    rw [Option.getD_some]
    cases ht : projectCache.tables.lookup t with
    | none => rfl
    | some old => exact congrArg (fetchAdd · _) (hsub old ht)

theorem exact_insertEntry (h : c.Exact) (hfits : c.memoryUsage - c.replacedSize p t + e.estimatedSizeBytes < 2 ^ 64) :
    (c.insertEntry now p t e).Exact := by
  have husage := (memoryUsage_insertEntry now e h).trans (fetchAdd_of_lt hfits)
  refine ⟨?_, husage ▸ hfits⟩
  have hnew : (c.insertEntry now p t e).total = e.estimatedSizeBytes +
      Dict.total CachedIndex.estimatedSizeBytes ((c.tablesOf p).erase t) +
        Dict.total ProjectCache.size (c.projects.erase p) := by
    rw [total, projects_insertEntry]
    rfl
  have hold := total_tablesOf (c := c) (p := p)
  rw [husage, hnew, h.total, hold, replacedSize, entry_tablesOf]
  cases ht : (c.tablesOf p).lookup t with
  | none =>
    rw [Dict.erase_of_lookup_none ht, Option.elim_none]
    omega
  | some old =>
    rw [Dict.total_erase ht, Option.elim_some]
    omega

theorem Exact.remove (h : c.Exact) {projects : Dict Uuid (ProjectCache α)} {n : Nat}
    (hn : Dict.total ProjectCache.size projects + n = c.total) :
    Exact { c with projects, memoryUsage := fetchSub c.memoryUsage n } := by
  have hle : n ≤ c.memoryUsage := by rw [h.total, ← hn]; exact Nat.le_add_left _ _
  have husage := fetchSub_of_le hle h.fits
  refine ⟨?_, husage.symm ▸ (Nat.sub_le _ _).trans_lt h.fits⟩
  show fetchSub c.memoryUsage n = Dict.total ProjectCache.size projects
  rw [husage, h.total, ← hn, Nat.add_sub_cancel]

theorem total_erase_table (hp : c.projects.lookup p = some projectCache) (ht : projectCache.tables.lookup t = some e) :
    Dict.total ProjectCache.size
        (c.projects.insert p { projectCache with tables := projectCache.tables.erase t }) + e.estimatedSizeBytes =
      c.total := by
  have hnew := total_insert_project { projectCache with tables := projectCache.tables.erase t } hp
  have hsize : ProjectCache.size projectCache = e.estimatedSizeBytes + _ :=
    size_erase_table ht projectCache.lastAccessedNanos projectCache.lastAccessedNanos
  omega

theorem exact_invalidateTable (h : c.Exact) : (c.invalidateTable p t).Exact := by
  unfold invalidateTable
  cases hp : c.projects.lookup p with
  | none => exact h
  | some projectCache =>
    dsimp only
    cases ht : projectCache.tables.lookup t with
    | none => exact h
    | some old => exact h.remove (total_erase_table hp ht)

theorem exact_invalidateProject (h : c.Exact) : (c.invalidateProject p).Exact := by
  unfold invalidateProject
  cases hp : c.projects.lookup p with
  | none => exact h
  | some projectCache =>
    have hold : c.total = _ := Dict.total_erase hp
    exact h.remove (hold ▸ Nat.add_comm _ _)

theorem exact_evictEntry (h : c.Exact) (hsize : ∀ e, c.entry p t = some e → e.estimatedSizeBytes = size) :
    (c.evictEntry p t size).Exact := by
  unfold evictEntry
  cases hp : c.projects.lookup p with
  | none => exact h
  | some projectCache =>
    rw [entry_eq hp] at hsize
    dsimp only
    cases ht : projectCache.tables.lookup t with
    | none =>
      have hsame := total_insert_project projectCache hp
      rw [Dict.erase_of_lookup_none ht]
      split
      · next hempty =>
        have hzero : ProjectCache.size projectCache = 0 := by
          rw [ProjectCache.size, Dict.values, hempty]
          rfl
        have hold : c.total = _ := Dict.total_erase hp
        refine ⟨?_, h.fits⟩
        show c.memoryUsage = _
        rw [h.total, hold, hzero, Nat.zero_add]
        rfl
      · refine ⟨?_, h.fits⟩
        show c.memoryUsage = Dict.total ProjectCache.size (c.projects.insert p projectCache)
        rw [h.total]
        omega
    | some old =>
      obtain rfl := hsize old ht
      have hnew := total_erase_table hp ht
      rw [Option.isSome_some, if_pos rfl]
      split
      · next hempty =>
        refine h.remove ?_
        rw [← hnew, Dict.total_insert, ProjectCache.size, Dict.values, hempty]
        exact (Nat.zero_add _).symm ▸ rfl
      · exact h.remove hnew

theorem total_touchEntry {cfg : SkipIndexCacheConfig} {generation : Nat} {tables : Dict String (CachedIndex α)} :
    Dict.total CachedIndex.estimatedSizeBytes (touchEntry cfg generation now t tables) =
        Dict.total CachedIndex.estimatedSizeBytes tables ∧
      Dict.size (touchEntry cfg generation now t tables) = Dict.size tables := by
  unfold touchEntry
  cases ht : tables.lookup t with
  | none => exact ⟨rfl, rfl⟩
  | some entry =>
    dsimp only
    split
    · rw [Dict.total_erase ht, Dict.size_erase ht]
      exact ⟨rfl, rfl⟩
    · exact ⟨rfl, rfl⟩

theorem total_touch {cfg : SkipIndexCacheConfig} : (c.touch cfg now p t).total = c.total := by
  unfold touch
  cases hp : c.projects.lookup p with
  | none => rfl
  | some projectCache =>
    have hsame := total_insert_project
      ⟨touchEntry cfg c.generation now t projectCache.tables, now⟩ hp
    have hsize : ProjectCache.size ⟨touchEntry cfg c.generation now t projectCache.tables, now⟩ =
      ProjectCache.size projectCache := total_touchEntry.1
    show Dict.total ProjectCache.size (c.projects.insert p _) = c.total
    omega

theorem exact_touch {cfg : SkipIndexCacheConfig} (h : c.Exact) : (c.touch cfg now p t).Exact := by
  have husage : (c.touch cfg now p t).memoryUsage = c.memoryUsage := by
    unfold touch
    split <;> rfl
  exact ⟨husage.trans (h.total.trans total_touch.symm), husage ▸ h.fits⟩

theorem total_invalidateTable_le : (c.invalidateTable p t).total ≤ c.total := by
  unfold invalidateTable
  cases hp : c.projects.lookup p with
  | none => exact Nat.le_refl _
  | some projectCache =>
    dsimp only
    cases ht : projectCache.tables.lookup t with
    | none => exact Nat.le_refl _
    | some old => exact (Nat.le_add_right _ _).trans (total_erase_table hp ht).le

/-- The counts of `c'` are within those of `c`. -/
structure NoMore (c c' : SkipIndexCache α) : Prop where
  total : c'.total ≤ c.total
  size : Dict.size c'.projects ≤ Dict.size c.projects
  tables : ∀ p projectCache', c'.projects.lookup p = some projectCache' →
    ∃ projectCache, c.projects.lookup p = some projectCache ∧
      Dict.size projectCache'.tables ≤ Dict.size projectCache.tables

theorem noMore_touch {cfg : SkipIndexCacheConfig} : NoMore c (c.touch cfg now p t) := by
  refine ⟨total_touch.le, ?_, ?_⟩
  · unfold touch
    cases hp : c.projects.lookup p with
    | none => exact Nat.le_refl _
    | some projectCache => exact (Dict.size_insert.trans (Dict.size_erase hp).symm).le
  · unfold touch
    cases hp : c.projects.lookup p with
    | none => exact fun p' projectCache' hp' => ⟨projectCache', hp', Nat.le_refl _⟩
    | some projectCache =>
      intro p' projectCache' hp'
      dsimp only at hp'
      rw [Dict.lookup_insert'] at hp'
      split at hp'
      · next heq =>
        cases hp'
        exact ⟨projectCache, heq ▸ hp, total_touchEntry.2.le⟩
      · exact ⟨projectCache', hp', Nat.le_refl _⟩

/-! ### What eviction leaves -/

/-- Nothing is added, and no project or table count grows. -/
structure Shrinks (c c' : SkipIndexCache α) : Prop where
  entry : ∀ p t e, c'.entry p t = some e → c.entry p t = some e
  size : Dict.size c'.projects ≤ Dict.size c.projects
  tables : ∀ p projectCache', c'.projects.lookup p = some projectCache' →
    ∃ projectCache, c.projects.lookup p = some projectCache ∧
      Dict.size projectCache'.tables ≤ Dict.size projectCache.tables

theorem Shrinks.refl (c : SkipIndexCache α) : Shrinks c c :=
  ⟨fun _ _ _ h => h, Nat.le_refl _, fun _ projectCache h => ⟨projectCache, h, Nat.le_refl _⟩⟩

theorem Shrinks.trans (h : Shrinks c c') (h' : Shrinks c' c'') : Shrinks c c'' := by
  refine ⟨fun p t e he => h.entry p t e (h'.entry p t e he), h'.size.trans h.size, fun p projectCache'' hp => ?_⟩
  obtain ⟨projectCache', hp', hle'⟩ := h'.tables p projectCache'' hp
  obtain ⟨projectCache, hp, hle⟩ := h.tables p projectCache' hp'
  exact ⟨projectCache, hp, hle'.trans hle⟩

theorem shrinks_erase {memoryUsage : Nat} : Shrinks c { c with projects := c.projects.erase p, memoryUsage } := by
  refine ⟨fun p' t e he => ?_, Dict.size_erase_le, fun p' projectCache' hp' => ⟨projectCache', ?_, Nat.le_refl _⟩⟩
  · rw [SkipIndexCache.entry, Dict.lookup_erase'] at he
    split at he
    · cases he
    · exact he
  · rw [Dict.lookup_erase'] at hp'
    split at hp'
    · cases hp'
    · exact hp'

theorem shrinks_evictProject : Shrinks c (c.evictProject p) := by
  unfold evictProject invalidateProject
  split
  · exact shrinks_erase
  · exact Shrinks.refl c

theorem shrinks_evictEntry (c : SkipIndexCache α) (p : Uuid) (t : String) (size : Nat) :
    Shrinks c (c.evictEntry p t size) := by
  refine ⟨fun p' t' e he => entry_evictEntry he, ?_, ?_⟩
  · unfold evictEntry
    cases hp : c.projects.lookup p with
    | none => exact Nat.le_refl _
    | some projectCache =>
      dsimp only
      split
      · exact Dict.size_erase_le
      · rw [Dict.size_insert, Dict.size_erase hp]
  · unfold evictEntry
    cases hp : c.projects.lookup p with
    | none => exact (Shrinks.refl c).tables
    | some projectCache =>
      dsimp only
      split
      · exact shrinks_erase.tables
      · intro p' projectCache' hp'
        rw [Dict.lookup_insert'] at hp'
        split at hp'
        · next heq =>
          cases hp'
          exact ⟨projectCache, heq ▸ hp, Dict.size_erase_le⟩
        · exact ⟨projectCache', hp', Nat.le_refl _⟩

theorem entry_evictEntry_self : (c.evictEntry p t size).entry p t = none := by
  unfold evictEntry
  cases hp : c.projects.lookup p with
  | none =>
    dsimp only
    rw [entry, hp, Option.bind_none]
  | some projectCache =>
    dsimp only
    split
    · rw [entry, Dict.lookup_erase', if_pos rfl, Option.bind_none]
    · rw [entry, Dict.lookup_insert', if_pos rfl, Option.bind_some, Dict.lookup_erase', if_pos rfl]

/-- What an eviction loop is to do: keep the counter exact, never below zero, and only remove. -/
structure Evicts (c : SkipIndexCache α) (evicted : SkipIndexCache α × List (Nat × Nat)) : Prop where
  exact : evicted.1.Exact
  shrinks : Shrinks c evicted.1
  subtracted : ∀ sub ∈ evicted.2, sub.2 ≤ sub.1

theorem Evicts.refl (h : c.Exact) : Evicts c (c, []) := ⟨h, Shrinks.refl c, fun _ hsub => nomatch hsub⟩

/-- The candidates carry the sizes of the entries that are still there. -/
def SizesKnown (c : SkipIndexCache α) (l : List EvictionCandidate) : Prop :=
  ∀ cand ∈ l, ∀ e, c.entry cand.projectId cand.tableName = some e → e.estimatedSizeBytes = cand.size

theorem evictCandidates_spec (stop : Nat) {l : List EvictionCandidate} (h : c.Exact) (hsizes : c.SizesKnown l) :
    Evicts c (evictCandidates stop l c) ∧ ((evictCandidates stop l c).1.memoryUsage ≤ stop ∨
      ∀ cand ∈ l, (evictCandidates stop l c).1.entry cand.projectId cand.tableName = none) := by
  induction l generalizing c with
  | nil => exact ⟨Evicts.refl h, Or.inr fun _ hmem => nomatch hmem⟩
  | cons cand rest ih =>
    rw [evictCandidates]
    by_cases hstop : c.memoryUsage ≤ stop
    · rw [if_pos hstop]
      exact ⟨Evicts.refl h, Or.inl hstop⟩
    · rw [if_neg hstop]
      have hsize := hsizes cand List.mem_cons_self
      have hstep := shrinks_evictEntry c cand.projectId cand.tableName cand.size
      have hrest : SizesKnown (c.evictEntry cand.projectId cand.tableName cand.size) rest := fun x hx e he =>
        hsizes x (List.mem_cons_of_mem _ hx) e (hstep.entry _ _ e he)
      obtain ⟨hnext, hdone⟩ := ih (exact_evictEntry h hsize) hrest
      have hgone : (evictCandidates stop rest (c.evictEntry cand.projectId cand.tableName cand.size)).1.memoryUsage ≤
            stop ∨ ∀ x ∈ cand :: rest,
          (evictCandidates stop rest (c.evictEntry cand.projectId cand.tableName cand.size)).1.entry x.projectId
            x.tableName = none := by
        refine hdone.imp id fun hnone x hx => ?_
        rcases List.mem_cons.mp hx with rfl | hx
        · refine Option.eq_none_iff_forall_ne_some.mpr fun e he => ?_
          have hself := hnext.shrinks.entry _ _ e he
          rw [entry_evictEntry_self] at hself
          cases hself
        · exact hnone x hx
      dsimp only
      split
      · next hsome =>
        obtain ⟨e, he⟩ := Option.isSome_iff_exists.mp hsome
        refine ⟨⟨hnext.exact, hstep.trans hnext.shrinks, fun sub hsub => ?_⟩, hgone⟩
        rcases List.mem_cons.mp hsub with rfl | hsub
        · exact hsize e he ▸ h.total ▸ entrySize_le_total he
        · exact hnext.subtracted sub hsub
      · exact ⟨⟨hnext.exact, hstep.trans hnext.shrinks, hnext.subtracted⟩, hgone⟩

theorem evictProjects_spec {l : List Uuid} (h : c.Exact) : Evicts c (evictProjects l c) := by
  induction l generalizing c with
  | nil => exact Evicts.refl h
  | cons p rest ih =>
    have hnext := ih (exact_invalidateProject h (p := p))
    have hstep := shrinks_evictProject (c := c) (p := p)
    rw [evictProjects]
    split
    · next projectCache hp =>
      refine ⟨hnext.exact, hstep.trans hnext.shrinks, fun sub hsub => ?_⟩
      rcases List.mem_cons.mp hsub with rfl | hsub
      · exact h.total ▸ size_le_total hp
      · exact hnext.subtracted sub hsub
    · exact ⟨hnext.exact, hstep.trans hnext.shrinks, hnext.subtracted⟩

theorem total_evictProject_le : (c.evictProject p).total ≤ c.total := by
  unfold evictProject invalidateProject
  split
  · exact Dict.total_erase_le
  · exact Nat.le_refl _

theorem total_evictProjects_le {l : List Uuid} : (evictProjects l c).1.total ≤ c.total := by
  induction l generalizing c with
  | nil => exact Nat.le_refl _
  | cons p rest ih =>
    have hnext := (ih (c := c.evictProject p)).trans total_evictProject_le
    rw [evictProjects]
    split <;> exact hnext

theorem size_evictProjects {l : List Uuid} (hnd : l.Nodup) (hl : ∀ p ∈ l, (c.projects.lookup p).isSome) :
    Dict.size (evictProjects l c).1.projects + l.length = Dict.size c.projects := by
  induction l generalizing c with
  | nil => rfl
  | cons p rest ih =>
    obtain ⟨hp, hnd⟩ := List.nodup_cons.mp hnd
    obtain ⟨projectCache, hlook⟩ := Option.isSome_iff_exists.mp (hl p List.mem_cons_self)
    have hprojects : (c.evictProject p).projects = c.projects.erase p := by
      rw [evictProject, invalidateProject, hlook]
    have hrest : ∀ q ∈ rest, ((c.evictProject p).projects.lookup q).isSome := by
      intro q hq
      have hne : q ≠ p := fun heq => hp (heq ▸ hq)
      rw [hprojects, Dict.lookup_erase', if_neg hne]
      exact hl q (List.mem_cons_of_mem _ hq)
    have hnext := ih hnd hrest
    rw [evictProjects, hlook, List.length_cons]
    rw [hprojects] at hnext
    rw [Dict.size_erase hlook, ← hnext]
    rfl

theorem mem_candidates {cand : EvictionCandidate} : cand ∈ c.candidates ↔
    ∃ e, c.entry cand.projectId cand.tableName = some e ∧ e.lastAccessedNanos = cand.lastAccessed ∧
      e.estimatedSizeBytes = cand.size := by
  rw [candidates, List.mem_flatMap]
  constructor
  · rintro ⟨⟨p, projectCache⟩, hp, hcand⟩
    obtain ⟨⟨t, e⟩, ht, rfl⟩ := List.mem_map.mp hcand
    exact ⟨e, (entry_eq (Dict.mem_pairs.mp hp)).trans (Dict.mem_pairs.mp ht), rfl, rfl⟩
  · rintro ⟨e, he, haccessed, hsize⟩
    obtain ⟨projectCache, hp, ht⟩ := Option.bind_eq_some_iff.mp he
    refine ⟨(cand.projectId, projectCache), Dict.mem_pairs.mpr hp, List.mem_map.mpr
      ⟨(cand.tableName, e), Dict.mem_pairs.mpr ht, ?_⟩⟩
    rw [haccessed, hsize]

theorem sizesKnown_candidates {l : List EvictionCandidate} (hl : l.Perm c.candidates) : c.SizesKnown l := by
  intro cand hmem e he
  obtain ⟨e', he', -, hsize⟩ := mem_candidates.mp (hl.mem_iff.mp hmem)
  cases he.symm.trans he'
  exact hsize

theorem total_of_all_gone {l : List EvictionCandidate} (hl : l.Perm c.candidates) (h : Shrinks c c')
    (hgone : ∀ cand ∈ l, c'.entry cand.projectId cand.tableName = none) : c'.total = 0 := by
  refine total_eq_zero fun p t => Option.eq_none_iff_forall_ne_some.mpr fun e he => ?_
  have hmem : (⟨p, t, e.lastAccessedNanos, e.estimatedSizeBytes⟩ : EvictionCandidate) ∈ c.candidates :=
    mem_candidates.mpr ⟨e, h.entry p t e he, rfl, rfl⟩
  cases he.symm.trans (hgone _ (hl.mem_iff.mpr hmem))

theorem projectAccess_keys : c.projectAccess.map Prod.fst = c.projects.keys := by
  rw [projectAccess, List.map_map, ← Dict.pairs_keys]
  rfl

theorem evictTail_spec {cfg : SkipIndexCacheConfig} {first : SkipIndexCache α × List (Nat × Nat)}
    {projects : List (Uuid × Nat)} (hfirst : Evicts c first) (hmemory : first.1.memoryUsage ≤ cfg.maxMemoryBytes)
    (hperm : projects.Perm first.1.projectAccess) :
    let last := evictProjects
      ((projects.take (Dict.size first.1.projects - target cfg.maxProjects)).map Prod.fst) first.1
    Evicts c (last.1, first.2 ++ last.2) ∧ last.1.memoryUsage ≤ cfg.maxMemoryBytes ∧
      Dict.size last.1.projects ≤ cfg.maxProjects := by
  intro last
  have hlast : Evicts first.1 last := evictProjects_spec hfirst.exact
  have hkeys : (projects.map Prod.fst).Perm first.1.projects.keys := projectAccess_keys ▸ hperm.map Prod.fst
  have hsub := (List.take_sublist (Dict.size first.1.projects - target cfg.maxProjects) projects).map Prod.fst
  have hcached : ∀ p ∈ (projects.take (Dict.size first.1.projects - target cfg.maxProjects)).map Prod.fst,
      (first.1.projects.lookup p).isSome := fun p hp =>
    AList.lookup_isSome.mpr (AList.mem_keys.mpr (hkeys.mem_iff.mp (hsub.subset hp)))
  have hsize : Dict.size last.1.projects + _ = _ :=
    size_evictProjects (hsub.nodup (hkeys.nodup_iff.mpr first.1.projects.keys_nodup)) hcached
  have hlength : projects.length = Dict.size first.1.projects := by
    rw [← Dict.length_keys, ← hkeys.length_eq, List.length_map]
  rw [List.length_map, List.length_take, hlength] at hsize
  have htarget := target_le cfg.maxProjects
  refine ⟨⟨hlast.exact, hfirst.shrinks.trans hlast.shrinks, fun sub hsub => ?_⟩, ?_, by omega⟩
  · exact (List.mem_append.mp hsub).elim (hfirst.subtracted sub) (hlast.subtracted sub)
  · have hle : last.1.total ≤ first.1.total := total_evictProjects_le
    rw [hlast.exact.total]
    exact hle.trans (hfirst.exact.total ▸ hmemory)

theorem evictInOrder_spec {cfg : SkipIndexCacheConfig} {entries : List EvictionCandidate}
    {projects : List (Uuid × Nat)} {evicted : SkipIndexCache α × List (Nat × Nat)} (h : c.Exact)
    (hevicted : evictInOrder cfg entries projects c = some evicted) :
    Evicts c evicted ∧ evicted.1.memoryUsage ≤ cfg.maxMemoryBytes ∧ Dict.size evicted.1.projects ≤ cfg.maxProjects := by
  unfold evictInOrder at hevicted
  split at hevicted
  · next hwithin =>
    cases hevicted
    exact ⟨Evicts.refl h, hwithin⟩
  · split at hevicted
    · next hentries =>
      obtain ⟨hfirst, hdone⟩ := evictCandidates_spec (target cfg.maxMemoryBytes) h
        (sizesKnown_candidates hentries.1)
      have hmemory : (evictCandidates (target cfg.maxMemoryBytes) entries c).1.memoryUsage ≤ cfg.maxMemoryBytes := by
        rcases hdone with hstop | hgone
        · exact hstop.trans (target_le _)
        · rw [hfirst.exact.total, total_of_all_gone hentries.1 hfirst.shrinks hgone]
          exact Nat.zero_le _
      dsimp only at hevicted
      split at hevicted
      · next hcount =>
        cases hevicted
        exact ⟨hfirst, hmemory, hcount⟩
      · split at hevicted
        · next hprojects =>
          cases hevicted
          exact evictTail_spec hfirst hmemory hprojects.1
        · cases hevicted
    · cases hevicted

end SkipIndexCache

namespace CacheHistory
open SkipIndexCache
variable {α : Type} {cfg : SkipIndexCacheConfig} {s s' : CacheHistory α} {op : CacheOp α}

/-! ### Histories -/

theorem withinLimits_of_noMore (h : s.WithinLimits cfg) (hexact : s'.cache.Exact) (hless : NoMore s.cache s'.cache)
    (hsub : ∀ sub ∈ s'.subtracted, sub.2 ≤ sub.1) : s'.WithinLimits cfg := by
  refine ⟨hexact.total, hsub, ?_, hless.size.trans h.projects, fun p projectCache' hp' => ?_⟩
  · rw [hexact.total]
    exact hless.total.trans (h.exact ▸ h.memory)
  · obtain ⟨projectCache, hp, hcount⟩ := hless.tables p projectCache' hp'
    exact hcount.trans (h.tables p projectCache hp)

theorem entrySubtracted_le {c : SkipIndexCache α} (h : c.Exact) {p : Uuid} {t : String} :
    ∀ sub ∈ entrySubtracted c p t, sub.2 ≤ sub.1 := by
  intro sub hsub
  rw [entrySubtracted, Option.mem_toList] at hsub
  obtain ⟨e, he, rfl⟩ := Option.map_eq_some_iff.mp hsub
  exact h.total ▸ entrySize_le_total he

theorem shrinks_invalidateTable {c : SkipIndexCache α} {p : Uuid} {t : String} : Shrinks c (c.invalidateTable p t) := by
  refine ⟨fun p' t' e he => ?_, ?_, ?_⟩
  · rw [entry_invalidateTable] at he
    split at he
    · cases he
    · exact he
  · unfold invalidateTable
    cases hp : c.projects.lookup p with
    | none => exact Nat.le_refl _
    | some projectCache =>
      dsimp only
      split
      · exact (Dict.size_insert.trans (Dict.size_erase hp).symm).le
      · exact Nat.le_refl _
  · unfold invalidateTable
    cases hp : c.projects.lookup p with
    | none => exact (Shrinks.refl c).tables
    | some projectCache =>
      dsimp only
      split
      · intro p' projectCache' hp'
        rw [Dict.lookup_insert'] at hp'
        split at hp'
        · next heq =>
          cases hp'
          exact ⟨projectCache, heq ▸ hp, Dict.size_erase_le⟩
        · exact ⟨projectCache', hp', Nat.le_refl _⟩
      · exact (Shrinks.refl c).tables

theorem tables_insertEntry {c : SkipIndexCache α} {now : Nat} {p : Uuid} {t : String} {e : CachedIndex α} {limit : Nat}
    (htables : ∀ p projectCache, c.projects.lookup p = some projectCache → Dict.size projectCache.tables ≤ limit)
    (hroom : (c.entry p t).isSome ∨ c.tableCount p < limit) :
    ∀ p' projectCache', (c.insertEntry now p t e).projects.lookup p' = some projectCache' →
      Dict.size projectCache'.tables ≤ limit := by
  have hcount : c.tableCount p = Dict.size (c.tablesOf p) := by
    rw [tableCount, tablesOf]
    cases c.projects.lookup p <;> rfl
  have hle : Dict.size (c.tablesOf p) ≤ limit := by
    rw [tablesOf]
    cases hp : c.projects.lookup p with
    | none => exact Nat.zero_le _
    | some projectCache => exact htables p projectCache hp
  intro p' projectCache' hp'
  rw [projects_insertEntry, Dict.lookup_insert'] at hp'
  split at hp'
  · cases hp'
    show Dict.size ((c.tablesOf p).insert t e) ≤ limit
    rw [Dict.size_insert]
    rw [entry_tablesOf, hcount] at hroom
    cases ht : (c.tablesOf p).lookup t with
    | none =>
      rw [ht] at hroom
      rw [Dict.erase_of_lookup_none ht]
      exact hroom.resolve_left (fun h => nomatch h)
    | some old => exact Dict.size_erase ht ▸ hle
  · exact htables p' projectCache' hp'

theorem withinLimits_step (h : s.WithinLimits cfg ∧ s.cache.Exact) (hroom : s.HasRoom cfg op)
    (hstep : step cfg s op = some s') : s'.WithinLimits cfg ∧ s'.cache.Exact := by
  obtain ⟨hs, hexact⟩ := h
  cases op with
  | put now p t index size entries projects =>
    obtain ⟨evicted, hevicted, rfl⟩ := Option.map_eq_some_iff.mp hstep
    have hinserted : (s.cache.insertEntry now p t (CachedIndex.new now index s.cache.generation size)).Exact :=
      exact_insertEntry hexact hroom.2
    obtain ⟨hdone, hmemory, hprojects⟩ := evictInOrder_spec hinserted hevicted
    refine ⟨⟨hdone.exact.total, fun sub hsub => ?_, hmemory, hprojects, fun p' projectCache' hp' => ?_⟩, hdone.exact⟩
    · exact (List.mem_append.mp hsub).elim (entrySubtracted_le hexact sub) (hdone.subtracted sub)
    · obtain ⟨projectCache, hp, hcount⟩ := hdone.shrinks.tables p' projectCache' hp'
      exact hcount.trans (tables_insertEntry hs.tables hroom.1 p' projectCache hp)
  | get now p t =>
    cases hstep
    exact ⟨⟨hs.exact, fun _ hsub => (nomatch hsub), hs.memory, hs.projects, hs.tables⟩, hexact⟩
  | getAndTouch now p t =>
    cases hstep
    have hnew : (s.cache.touch cfg now p t).Exact := exact_touch hexact
    exact ⟨withinLimits_of_noMore hs hnew noMore_touch fun _ hsub => (nomatch hsub), hnew⟩
  | invalidateTable p t =>
    cases hstep
    have hnew := exact_invalidateTable hexact (p := p) (t := t)
    have hshrinks := shrinks_invalidateTable (c := s.cache) (p := p) (t := t)
    have hless : NoMore s.cache (s.cache.invalidateTable p t) :=
      ⟨total_invalidateTable_le, hshrinks.size, hshrinks.tables⟩
    exact ⟨withinLimits_of_noMore hs hnew hless (entrySubtracted_le hexact), hnew⟩
  | invalidateProject p =>
    cases hstep
    have hnew := exact_invalidateProject hexact (p := p)
    have hshrinks := shrinks_evictProject (c := s.cache) (p := p)
    have hless : NoMore s.cache (s.cache.invalidateProject p) :=
      ⟨total_evictProject_le, hshrinks.size, hshrinks.tables⟩
    exact ⟨withinLimits_of_noMore hs hnew hless (evictProjects_spec hexact).subtracted, hnew⟩
  | incrementGeneration =>
    cases hstep
    exact ⟨⟨hs.exact, fun _ hsub => (nomatch hsub), hs.memory, hs.projects, hs.tables⟩, hexact.total, hexact.fits⟩
  | clear =>
    cases hstep
    exact ⟨⟨rfl, fun _ hsub => (nomatch hsub), Nat.zero_le _, Nat.zero_le _, fun _ _ hp => (nomatch hp)⟩, rfl,
      (by decide : 0 < 2 ^ 64)⟩

theorem withinLimits_new : (new : CacheHistory α).WithinLimits cfg ∧ (new : CacheHistory α).cache.Exact :=
  ⟨⟨rfl, fun _ hsub => (nomatch hsub), Nat.zero_le _, Nat.zero_le _, fun _ _ hp => (nomatch hp)⟩, rfl,
    (by decide : 0 < 2 ^ 64)⟩

theorem withinLimits_of_hasRoom (cfg : SkipIndexCacheConfig) (ops : List (CacheOp α))
    (hroom : Meets (step cfg) (HasRoom cfg) new ops) : Always (step cfg) (WithinLimits cfg) new ops :=
  (Always.of_step (fun _ _ _ => withinLimits_step) withinLimits_new hroom).imp fun _ h => h.1

def twoTables : List (CacheOp Unit) := [.put 1 7 "charges" () 10 [] [], .put 2 7 "invoices" () 20 [] []]

theorem withinLimits_of_hasRoom_twoTables :
    Always (step (α := Unit) .default) (WithinLimits .default) new twoTables := by
  refine withinLimits_of_hasRoom .default twoTables ?_
  refine Meets.cons rfl ⟨Or.inr (by decide), by decide⟩ ?_
  exact Meets.cons rfl ⟨Or.inr (by decide), by decide⟩ trivial

/-- A limit of one table a project is passed by the second. -/
theorem tableLimit_unchecked : ¬Always (step (α := Unit) { SkipIndexCacheConfig.default with maxTablesPerProject := 1 })
    (WithinLimits { SkipIndexCacheConfig.default with maxTablesPerProject := 1 }) new twoTables := by
  intro h
  have hlast := (h.of_exec rfl).tables 7 _ rfl
  exact absurd hlast (by decide)

end CacheHistory

end Reiver.Pond
