import Reiver.Lib.Dict
import Reiver.Lib.Run

/-! # The result cache

The model of `query/cache.rs`: cached results in Redis, each under the generation of its project, and an in-memory copy
of the generations. Requests and syncs of any number take their steps in any order. The data of a project is known by
the number of changes made to it, and a result by the number that its query saw. -/

namespace Reiver.Pond

def generationCacheTtlSecs : Nat := 10

structure QueryCacheConfig where
  ttlSecs : Nat := 3600
  maxResultSizeBytes : Nat := 10485760
  enabled : Bool := true

/-- Where a call of `get_generation` stands: it looks into memory, then reads Redis, then keeps what it has read. -/
inductive GenerationCall where
  | started
  | absent
  | fetched (generation : Nat)
deriving DecidableEq

inductive RequestPhase where
  | getting (call : GenerationCall)
  | looking (generation : Nat)
  | missed
  | computed (version size : Nat)
  | setting (version size : Nat) (call : GenerationCall)
  | writing (version expectedGen : Nat)
  | finished
deriving DecidableEq

/-- The generation that was read and is about to be kept. -/
def RequestPhase.fetched : RequestPhase → Option Nat
  | getting (.fetched gen) => some gen
  | setting _ _ (.fetched gen) => some gen
  | _ => none

/-- The result that is about to be written, and the generation expected. -/
def RequestPhase.written : RequestPhase → Option (Nat × Nat)
  | writing version expectedGen => some (version, expectedGen)
  | _ => none

structure QueryRequest where
  projectId : Uuid
  sql : String
  /-- The newest change whose invalidation had completed when `get` was called. -/
  since : Nat
  phase : RequestPhase

structure ProjectSync where
  projectId : Uuid
  version : Nat
  incremented : Bool

structure CachedQueryResult where
  version : Nat
  expiresAt : Nat

/-- A result that `get` returned. -/
structure CacheAnswer where
  since : Nat
  version : Nat
deriving DecidableEq

structure QueryCache where
  /-- The time in milliseconds. -/
  now : Nat := 0
  generations : Dict Uuid Nat := ∅
  entries : Dict (Uuid × Nat × String) CachedQueryResult := ∅
  generationCache : Dict Uuid (Nat × Nat) := ∅
  data : Uuid → Nat := fun _ => 0
  requests : Nat → Option QueryRequest := fun _ => none
  syncs : Nat → Option ProjectSync := fun _ => none
  /-- For each generation of a project, the change of the sync that made it. -/
  increments : Uuid → List Nat := fun _ => []
  /-- The newest change whose invalidation has completed. -/
  invalidated : Uuid → Nat := fun _ => 0
  answers : List CacheAnswer := []

inductive ResultCacheAction where
  | wait (milliseconds : Nat)
  | get (request : Nat) (projectId : Uuid) (sql : String)
  | generation (request : Nat)
  | lookup (request : Nat)
  | fail (request : Nat)
  | execute (request size : Nat)
  | set (request : Nat) (preserialized : Bool)
  | write (request : Nat)
  | change (sync : Nat) (projectId : Uuid)
  | increment (sync : Nat)
  | remove (sync : Nat)
  | evict (projectId : Uuid)
deriving DecidableEq

namespace QueryCache

/-- The next step of a call: it goes on or returns the generation. -/
def getGeneration (s : QueryCache) (projectId : Uuid) : GenerationCall → QueryCache × (GenerationCall ⊕ Nat)
  | .started =>
    match s.generationCache.lookup projectId with
    | some (gen, ts) => (s, if (s.now - ts) / 1000 < generationCacheTtlSecs then .inr gen else .inl .absent)
    | none => (s, .inl .absent)
  | .absent => (s, .inl (.fetched ((s.generations.lookup projectId).getD 0)))
  | .fetched gen => ({ s with generationCache := s.generationCache.insert projectId (gen, s.now) }, .inr gen)

def setPhase (s : QueryCache) (i : Nat) (request : QueryRequest) (phase : RequestPhase) : QueryCache :=
  { s with requests := Function.update s.requests i (some { request with phase }) }

def get (config : QueryCacheConfig) (s : QueryCache) (i : Nat) (projectId : Uuid) (sql : String) : QueryCache :=
  s.setPhase i { projectId, sql, since := s.invalidated projectId, phase := .missed }
    (if config.enabled then .getting .started else .missed)

def lookup (s : QueryCache) (i : Nat) (request : QueryRequest) (generation : Nat) : QueryCache :=
  match s.entries.lookup (request.projectId, generation, request.sql) with
  | some entry =>
    if s.now < entry.expiresAt then
      { s.setPhase i request .finished with
        answers := s.answers ++ [{ since := request.since, version := entry.version }] }
    else s.setPhase i request .missed
  | none => s.setPhase i request .missed

/-- `set_preserialized` checks the size before it asks for the generation, `set` only then. -/
def set (config : QueryCacheConfig) (s : QueryCache) (i : Nat) (request : QueryRequest) (version size : Nat)
    (preserialized : Bool) : QueryCache :=
  if !config.enabled || (preserialized && config.maxResultSizeBytes < size) then s.setPhase i request .finished
  else s.setPhase i request (.setting version size .started)

/-- The script: the result is written under the current generation, if that is still the one read. -/
def write (config : QueryCacheConfig) (s : QueryCache) (i : Nat) (request : QueryRequest) (version expectedGen : Nat) :
    QueryCache :=
  let gen := (s.generations.lookup request.projectId).getD 0
  if gen = expectedGen then
    { s.setPhase i request .finished with
      entries := s.entries.insert (request.projectId, gen, request.sql)
        { version, expiresAt := s.now + config.ttlSecs * 1000 } }
  else s.setPhase i request .finished

def change (s : QueryCache) (i : Nat) (projectId : Uuid) : QueryCache :=
  let version := s.data projectId + 1
  { s with
    data := Function.update s.data projectId version
    syncs := Function.update s.syncs i (some { projectId, version, incremented := false }) }

/-- A change whose invalidation has completed. -/
def complete (s : QueryCache) (i : Nat) (sync : ProjectSync) : QueryCache :=
  { s with
    invalidated := Function.update s.invalidated sync.projectId (max (s.invalidated sync.projectId) sync.version)
    syncs := Function.update s.syncs i none }

def increment (s : QueryCache) (i : Nat) (sync : ProjectSync) : QueryCache :=
  { s with
    generations := s.generations.insert sync.projectId ((s.generations.lookup sync.projectId).getD 0 + 1)
    increments := Function.update s.increments sync.projectId (s.increments sync.projectId ++ [sync.version])
    syncs := Function.update s.syncs i (some { sync with incremented := true }) }

def remove (s : QueryCache) (i : Nat) (sync : ProjectSync) : QueryCache :=
  { s.complete i sync with generationCache := s.generationCache.erase sync.projectId }

def stepRequest (config : QueryCacheConfig) (s : QueryCache) (i : Nat) (request : QueryRequest) :
    ResultCacheAction → Option QueryCache
  | .generation _ =>
    match request.phase with
    | .getting call =>
      let r := s.getGeneration request.projectId call
      some (r.1.setPhase i request (r.2.elim .getting .looking))
    | .setting version size call =>
      let r := s.getGeneration request.projectId call
      some (r.1.setPhase i request (r.2.elim (.setting version size) fun gen =>
        if config.maxResultSizeBytes < size then .finished else .writing version gen))
    | _ => none
  | .lookup _ =>
    match request.phase with
    | .looking generation => some (s.lookup i request generation)
    | _ => none
  | .fail _ =>
    -- The caller goes on after an error of `get` as after a miss.
    match request.phase with
    | .getting _ | .looking _ => some (s.setPhase i request .missed)
    | .setting _ _ _ | .writing _ _ => some (s.setPhase i request .finished)
    | _ => none
  | .execute _ size =>
    match request.phase with
    | .missed => some (s.setPhase i request (.computed (s.data request.projectId) size))
    | _ => none
  | .set _ preserialized =>
    match request.phase with
    | .computed version size => some (s.set config i request version size preserialized)
    | _ => none
  | .write _ =>
    match request.phase with
    | .writing version expectedGen => some (s.write config i request version expectedGen)
    | _ => none
  | _ => none

/-- One step of `invalidate_project`. -/
def stepSync (config : QueryCacheConfig) (s : QueryCache) (i : Nat) (sync : ProjectSync) :
    ResultCacheAction → Option QueryCache
  | .increment _ =>
    if sync.incremented then none
    else if config.enabled then some (s.increment i sync)
    else some (s.complete i sync)
  | .remove _ => if sync.incremented then some (s.remove i sync) else none
  | _ => none

def step (config : QueryCacheConfig) (s : QueryCache) : ResultCacheAction → Option QueryCache
  | .wait milliseconds => some { s with now := s.now + milliseconds }
  | .evict projectId => some { s with generationCache := s.generationCache.erase projectId }
  | .get i projectId sql => if (s.requests i).isSome then none else some (s.get config i projectId sql)
  | .change i projectId => if (s.syncs i).isSome then none else some (s.change i projectId)
  | .generation i => (s.requests i).bind fun request => s.stepRequest config i request (.generation i)
  | .lookup i => (s.requests i).bind fun request => s.stepRequest config i request (.lookup i)
  | .fail i => (s.requests i).bind fun request => s.stepRequest config i request (.fail i)
  | .execute i size => (s.requests i).bind fun request => s.stepRequest config i request (.execute i size)
  | .set i preserialized => (s.requests i).bind fun request => s.stepRequest config i request (.set i preserialized)
  | .write i => (s.requests i).bind fun request => s.stepRequest config i request (.write i)
  | .increment i => (s.syncs i).bind fun sync => s.stepSync config i sync (.increment i)
  | .remove i => (s.syncs i).bind fun sync => s.stepSync config i sync (.remove i)

/-! ### What is fresh -/

/-- No result is older than a change whose invalidation had completed when `get` was called. -/
def Fresh (s : QueryCache) : Prop := ∀ a ∈ s.answers, a.since ≤ a.version

/-- The newest change among those that a generation of the project counts. -/
def newest (s : QueryCache) (projectId : Uuid) (generation : Nat) : Nat :=
  ((s.increments projectId).take generation).foldr max 0

/-- A result is written under the generation only if its query saw every change that the generation counts, and a
    generation is kept in memory only if it counts every change whose invalidation has completed. -/
def Orderly (s : QueryCache) : ResultCacheAction → Prop
  | .generation i => ∀ request ∈ s.requests i, ∀ gen ∈ request.phase.fetched,
    s.invalidated request.projectId ≤ s.newest request.projectId gen
  | .write i => ∀ request ∈ s.requests i, ∀ result ∈ request.phase.written,
    (s.generations.lookup request.projectId).getD 0 = result.2 → s.newest request.projectId result.2 ≤ result.1
  | _ => True

instance (s : QueryCache) : ∀ action, Decidable (s.Orderly action)
  | .generation i => inferInstanceAs (Decidable (∀ request ∈ s.requests i, ∀ gen ∈ request.phase.fetched,
    s.invalidated request.projectId ≤ s.newest request.projectId gen))
  | .write i => inferInstanceAs (Decidable (∀ request ∈ s.requests i, ∀ result ∈ request.phase.written,
    (s.generations.lookup request.projectId).getD 0 = result.2 → s.newest request.projectId result.2 ≤ result.1))
  | .wait _ | .get _ _ _ | .lookup _ | .fail _ | .execute _ _ | .set _ _ | .change _ _ | .increment _ | .remove _
  | .evict _ => inferInstanceAs (Decidable True)

end QueryCache
end Reiver.Pond
