import Mathlib.Data.List.Sort
import Reiver.Lib.Dict
import Reiver.Lib.Run

/-! # The query limiter

The model of `QueryLimiter` of `query/limiter.rs`: callers of `acquire` and runs of `cleanup_idle`, one atomic operation
a step. A caller works with the limiter that it found, also when the map has another one by then. -/

namespace Reiver.Pond

structure QueryLimiterConfig where
  maxConcurrentPerProject : Nat := 5
  maxConcurrentGlobal : Nat := 50
  maxQueuePerProject : Nat := 20
  maxCachedProjects : Nat := 10000
  projectIdleTimeout : Nat := 3600000000000
deriving DecidableEq

/-- The semaphore is known by its free permits. Times are nanoseconds. -/
structure ProjectLimiter where
  available : Nat
  queueSize : Nat
  configMaxQueue : Nat
  configMaxConcurrent : Nat
  lastAccessedNanos : Nat
deriving DecidableEq

namespace ProjectLimiter

def new (maxConcurrent maxQueue now : Nat) : ProjectLimiter where
  available := maxConcurrent
  queueSize := 0
  configMaxQueue := maxQueue
  configMaxConcurrent := maxConcurrent
  lastAccessedNanos := now

def touch (limiter : ProjectLimiter) (now : Nat) : ProjectLimiter := { limiter with lastAccessedNanos := now }

def enter (limiter : ProjectLimiter) : ProjectLimiter := { limiter with queueSize := limiter.queueSize + 1 }

/-- `fetch_sub` of the counter, which wraps below zero. -/
def leave (limiter : ProjectLimiter) : ProjectLimiter :=
  { limiter with queueSize := if limiter.queueSize = 0 then 18446744073709551615 else limiter.queueSize - 1 }

def isIdle (limiter : ProjectLimiter) : Bool :=
  limiter.available == limiter.configMaxConcurrent && limiter.queueSize == 0

def shouldEvict (limiter : ProjectLimiter) (now idleTimeout : Nat) : Bool :=
  limiter.isIdle && decide (idleTimeout < now - limiter.lastAccessedNanos)

end ProjectLimiter

/-! ### Callers -/

/-- How far a caller is that has found its limiter. -/
inductive Stage where
  | found
  /-- With its queue guard, waiting for a global permit. -/
  | queued
  /-- With its guard and a global permit, waiting for a permit of the project. -/
  | admitted
  /-- With its `QueryPermit`. -/
  | running
  /-- The permit is being dropped: it has left the queue. -/
  | unqueued
  /-- It has given the global permit back, too. -/
  | releasing
  /-- Cancelled: the global permit is given back, the guard is not dropped yet. -/
  | cancelling
deriving DecidableEq

namespace Stage

def guards : Stage → Bool
  | queued | admitted | cancelling => true
  | _ => false

def permits : Stage → Bool
  | running => true
  | _ => false

/-- The queue counter of the limiter counts the caller. -/
def counted (stage : Stage) : Bool := stage.guards || stage.permits

def holdsGlobal : Stage → Bool
  | admitted | running | unqueued => true
  | _ => false

def holdsProject : Stage → Bool
  | running | unqueued | releasing => true
  | _ => false

end Stage

structure Caller where
  project : Uuid
  limiter : Nat
  stage : Stage
deriving DecidableEq

inductive Cleanup where
  | retaining
  | collecting (target : Nat) (candidates : List (Uuid × Nat))
  | removing (ids : List Uuid)
deriving DecidableEq

inductive LimiterTask where
  /-- A caller that did not find a limiter. -/
  | inserting (project : Uuid)
  /-- A cleanup, by a caller that goes on for `next`, or for its own sake. -/
  | cleaning (cleanup : Cleanup) (next : Option Uuid)
  | holding (caller : Caller)
  | done
deriving DecidableEq

def LimiterTask.caller : LimiterTask → Option Caller
  | holding caller => some caller
  | _ => none

def LimiterTask.resume : Option Uuid → LimiterTask
  | some project => inserting project
  | none => done

/-- Every limiter ever made is kept by its number: queries hold it after the map has dropped it. -/
structure QueryLimiter where
  globalAvailable : Nat
  limiters : Nat → ProjectLimiter
  nextLimiter : Nat
  projectLimiters : Dict Uuid Nat
  tasks : List LimiterTask
  now : Nat

inductive LimiterAction where
  | acquire (project : Uuid)
  | insert (task : Nat)
  | tryGuard (task : Nat)
  | takeGlobal (task : Nat)
  | takeProject (task : Nat)
  | cancel (task : Nat)
  | dropPermit (task : Nat)
  | release (task : Nat)
  | cleanupIdle
  | retain (task : Nat) (shard : List Uuid)
  | checkCapacity (task : Nat)
  | collect (task : Nat) (shard : List Uuid)
  | select (task : Nat)
  | remove (task : Nat)
  | tick (nanos : Nat)
deriving DecidableEq

/-! ### Steps -/

namespace QueryLimiter

def start (config : QueryLimiterConfig) : QueryLimiter where
  globalAvailable := config.maxConcurrentGlobal
  limiters _ := ProjectLimiter.new config.maxConcurrentPerProject config.maxQueuePerProject 0
  nextLimiter := 0
  projectLimiters := ∅
  tasks := []
  now := 0

/-- The caller of a task, if it is at the stage. -/
def callerAt (s : QueryLimiter) (task : Nat) (stage : Stage) : Option Caller :=
  s.tasks[task]?.bind fun t => t.caller.filter (·.stage = stage)

def cleanupAt (s : QueryLimiter) (task : Nat) : Option (Cleanup × Option Uuid) :=
  s.tasks[task]?.bind fun
    | .cleaning cleanup next => some (cleanup, next)
    | _ => none

def setTask (s : QueryLimiter) (task : Nat) (t : LimiterTask) : QueryLimiter := { s with tasks := s.tasks.set task t }

def spawn (s : QueryLimiter) (t : LimiterTask) : QueryLimiter := { s with tasks := s.tasks ++ [t] }

def touch (s : QueryLimiter) (limiter : Nat) : QueryLimiter :=
  { s with limiters := Function.update s.limiters limiter ((s.limiters limiter).touch s.now) }

/-- A caller goes to another stage, or ends, with what it takes or gives back at its limiter and globally. -/
def move (s : QueryLimiter) (task : Nat) (caller : Caller) (stage : Option Stage)
    (limiter : ProjectLimiter := s.limiters caller.limiter) (globalAvailable : Nat := s.globalAvailable) :
    QueryLimiter where
  globalAvailable := globalAvailable
  limiters := Function.update s.limiters caller.limiter limiter
  nextLimiter := s.nextLimiter
  projectLimiters := s.projectLimiters
  tasks := s.tasks.set task (stage.elim .done fun stage => .holding { caller with stage })
  now := s.now

variable (config : QueryLimiterConfig)

/-- `entry(project_id).or_insert_with`, and the caller takes the limiter along. -/
def insertLimiter (s : QueryLimiter) (task : Nat) (project : Uuid) : QueryLimiter :=
  match s.projectLimiters.lookup project with
  | some limiter => (s.touch limiter).setTask task (.holding { project, limiter, stage := .found })
  | none =>
    let limiter := ProjectLimiter.new config.maxConcurrentPerProject config.maxQueuePerProject s.now
    { s with
      limiters := Function.update s.limiters s.nextLimiter limiter
      nextLimiter := s.nextLimiter + 1
      projectLimiters := s.projectLimiters.insert project s.nextLimiter
      tasks := s.tasks.set task (.holding { project, limiter := s.nextLimiter, stage := .found }) }

def acquire (s : QueryLimiter) (project : Uuid) : QueryLimiter :=
  match s.projectLimiters.lookup project with
  | some limiter => (s.touch limiter).spawn (.holding { project, limiter, stage := .found })
  | none =>
    if config.maxCachedProjects ≤ s.projectLimiters.keys.length then s.spawn (.cleaning .retaining (some project))
    else s.spawn (.inserting project)

def tryGuard (s : QueryLimiter) (task : Nat) (caller : Caller) : QueryLimiter :=
  let limiter := s.limiters caller.limiter
  if limiter.configMaxQueue ≤ limiter.queueSize then s.move task caller none
  else s.move task caller (some .queued) limiter.enter

def takeGlobal (s : QueryLimiter) (task : Nat) (caller : Caller) : Option QueryLimiter :=
  if s.globalAvailable = 0 then none
  else some (s.move task caller (some .admitted) (s.limiters caller.limiter) (s.globalAvailable - 1))

def takeProject (s : QueryLimiter) (task : Nat) (caller : Caller) : Option QueryLimiter :=
  let limiter := s.limiters caller.limiter
  if limiter.available = 0 then none
  else some (s.move task caller (some .running) { limiter with available := limiter.available - 1 })

/-- The counter goes down with the guard or the permit. -/
def leaveQueue (s : QueryLimiter) (task : Nat) (caller : Caller) (stage : Option Stage) : QueryLimiter :=
  s.move task caller stage (s.limiters caller.limiter).leave

def cancel (s : QueryLimiter) (task : Nat) (caller : Caller) : Option QueryLimiter :=
  match caller.stage with
  | .found => some (s.move task caller none)
  | .queued => some (s.leaveQueue task caller none)
  | .admitted => some (s.move task caller (some .cancelling) (s.limiters caller.limiter) (s.globalAvailable + 1))
  | _ => none

def release (s : QueryLimiter) (task : Nat) (caller : Caller) : Option QueryLimiter :=
  let limiter := s.limiters caller.limiter
  match caller.stage with
  | .unqueued => some (s.move task caller (some .releasing) limiter (s.globalAvailable + 1))
  | .releasing => some (s.move task caller none { limiter with available := limiter.available + 1 })
  | .cancelling => some (s.leaveQueue task caller none)
  | _ => none

/-- `retain`, over one shard of the map. -/
def retain (s : QueryLimiter) (shard : List Uuid) : QueryLimiter :=
  { s with projectLimiters := s.projectLimiters.filter fun project limiter =>
      !(decide (project ∈ shard) && (s.limiters limiter).shouldEvict s.now config.projectIdleTimeout) }

def checkCapacity (s : QueryLimiter) (next : Option Uuid) : LimiterTask :=
  let len := s.projectLimiters.keys.length
  if config.maxCachedProjects < len then .cleaning (.collecting (len - config.maxCachedProjects / 2) []) next
  else .resume next

/-- The idle limiters of one shard, with their last access. -/
def candidates (s : QueryLimiter) (shard : List Uuid) : List (Uuid × Nat) :=
  (s.projectLimiters.pairs.filter fun e => decide (e.1 ∈ shard) && (s.limiters e.2).isIdle).map fun e =>
    (e.1, (s.limiters e.2).lastAccessedNanos)

def lruToRemove (target : Nat) (candidates : List (Uuid × Nat)) : List Uuid :=
  ((candidates.insertionSort fun a b => a.2 ≤ b.2).take target).map (·.1)

def step (s : QueryLimiter) : LimiterAction → Option QueryLimiter
  | .acquire project => some (s.acquire config project)
  | .insert task =>
    match s.tasks[task]? with
    | some (.inserting project) => some (s.insertLimiter config task project)
    | _ => none
  | .tryGuard task => (s.callerAt task .found).map (s.tryGuard task)
  | .takeGlobal task => (s.callerAt task .queued).bind (s.takeGlobal task)
  | .takeProject task => (s.callerAt task .admitted).bind (s.takeProject task)
  | .cancel task => (s.tasks[task]?.bind (·.caller)).bind (s.cancel task)
  | .dropPermit task => (s.callerAt task .running).map fun caller => s.leaveQueue task caller (some .unqueued)
  | .release task => (s.tasks[task]?.bind (·.caller)).bind (s.release task)
  | .cleanupIdle => some (s.spawn (.cleaning .retaining none))
  | .retain task shard =>
    match s.cleanupAt task with
    | some (.retaining, _) => some (s.retain config shard)
    | _ => none
  | .checkCapacity task =>
    match s.cleanupAt task with
    | some (.retaining, next) => some (s.setTask task (s.checkCapacity config next))
    | _ => none
  | .collect task shard =>
    match s.cleanupAt task with
    | some (.collecting target found, next) =>
      some (s.setTask task (.cleaning (.collecting target (found ++ s.candidates shard)) next))
    | _ => none
  | .select task =>
    match s.cleanupAt task with
    | some (.collecting target found, next) =>
      some (s.setTask task (.cleaning (.removing (lruToRemove target found)) next))
    | _ => none
  | .remove task =>
    match s.cleanupAt task with
    | some (.removing (project :: ids), next) =>
      some ({ s with projectLimiters := s.projectLimiters.erase project }.setTask task
        (.cleaning (.removing ids) next))
    | some (.removing [], next) => some (s.setTask task (.resume next))
    | _ => none
  | .tick nanos => some { s with now := s.now + nanos }

end QueryLimiter

end Reiver.Pond
