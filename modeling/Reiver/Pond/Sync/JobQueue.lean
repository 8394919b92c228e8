import Reiver.Pond.Sync.Catalog

/-! # The job queue

The rows of `warehouse_jobs`, the statements that `job_worker.rs` runs on them, and the two updates of the orphan
recovery of `scheduler.rs`. Each statement is one step; a worker may stall between any two of its own. -/

namespace Reiver.Pond

abbrev WorkerId := String

/-- A row of `warehouse_jobs`. Times are in seconds. The last two fields are history: no statement reads them. -/
structure JobRow where
  status : JobStatus := .pending
  scheduledAt : Int
  startedAt : Option Int := none
  completedAt : Option Int := none
  error : Option String := none
  retryCount : Int := 0
  maxRetries : Int := 3
  lockedBy : Option WorkerId := none
  lockedAt : Option Int := none
  lockExpiresAt : Option Int := none
  completions : Nat := 0
  failures : Nat := 0
deriving DecidableEq

namespace JobRow

def claim (row : JobRow) (worker : WorkerId) (now expires : Int) : JobRow :=
  { row with
    status := .running, lockedBy := some worker, lockedAt := some now, lockExpiresAt := some expires
    startedAt := some now }

def heartbeat (row : JobRow) (expires : Int) : JobRow :=
  if row.status = .running then { row with lockExpiresAt := some expires } else row

def complete (row : JobRow) (now : Int) : JobRow :=
  { row with status := .completed, completedAt := some now, lockedBy := none, completions := row.completions + 1 }

def fail (row : JobRow) (now : Int) (error : String) : JobRow :=
  { row with
    status := if row.retryCount + 1 < row.maxRetries then .pending else .failed
    completedAt := some now, error := some error, lockedBy := none, retryCount := row.retryCount + 1
    failures := row.failures + 1 }

/-- `complete_job`. -/
def finish (row : JobRow) (now : Int) : Except String Unit → JobRow
  | .ok _ => row.complete now
  | .error error => row.fail now error

def recoverRunning (now : Int) (row : JobRow) : JobRow :=
  if row.status = .running ∧ row.lockExpiresAt.any (· < now) ∧ row.retryCount < row.maxRetries then
    let exceeded := row.retryCount + 1 ≥ row.maxRetries
    { row with
      status := if row.retryCount + 1 < row.maxRetries then .pending else .failed
      lockedBy := none, lockedAt := none, lockExpiresAt := none, retryCount := row.retryCount + 1
      error := if exceeded then some "Max retries exceeded (orphan recovery)" else row.error
      completedAt := if exceeded then some now else row.completedAt
      failures := row.failures + 1 }
  else row

def oneHour : Int := 60 * 60

def recoverStale (now : Int) (row : JobRow) : JobRow :=
  if row.status = .pending ∧ row.scheduledAt < now - oneHour ∧ row.lockedBy = none then
    { row with status := .failed, error := some "Stale pending job recovered by orphan recovery" }
  else row

end JobRow

/-- The table, the clock of the database, and the job each busy worker executes. -/
structure JobSystem where
  now : Int := 0
  jobs : Dict Uuid JobRow := ∅
  executing : Dict WorkerId Uuid := ∅

/-- `expires` is a worker's clock, read some time before the statement, and its lock duration. -/
inductive JobAction where
  | tick (seconds : Nat)
  | insert (id : Uuid)
  | claim (worker : WorkerId) (id : Uuid) (expires : Int)
  | heartbeat (id : Uuid) (expires : Int)
  | complete (worker : WorkerId) (result : Except String Unit)
  | abandon (worker : WorkerId)
  | recoverRunning
  | recoverStale

namespace JobSystem

def update (s : JobSystem) (id : Uuid) (f : JobRow → JobRow) : JobSystem :=
  match s.jobs.lookup id with
  | some row => { s with jobs := s.jobs.insert id (f row) }
  | none => s

/-- A claim skips the rows that other transactions have locked, so any job that is due may be the first. A worker
    abandons its job when it dies or when its last statement fails. -/
def step (s : JobSystem) : JobAction → Option JobSystem
  | .tick seconds => some { s with now := s.now + seconds }
  | .insert id => if id ∈ s.jobs then none else some { s with jobs := s.jobs.insert id { scheduledAt := s.now } }
  | .claim worker id expires =>
    match s.jobs.lookup id with
    | some row =>
      if worker ∉ s.executing ∧ row.status = .pending ∧ row.scheduledAt ≤ s.now then
        some { s with
          jobs := s.jobs.insert id (row.claim worker s.now expires)
          executing := s.executing.insert worker id }
      else none
    | none => none
  | .heartbeat id expires => some (s.update id (·.heartbeat expires))
  | .complete worker result =>
    match s.executing.lookup worker with
    | some id => some { s.update id (·.finish s.now result) with executing := s.executing.erase worker }
    | none => none
  | .abandon worker => some { s with executing := s.executing.erase worker }
  | .recoverRunning => some { s with jobs := s.jobs.mapValues fun _ => JobRow.recoverRunning s.now }
  | .recoverStale => some { s with jobs := s.jobs.mapValues fun _ => JobRow.recoverStale s.now }

/-! ### What a step does -/

section Steps
variable {s s' : JobSystem} {worker : WorkerId} {id : Uuid} {f : JobRow → JobRow}

theorem step_insert (h : s.step (.insert id) = some s') :
    id ∉ s.jobs ∧ s' = { s with jobs := s.jobs.insert id { scheduledAt := s.now } } := by
  simp only [step] at h
  split at h
  · cases h
  · next hnew => exact ⟨hnew, (Option.some_inj.mp h).symm⟩

theorem step_claim {expires : Int} (h : s.step (.claim worker id expires) = some s') :
    ∃ row, s.jobs.lookup id = some row ∧ worker ∉ s.executing ∧ row.status = .pending ∧ row.scheduledAt ≤ s.now ∧
      s' = { s with
        jobs := s.jobs.insert id (row.claim worker s.now expires)
        executing := s.executing.insert worker id } := by
  simp only [step] at h
  split at h
  · next row hrow =>
    split at h
    · next hguard => exact ⟨row, hrow, hguard.1, hguard.2.1, hguard.2.2, (Option.some_inj.mp h).symm⟩
    · cases h
  · cases h

theorem step_complete {result : Except String Unit} (h : s.step (.complete worker result) = some s') :
    ∃ id, s.executing.lookup worker = some id ∧
      s' = { s.update id (·.finish s.now result) with executing := s.executing.erase worker } := by
  simp only [step] at h
  split at h
  · next id hexec => exact ⟨id, hexec, (Option.some_inj.mp h).symm⟩
  · cases h

@[simp] theorem update_now : (s.update id f).now = s.now := by
  unfold update
  split <;> rfl

theorem lookup_update (id' : Uuid) :
    (s.update id f).jobs.lookup id' = if id' = id then (s.jobs.lookup id').map f else s.jobs.lookup id' := by
  unfold update
  split
  · next row hrow =>
    rw [Dict.lookup_insert']
    split
    · next h => rw [h, hrow, Option.map_some]
    · rfl
  · next hnone =>
    split
    · next h => rw [h, hnone, Option.map_none]
    · rfl

end Steps

end JobSystem

end Reiver.Pond
