import Reiver.Pond.Sync.JobQueue

/-! # Job messages

How jobs reach the consumer: `check_and_schedule_syncs` and `evaluate_source_partitions` insert the row of a job in a
transaction, publish its message and commit; `process_message` of `sync_job_consumer.rs` marks the row, runs the job and
marks the row again; `claim_job` of `job_worker.rs` takes pending rows. A statement sees the rows that are committed. -/

namespace Reiver.Pond

inductive JobType where
  | sync
  | upgradeToWarm
  | upgradeToHot
  | downgradeToWarm
  | downgradeToCold
  | indexBuild
  | fstRebuild
  | schemaSnapshot
  | derivedRefresh
deriving DecidableEq

/-- The jobs that the consumer runs; it ignores one type and refuses two. -/
def JobType.consumerRuns : JobType → Bool
  | indexBuild | fstRebuild | schemaSnapshot => false
  | _ => true

/-- The jobs that the polling worker runs; it refuses the others. -/
def JobType.workerRuns : JobType → Bool
  | sync | fstRebuild | schemaSnapshot => true
  | _ => false

/-- `update_job_status`. -/
def JobRow.updateStatus (row : JobRow) (status : JobStatus) (now : Int) (error : Option String) : JobRow :=
  if status = .running then { row with status, startedAt := some now }
  else { row with status, completedAt := some now, error }

structure WarehouseJob where
  jobType : JobType
  sourceId : Uuid
  row : JobRow
deriving DecidableEq

/-- A job of this status keeps new ones of its source from being scheduled. -/
def JobStatus.isActive : JobStatus → Bool
  | pending | running => true
  | _ => false

structure JobTransaction where
  job : WarehouseJob
  published : Bool := false

structure SyncJobKafkaMessage where
  jobId : Uuid
  jobType : JobType
  sourceId : Uuid
deriving DecidableEq

inductive ConsumerPhase where
  | idle
  | received (message : SyncJobKafkaMessage) (partition offset : Nat)
  | running (message : SyncJobKafkaMessage) (partition offset : Nat)
  | executed (message : SyncJobKafkaMessage) (partition offset : Nat) (result : Except String Unit)
  | processed (partition offset : Nat)

def ConsumerPhase.message : ConsumerPhase → Option SyncJobKafkaMessage
  | received message _ _ => some message
  | running message _ _ => some message
  | executed message _ _ _ => some message
  | _ => none

/-- The last three fields are history: the jobs whose message was processed and not delivered again, those that the
    consumer ran and those that a polling worker ran. -/
structure JobDispatch where
  now : Int := 0
  jobs : Dict Uuid WarehouseJob := ∅
  transactions : Dict Uuid JobTransaction := ∅
  topic : Nat → List SyncJobKafkaMessage := fun _ => []
  position : Nat → Nat := fun _ => 0
  committed : Nat → Nat := fun _ => 0
  consumer : ConsumerPhase := .idle
  executing : Dict WorkerId Uuid := ∅
  processed : List Uuid := []
  consumed : List Uuid := []
  polled : List Uuid := []

inductive DispatchAction where
  | tick (seconds : Nat)
  | scheduleSync (id sourceId : Uuid)
  | scheduleTransition (id sourceId : Uuid) (jobType : JobType)
  | publish (id : Uuid) (partition : Nat) (delivered acknowledged : Bool)
  | commit (id : Uuid)
  | rollback (id : Uuid)
  | deliver (partition : Nat)
  | start (ok : Bool)
  | execute (result : Except String Unit)
  | finish (ok : Bool)
  | commitOffset (ok : Bool)
  | restart
  | claim (worker : WorkerId) (id : Uuid) (expires : Int)
  | complete (worker : WorkerId) (result : Except String Unit)
  | abandon (worker : WorkerId)

namespace JobDispatch

/-- The insert of a job, unless there is an active one that it would conflict with. -/
def insertJob (s : JobDispatch) (id : Uuid) (job : WarehouseJob) (conflicts : WarehouseJob → Bool) :
    Option JobDispatch :=
  if id ∈ s.jobs ∨ id ∈ s.transactions ∨
      s.jobs.values.any
        (fun other => other.sourceId = job.sourceId && other.row.status.isActive && conflicts other) then
    none
  else some { s with transactions := s.transactions.insert id { job } }

def publish (s : JobDispatch) (id : Uuid) (partition : Nat) (delivered acknowledged : Bool) (tx : JobTransaction) :
    JobDispatch :=
  { s with
    topic := if delivered then
        Function.update s.topic partition (s.topic partition ++ [⟨id, tx.job.jobType, tx.job.sourceId⟩])
      else s.topic
    transactions := if acknowledged then s.transactions.insert id { tx with published := true }
      else s.transactions.erase id }

/-- An update finds the row only if it is committed. -/
def update (s : JobDispatch) (id : Uuid) (f : JobRow → JobRow) : JobDispatch :=
  match s.jobs.lookup id with
  | some job => { s with jobs := s.jobs.insert id { job with row := f job.row } }
  | none => s

def deliver (s : JobDispatch) (partition : Nat) (message : SyncJobKafkaMessage) : JobDispatch :=
  { s with
    consumer := .received message partition (s.position partition)
    position := Function.update s.position partition (s.position partition + 1)
    processed := s.processed.filter (· ≠ message.jobId) }

def start (s : JobDispatch) (message : SyncJobKafkaMessage) (partition offset : Nat) : JobDispatch :=
  { s.update message.jobId (·.updateStatus .running s.now none) with consumer := .running message partition offset }

/-- The result of a job that the consumer does not run. -/
def execute (s : JobDispatch) (message : SyncJobKafkaMessage) (partition offset : Nat) (result : Except String Unit) :
    JobDispatch :=
  if message.jobType.consumerRuns then
    { s with consumer := .executed message partition offset result, consumed := message.jobId :: s.consumed }
  else
    { s with
      consumer := .executed message partition offset
        (if message.jobType = .indexBuild then .ok () else .error "not handled by sync consumer") }

def finalStatus : Except String Unit → JobStatus × Option String
  | .ok _ => (.completed, none)
  | .error error => (.failed, some error)

def finish (s : JobDispatch) (message : SyncJobKafkaMessage) (partition offset : Nat) (result : Except String Unit) :
    JobDispatch :=
  { s.update message.jobId (·.updateStatus (finalStatus result).1 s.now (finalStatus result).2) with
    consumer := .processed partition offset
    processed := message.jobId :: s.processed }

def claim (s : JobDispatch) (worker : WorkerId) (id : Uuid) (expires : Int) (job : WarehouseJob) : JobDispatch :=
  { s with
    jobs := s.jobs.insert id { job with row := job.row.claim worker s.now expires }
    executing := s.executing.insert worker id
    polled := if job.jobType.workerRuns then id :: s.polled else s.polled }

def step (s : JobDispatch) : DispatchAction → Option JobDispatch
  | .tick seconds => some { s with now := s.now + seconds }
  | .scheduleSync id sourceId =>
    s.insertJob id { jobType := .sync, sourceId, row := { scheduledAt := s.now } } fun _ => true
  | .scheduleTransition id sourceId jobType =>
    s.insertJob id { jobType, sourceId, row := { scheduledAt := s.now } } fun other => other.jobType = jobType
  | .publish id partition delivered acknowledged =>
    match s.transactions.lookup id with
    | some tx => if tx.published then none else some (s.publish id partition delivered acknowledged tx)
    | none => none
  | .commit id =>
    match s.transactions.lookup id with
    | some tx =>
      if tx.published then
        some { s with jobs := s.jobs.insert id tx.job, transactions := s.transactions.erase id }
      else none
    | none => none
  -- A commit that fails, or a scheduler that dies.
  | .rollback id =>
    if id ∈ s.transactions then some { s with transactions := s.transactions.erase id } else none
  | .deliver partition =>
    match s.consumer, (s.topic partition)[s.position partition]? with
    | .idle, some message => some (s.deliver partition message)
    | _, _ => none
  | .start ok =>
    match s.consumer with
    | .received message partition offset =>
      some (if ok then s.start message partition offset else { s with consumer := .idle })
    | _ => none
  | .execute result =>
    match s.consumer with
    | .running message partition offset => some (s.execute message partition offset result)
    | _ => none
  | .finish ok =>
    match s.consumer with
    | .executed message partition offset result =>
      some (if ok then s.finish message partition offset result else { s with consumer := .idle })
    | _ => none
  | .commitOffset ok =>
    match s.consumer with
    | .processed partition offset =>
      some { s with
        consumer := .idle
        committed := if ok then Function.update s.committed partition (offset + 1) else s.committed }
    | _ => none
  | .restart => some { s with consumer := .idle, position := s.committed }
  | .claim worker id expires =>
    match s.jobs.lookup id with
    | some job =>
      if worker ∉ s.executing ∧ job.row.status = .pending ∧ job.row.scheduledAt ≤ s.now then
        some (s.claim worker id expires job)
      else none
    | none => none
  | .complete worker result =>
    match s.executing.lookup worker with
    | some id => some { s.update id (·.finish s.now result) with executing := s.executing.erase worker }
    | none => none
  | .abandon worker => some { s with executing := s.executing.erase worker }

/-! ### What is asked of a processed message -/

/-- Where the message of a job was processed and its transaction has ended, the job is there and done, and no job is run
    by the consumer and by a polling worker. -/
structure Concluded (s : JobDispatch) : Prop where
  final : ∀ id ∈ s.processed, id ∉ s.transactions →
    ∃ job, s.jobs.lookup id = some job ∧ (job.row.status = .completed ∨ job.row.status = .failed)
  once : ∀ id ∈ s.polled, id ∉ s.consumed

/-- A transaction ends before the message of its job is processed; a job is marked done while its row is there, or still
    in its transaction; the consumer and the polling workers take different jobs; and a worker does not hand back a job
    whose message was processed. -/
def Timely (s : JobDispatch) : DispatchAction → Prop
  | .publish id _ _ acknowledged => acknowledged = true ∨ id ∉ s.processed
  | .commit id | .rollback id => id ∉ s.processed
  | .execute _ => ∀ message ∈ s.consumer.message, message.jobType.consumerRuns = true → message.jobId ∉ s.polled
  | .finish ok => ok = true → ∀ message ∈ s.consumer.message, message.jobId ∈ s.jobs ∨ message.jobId ∈ s.transactions
  | .claim _ id _ => ∀ job ∈ s.jobs.lookup id, job.jobType.workerRuns = true → id ∉ s.consumed
  | .complete worker result => ∀ id ∈ s.executing.lookup worker, id ∈ s.processed →
    ∀ job ∈ s.jobs.lookup id, result = .ok () ∨ job.row.maxRetries ≤ job.row.retryCount + 1
  | _ => True

end JobDispatch
end Reiver.Pond
