import Reiver.Lib.Dict
import Reiver.Lib.Run

/-! # The A2A message worker

The model of `message_worker.rs`: a consumer that hands out the messages of each partition in order and commits what it
has handed out on a timer, and three inserters that keep rows until a batch is due. A run can end at any step and start
again from the committed offsets; its partitions stay with it until then. The outcomes of writes and inserts are part of
the actions. -/

namespace Reiver.Herd

def batchMaxRows : Nat := 500

inductive Table where
  | tasks
  | messages
  | requestLog
deriving DecidableEq

/-- A row is known by the message it is made of; the updates are the rows made after forwarding. -/
structure Row where
  partition : Nat
  offset : Nat
  table : Table
  update : Bool
deriving DecidableEq

structure A2aMessageEnvelope where
  taskId : Uuid
  method : String
deriving DecidableEq

inductive WorkerPhase where
  | polling
  | buffering (rows : List Row)
  | forwarding (partition offset : Nat) (envelope : A2aMessageEnvelope)
  | updating (rows : List Row)
  | committing (tables : List Table)
  | ending (tables : List Table)
  | stopped
deriving DecidableEq

def WorkerPhase.rows : WorkerPhase → List Row
  | buffering rows => rows
  | updating rows => rows
  | _ => []

/-- What follows when the tables left are committed, ended, or the rows left written. -/
def WorkerPhase.commit : List Table → WorkerPhase
  | [] => polling
  | tables => committing tables

def WorkerPhase.finish : List Table → WorkerPhase
  | [] => stopped
  | tables => ending tables

def WorkerPhase.update : List Row → WorkerPhase
  | [] => committing [.tasks, .messages, .requestLog]
  | rows => updating rows

inductive WriteOutcome where
  | written
  | rejected
  /-- The batch is lost with the row. -/
  | aborted
deriving DecidableEq

/-- What the worker reads: the payload of every message of the topic, and what it parses to. -/
structure A2aTopic where
  payload : Nat → Nat → Option String
  parse : String → Option A2aMessageEnvelope

def A2aTopic.envelope (topic : A2aTopic) (partition offset : Nat) : Option A2aMessageEnvelope :=
  (topic.payload partition offset).bind topic.parse

structure MessageWorker where
  phase : WorkerPhase := .polling
  /-- How many messages of a partition were handed out. -/
  handed : Nat → Nat := fun _ => 0
  committed : Nat → Nat := fun _ => 0
  buffer : Table → List Row := fun _ => []
  stored : List Row := []
  lost : List Row := []

inductive WorkerAction where
  | next (partition : Nat)
  | write (outcome : WriteOutcome)
  | forward (responses : Nat)
  | commit (period ok : Bool)
  | streamEnd
  | shutdown
  | finish (ok : Bool)
  | autoCommit (partition : Nat)
  | restart
deriving DecidableEq

/-- The rows of a message: its task, the message and the log of the request. -/
def messageRows (partition offset : Nat) : List Row :=
  [⟨partition, offset, .tasks, false⟩, ⟨partition, offset, .messages, false⟩, ⟨partition, offset, .requestLog, false⟩]

/-- The status of the task, and the responses of the agent. -/
def updateRows (partition offset responses : Nat) : List Row :=
  ⟨partition, offset, .tasks, true⟩ :: List.replicate responses ⟨partition, offset, .messages, true⟩

namespace MessageWorker

def buffered (s : MessageWorker) : List Row := s.buffer .tasks ++ s.buffer .messages ++ s.buffer .requestLog

def insert (s : MessageWorker) (table : Table) : MessageWorker :=
  { s with stored := s.stored ++ s.buffer table, buffer := Function.update s.buffer table [] }

def abort (s : MessageWorker) (table : Table) : MessageWorker :=
  { s with lost := s.lost ++ s.buffer table, buffer := Function.update s.buffer table [] }

def dropWriter (s : MessageWorker) : MessageWorker :=
  { s with lost := s.lost ++ s.buffered, buffer := fun _ => [] }

def write (s : MessageWorker) (row : Row) : WriteOutcome → MessageWorker
  | .written => { s with buffer := Function.update s.buffer row.table (s.buffer row.table ++ [row]) }
  | .rejected => { s with lost := s.lost ++ [row] }
  | .aborted => { s.abort row.table with lost := (s.abort row.table).lost ++ [row] }

def deliver (topic : A2aTopic) (s : MessageWorker) (partition : Nat) : MessageWorker :=
  let offset := s.handed partition
  { s with
    handed := Function.update s.handed partition (offset + 1)
    phase := match topic.payload partition offset with
      | none => .polling
      | some payload => match topic.parse payload with
        | none => .committing [.tasks, .messages, .requestLog]
        | some _ => .buffering (messageRows partition offset) }

/-- `process_message` returns when one of its first three rows is not written. -/
def writeRow (topic : A2aTopic) (s : MessageWorker) (row : Row) (rest : List Row) (outcome : WriteOutcome) :
    MessageWorker :=
  match outcome with
  | .written => { s.write row outcome with
    phase := match rest with
      | [] => match topic.envelope row.partition row.offset with
        | some envelope => .forwarding row.partition row.offset envelope
        | none => .committing [.tasks, .messages, .requestLog]
      | _ :: _ => .buffering rest }
  | _ => { s.write row outcome with
    lost := (s.write row outcome).lost ++ rest
    phase := .committing [.tasks, .messages, .requestLog] }

def writeUpdate (s : MessageWorker) (row : Row) (rest : List Row) (outcome : WriteOutcome) : MessageWorker :=
  { s.write row outcome with phase := .update rest }

/-- An error ends the commit of the batch writer before the other tables. -/
def commitTable (s : MessageWorker) (table : Table) (rest : List Table) (period ok : Bool) : MessageWorker :=
  if batchMaxRows ≤ (s.buffer table).length ∨ period = true then
    if ok then { s.insert table with phase := .commit rest } else { s.abort table with phase := .polling }
  else { s with phase := .commit rest }

def endTable (s : MessageWorker) (table : Table) (rest : List Table) (ok : Bool) : MessageWorker :=
  if ok then { s.insert table with phase := .finish rest }
  else { s.dropWriter with phase := .stopped }

def restart (s : MessageWorker) : MessageWorker :=
  { s.dropWriter with lost := s.dropWriter.lost ++ s.phase.rows, handed := s.committed, phase := .polling }

def step (topic : A2aTopic) (s : MessageWorker) : WorkerAction → Option MessageWorker
  | .next partition => if s.phase = .polling then some (s.deliver topic partition) else none
  | .write outcome =>
    match s.phase with
    | .buffering (row :: rest) => some (s.writeRow topic row rest outcome)
    | .updating (row :: rest) => some (s.writeUpdate row rest outcome)
    | _ => none
  | .forward responses =>
    match s.phase with
    | .forwarding partition offset envelope =>
      some { s with
        phase := if envelope.method = "tasks/cancel" then .committing [.tasks, .messages, .requestLog]
          else .updating (updateRows partition offset responses) }
    | _ => none
  | .commit period ok =>
    match s.phase with
    | .committing (table :: rest) => some (s.commitTable table rest period ok)
    | _ => none
  -- The loop is left without `end`.
  | .streamEnd => if s.phase = .polling then some { s.dropWriter with phase := .stopped } else none
  | .shutdown => if s.phase = .polling then some { s with phase := .ending [.tasks, .messages, .requestLog] } else none
  | .finish ok =>
    match s.phase with
    | .ending (table :: rest) => some (s.endTable table rest ok)
    | _ => none
  | .autoCommit partition => some { s with committed := Function.update s.committed partition (s.handed partition) }
  | .restart => some s.restart

/-! ### What is safe -/

/-- Every message below a committed offset has its rows, or cannot be parsed. -/
def NothingLost (topic : A2aTopic) (s : MessageWorker) : Prop :=
  ∀ partition, ∀ offset < s.committed partition, (topic.envelope partition offset).isSome = true →
    ∀ row ∈ messageRows partition offset, row ∈ s.stored

/-- A row that is still to be written, or in an inserter, or was lost. -/
def Unstored (s : MessageWorker) (row : Row) : Prop :=
  row ∈ s.phase.rows ∨ (∃ table, row ∈ s.buffer table) ∨ row ∈ s.lost

/-- Where a partition is committed, no row of what was handed out of it is on its way or was lost, unless it was stored
    at another time. -/
def Settled (s : MessageWorker) : WorkerAction → Prop
  | .autoCommit partition => ∀ row, s.Unstored row → row.update = false → row.partition = partition →
    row.offset < s.handed partition → row ∈ s.stored
  | _ => True

end MessageWorker
end Reiver.Herd
