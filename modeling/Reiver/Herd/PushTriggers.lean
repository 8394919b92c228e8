import Reiver.Herd.MessageWorker
import Reiver.Lib.JsonValue

/-! # Push triggers

The model of `process_message` and `forward_to_agent` of `message_worker.rs` with the rows that they write and the
triggers that they publish. What the inserters, the agent and the broker answer is an argument. The state that a trigger
tells is that of the last task row of the call only where the call completes the task. -/

namespace Reiver.Herd

/-! ### Rows and triggers -/

structure PipelineFlags where
  piiRedacted : Bool := false
  injectionFlagged : Bool := false

structure FullEnvelope where
  taskId : String
  method : String
  contextId : Option String
  sourceAgentId : Uuid
  targetAgentId : Uuid
  sourceOrgId : Uuid
  targetOrgId : Uuid
  message : JsonValue
  metadata : Option JsonValue
  pipelineFlags : Option PipelineFlags
  timestamp : Int

structure TaskRow where
  taskId : Uuid
  contextId : Option Uuid
  sourceAgentId : Uuid
  targetAgentId : Uuid
  sourceOrgId : Uuid
  targetOrgId : Uuid
  status : String
  metadata : String
  artifacts : String
  updatedAt : Int
  createdAt : Int

structure MessageRow where
  messageId : Uuid
  taskId : Uuid
  contextId : Option Uuid
  role : String
  parts : String
  metadata : String
  pipelineFlags : String
  createdAt : Int

structure RequestLogRow where
  requestId : Uuid
  taskId : Uuid
  sourceAgentId : Uuid
  targetAgentId : Uuid
  sourceOrgId : Uuid
  targetOrgId : Uuid
  method : String
  statusCode : Nat
  piiRedacted : Bool
  injectionFlagged : Bool
  timestamp : Int

structure PushTrigger where
  taskId : String
  webhookUrl : String
  authScheme : Option String
  authCredentials : Option String
  payload : JsonValue
  retryAfter : Int
  attempt : Nat
  createdAt : Int

structure AgentRouting where
  endpointUrl : String
  enabled : Bool

structure CachedPushConfig where
  webhookUrl : String
  authScheme : Option String
  authCredentials : Option String

structure RoutingCache where
  agents : Dict Uuid AgentRouting
  pushConfigs : Dict String (List CachedPushConfig)

def RoutingCache.getPushConfigs (cache : RoutingCache) (taskId : String) : List CachedPushConfig :=
  (cache.pushConfigs.lookup taskId).getD []

/-- What a call does that can be seen. -/
inductive Effect where
  | task (row : TaskRow)
  | message (row : MessageRow)
  | requestLog (row : RequestLogRow)
  | push (trigger : PushTrigger)

/-! ### What a call meets -/

inductive HttpAnswer where
  | unreachable
  /-- `none` is a body that is not JSON. -/
  | answered (status : Nat) (body : Option JsonValue)

inductive ProduceOutcome where
  | delivered
  | failed
  /-- The error comes after the delivery. -/
  | unacknowledged
deriving DecidableEq

/-- Ids, times and texts as the libraries make them. -/
structure Codec where
  parseUuid : String → Option Uuid
  printJson : JsonValue → String
  rfc3339 : Int → String

structure CallOutcomes where
  now : Int
  updatedAt : Int
  respondedAt : Nat → Int
  notifiedAt : Nat → Int
  newMessageId : Uuid
  newRequestId : Uuid
  newResponseId : Nat → Uuid
  task : WriteOutcome
  message : WriteOutcome
  requestLog : WriteOutcome
  http : HttpAnswer
  update : WriteOutcome
  response : Nat → WriteOutcome
  produce : Nat → ProduceOutcome

section Call
variable (codec : Codec) (cache : RoutingCache) (envelope : FullEnvelope) (o : CallOutcomes)

def FullEnvelope.contextUuid : Option Uuid := envelope.contextId.bind codec.parseUuid

/-! ### Forwarding -/

inductive ForwardError where
  | notFoundOrDisabled
  | noEndpoint
  | unreachable
  | badStatus (status : Nat)
  | badBody

structure ForwardResult where
  artifacts : Option JsonValue
  responseMessages : List MessageRow

def responseMessages (taskId : Uuid) (body : JsonValue) : List MessageRow :=
  let artifacts := (((body.get "result").bind (·.get "artifacts")).bind (·.asArray)).getD []
  artifacts.zipIdx.map fun artifact =>
    { messageId := o.newResponseId artifact.2
      taskId
      contextId := envelope.contextUuid codec
      role := "agent"
      parts := ((artifact.1.get "parts").map codec.printJson).getD "[]"
      metadata := "\x7b\x7d"
      pipelineFlags := "\x7b\x7d"
      createdAt := o.respondedAt artifact.2 }

def forwardToAgent (taskId : Uuid) : Except ForwardError ForwardResult :=
  match cache.agents.lookup envelope.targetAgentId with
  | none => .error .notFoundOrDisabled
  | some routing =>
    if !routing.enabled then .error .notFoundOrDisabled
    else if routing.endpointUrl = "" then .error .noEndpoint
    else
      match o.http with
      | .unreachable => .error .unreachable
      | .answered status body =>
        if ¬(200 ≤ status ∧ status < 300) then .error (.badStatus status)
        else
          match body with
          | none => .error .badBody
          | some body =>
            .ok
              { artifacts := (body.get "result").bind (·.get "artifacts")
                responseMessages := responseMessages codec envelope o taskId body }

/-! ### Processing -/

def submittedRow (taskId : Uuid) : TaskRow where
  taskId
  contextId := envelope.contextUuid codec
  sourceAgentId := envelope.sourceAgentId
  targetAgentId := envelope.targetAgentId
  sourceOrgId := envelope.sourceOrgId
  targetOrgId := envelope.targetOrgId
  status := "submitted"
  metadata := codec.printJson (envelope.metadata.getD (.object []))
  artifacts := "[]"
  updatedAt := o.now
  createdAt := envelope.timestamp

def inboundRow (taskId : Uuid) : MessageRow :=
  let flags := envelope.pipelineFlags.getD {}
  { messageId := (((envelope.message.get "messageId").bind (·.asStr)).bind codec.parseUuid).getD o.newMessageId
    taskId
    contextId := envelope.contextUuid codec
    role := ((envelope.message.get "role").bind (·.asStr)).getD "user"
    parts := ((envelope.message.get "parts").map codec.printJson).getD "[]"
    metadata := "\x7b\x7d"
    pipelineFlags := codec.printJson
      (.object [("piiRedacted", .bool flags.piiRedacted), ("injectionFlagged", .bool flags.injectionFlagged)])
    createdAt := o.now }

def requestRow (taskId : Uuid) : RequestLogRow :=
  let flags := envelope.pipelineFlags.getD {}
  { requestId := o.newRequestId
    taskId
    sourceAgentId := envelope.sourceAgentId
    targetAgentId := envelope.targetAgentId
    sourceOrgId := envelope.sourceOrgId
    targetOrgId := envelope.targetOrgId
    method := envelope.method
    statusCode := 200
    piiRedacted := flags.piiRedacted
    injectionFlagged := flags.injectionFlagged
    timestamp := o.now }

/-- `completed` or `failed`, as the agent answered. -/
def updatedRow (taskId : Uuid) (result : Except ForwardError ForwardResult) : TaskRow :=
  { submittedRow codec envelope o taskId with
    status := match result with | .ok _ => "completed" | .error _ => "failed"
    metadata := "\x7b\x7d"
    artifacts := match result with
      | .ok forwarded => codec.printJson (forwarded.artifacts.getD .null)
      | .error _ => "[]"
    updatedAt := o.updatedAt }

/-- An effect that takes place if the write does. -/
def WriteOutcome.effect (outcome : WriteOutcome) (effect : Effect) : List Effect :=
  if outcome = .written then [effect] else []

def forwardEffects (taskId : Uuid) : List Effect :=
  if envelope.method = "tasks/cancel" then []
  else
    let result := forwardToAgent codec cache envelope o taskId
    o.update.effect (.task (updatedRow codec envelope o taskId result)) ++
      match result with
      | .ok forwarded => forwarded.responseMessages.zipIdx.flatMap fun m => (o.response m.2).effect (.message m.1)
      | .error _ => []

def statusUpdate (state : String) (notifiedAt : Int) : JsonValue :=
  .object
    [("statusUpdate",
      .object
        [("taskId", .string envelope.taskId),
          ("contextId", (envelope.contextId.map JsonValue.string).getD .null),
          ("status", .object [("state", .string state), ("timestamp", .string (codec.rfc3339 notifiedAt))])])]

def pushTrigger (state : String) (config : CachedPushConfig) (notifiedAt : Int) : PushTrigger where
  taskId := envelope.taskId
  webhookUrl := config.webhookUrl
  authScheme := config.authScheme
  authCredentials := config.authCredentials
  payload := statusUpdate codec envelope state notifiedAt
  retryAfter := notifiedAt
  attempt := 0
  createdAt := notifiedAt

/-- One trigger for each webhook, until one is not acknowledged. -/
def publish (state : String) : Nat → List CachedPushConfig → List Effect × Bool
  | _, [] => ([], true)
  | i, config :: configs =>
    let effect := Effect.push (pushTrigger codec envelope state config (o.notifiedAt i))
    match o.produce i with
    | .delivered => (effect :: (publish state (i + 1) configs).1, (publish state (i + 1) configs).2)
    | .failed => ([], false)
    | .unacknowledged => ([effect], false)

/-- What a call does, and whether it ends without an error. The state of the triggers is not that of the task. -/
def processMessage : List Effect × Bool :=
  match codec.parseUuid envelope.taskId with
  | none => ([], false)
  | some taskId =>
    let task := o.task.effect (.task (submittedRow codec envelope o taskId))
    if o.task ≠ .written then (task, false)
    else
      let message := o.message.effect (.message (inboundRow codec envelope o taskId))
      if o.message ≠ .written then (task ++ message, false)
      else
        let log := o.requestLog.effect (.requestLog (requestRow envelope o taskId))
        if o.requestLog ≠ .written then (task ++ message ++ log, false)
        else
          let finalStatus := "completed"
          let pushed := publish codec envelope o finalStatus 0 (cache.getPushConfigs envelope.taskId)
          (task ++ message ++ log ++ forwardEffects codec cache envelope o taskId ++ pushed.1, pushed.2)

end Call

/-! ### What triggers tell -/

/-- The state in the `statusUpdate` of a trigger. -/
def PushTrigger.state (trigger : PushTrigger) : Option String :=
  (((trigger.payload.get "statusUpdate").bind (·.get "status")).bind (·.get "state")).bind (·.asStr)

def Effect.taskRow : Effect → Option TaskRow
  | .task row => some row
  | _ => none

def lastTask (effects : List Effect) : Option TaskRow := (effects.filterMap Effect.taskRow).getLast?

/-- Each trigger tells the status of the last task row. -/
def TellsRecorded (effects : List Effect) : Prop :=
  ∀ trigger, .push trigger ∈ effects → ∃ row ∈ lastTask effects, trigger.state = some row.status

structure Publishes (codec : Codec) (cache : RoutingCache) (envelope : FullEnvelope) (o : CallOutcomes) : Prop where
  parsed : (codec.parseUuid envelope.taskId).isSome = true
  buffered : o.task = .written ∧ o.message = .written ∧ o.requestLog = .written
  configured : cache.getPushConfigs envelope.taskId ≠ []
  produced : o.produce 0 ≠ .failed

/-- The agent is known, enabled and reached, and answers with JSON. -/
def Answers (cache : RoutingCache) (envelope : FullEnvelope) (http : HttpAnswer) : Prop :=
  ∃ routing ∈ cache.agents.lookup envelope.targetAgentId, routing.enabled = true ∧ routing.endpointUrl ≠ "" ∧
    ∃ status body, http = .answered status (some body) ∧ 200 ≤ status ∧ status < 300

/-- The call forwards its message, is answered and writes the row that says so. -/
structure Completes (cache : RoutingCache) (envelope : FullEnvelope) (o : CallOutcomes) : Prop where
  forwards : envelope.method ≠ "tasks/cancel"
  answers : Answers cache envelope o.http
  recorded : o.update = .written

section Told
variable {codec : Codec} {cache : RoutingCache} {envelope : FullEnvelope} {o : CallOutcomes} {taskId : Uuid}

theorem pushTrigger_state (state : String) (config : CachedPushConfig) (t : Int) :
    (pushTrigger codec envelope state config t).state = some state := by
  simp [PushTrigger.state, pushTrigger, statusUpdate]

theorem mem_publish {state : String} {i : Nat} {configs : List CachedPushConfig} {effect : Effect}
    (h : effect ∈ (publish codec envelope o state i configs).1) :
    ∃ trigger, effect = .push trigger ∧ trigger.state = some state := by
  induction configs generalizing i with
  | nil => cases h
  | cons config configs ih =>
    rw [publish] at h
    have htrigger : (pushTrigger codec envelope state config (o.notifiedAt i)).state = some state :=
      pushTrigger_state state config _
    split at h
    · rcases List.mem_cons.mp h with rfl | h
      · exact ⟨_, rfl, htrigger⟩
      · exact ih h
    · cases h
    · rw [List.mem_singleton.mp h]
      exact ⟨_, rfl, htrigger⟩

theorem publish_ne_nil_iff {state : String} {configs : List CachedPushConfig} :
    (publish codec envelope o state 0 configs).1 ≠ [] ↔ configs ≠ [] ∧ o.produce 0 ≠ .failed := by
  cases configs with
  | nil => exact iff_of_false (fun h => h rfl) fun h => h.1 rfl
  | cons config configs =>
    rw [publish, and_iff_right (List.cons_ne_nil _ _)]
    cases o.produce 0 <;> simp

theorem taskRow_effect {outcome : WriteOutcome} {row : TaskRow} :
    (outcome.effect (.task row)).filterMap Effect.taskRow = if outcome = .written then [row] else [] := by
  rw [WriteOutcome.effect]
  split <;> rfl

theorem mem_messages {l : List (MessageRow × Nat)} {response : Nat → WriteOutcome} {effect : Effect}
    (h : effect ∈ l.flatMap fun m => (response m.2).effect (.message m.1)) : ∃ row, effect = .message row := by
  obtain ⟨m, -, h⟩ := List.mem_flatMap.mp h
  rw [WriteOutcome.effect] at h
  split at h
  · exact ⟨m.1, List.mem_singleton.mp h⟩
  · cases h

theorem filterMap_messages {l : List (MessageRow × Nat)} {response : Nat → WriteOutcome} :
    (l.flatMap fun m => (response m.2).effect (.message m.1)).filterMap Effect.taskRow = [] := by
  refine List.filterMap_eq_nil_iff.mpr fun effect h => ?_
  obtain ⟨row, rfl⟩ := mem_messages h
  rfl

theorem filterMap_publish {state : String} {configs : List CachedPushConfig} :
    (publish codec envelope o state 0 configs).1.filterMap Effect.taskRow = [] := by
  refine List.filterMap_eq_nil_iff.mpr fun effect h => ?_
  obtain ⟨trigger, rfl, -⟩ := mem_publish h
  rfl

theorem filterMap_forwardEffects : (forwardEffects codec cache envelope o taskId).filterMap Effect.taskRow =
    if envelope.method ≠ "tasks/cancel" ∧ o.update = .written then
      [updatedRow codec envelope o taskId (forwardToAgent codec cache envelope o taskId)]
    else [] := by
  rw [forwardEffects]
  by_cases hcancel : envelope.method = "tasks/cancel"
  · rw [if_pos hcancel, if_neg fun h => h.1 hcancel]
    rfl
  · simp only [hcancel, ne_eq, not_false_iff, true_and, if_false]
    rw [List.filterMap_append, taskRow_effect]
    cases forwardToAgent codec cache envelope o taskId with
    | ok forwarded =>
      dsimp only
      rw [filterMap_messages, List.append_nil]
    | error e => exact List.append_nil _

theorem push_not_mem_forwardEffects {trigger : PushTrigger} :
    .push trigger ∉ forwardEffects codec cache envelope o taskId := by
  have heffect : ∀ (outcome : WriteOutcome) (row : TaskRow), .push trigger ∉ outcome.effect (.task row) := by
    intro outcome row h
    rw [WriteOutcome.effect] at h
    split at h
    · cases List.mem_singleton.mp h
    · cases h
  rw [forwardEffects]
  split
  · exact List.not_mem_nil
  · dsimp only
    intro h
    rcases List.mem_append.mp h with h | h
    · exact heffect _ _ h
    · cases hresult : forwardToAgent codec cache envelope o taskId with
      | ok forwarded =>
        rw [hresult] at h
        obtain ⟨row, hrow⟩ := mem_messages h
        cases hrow
      | error e =>
        rw [hresult] at h
        cases h

theorem answers_iff : (∃ forwarded, forwardToAgent codec cache envelope o taskId = .ok forwarded) ↔
    Answers cache envelope o.http := by
  unfold forwardToAgent Answers
  cases cache.agents.lookup envelope.targetAgentId with
  | none => exact iff_of_false (fun ⟨_, h⟩ => nomatch h) fun ⟨_, h, _⟩ => nomatch h
  | some routing =>
    simp only [Option.mem_some_iff, exists_eq_left']
    cases henabled : routing.enabled with
    | false => exact iff_of_false (fun ⟨_, h⟩ => nomatch h) fun h => nomatch h.1
    | true =>
      by_cases hurl : routing.endpointUrl = ""
      · simp [hurl]
      · cases o.http with
        | unreachable => simp [hurl]
        | answered status body =>
          by_cases hstatus : 200 ≤ status ∧ status < 300
          · cases body <;> simp [hurl, hstatus]
          · refine iff_of_false ?_ ?_
            · simp [hurl, hstatus]
            · rintro ⟨-, -, status', body', heq, hstatus'⟩
              cases heq
              exact hstatus hstatus'

theorem processMessage_eq (h : codec.parseUuid envelope.taskId = some taskId)
    (hbuffered : o.task = .written ∧ o.message = .written ∧ o.requestLog = .written) :
    (processMessage codec cache envelope o).1 =
      [.task (submittedRow codec envelope o taskId), .message (inboundRow codec envelope o taskId),
        .requestLog (requestRow envelope o taskId)] ++ forwardEffects codec cache envelope o taskId ++
      (publish codec envelope o "completed" 0 (cache.getPushConfigs envelope.taskId)).1 := by
  obtain ⟨htask, hmessage, hlog⟩ := hbuffered
  simp only [processMessage, h, htask, hmessage, hlog, ne_eq, not_true, if_false, WriteOutcome.effect, if_true]
  rfl

theorem published_iff : (∃ trigger, .push trigger ∈ (processMessage codec cache envelope o).1) ↔
    Publishes codec cache envelope o := by
  cases hparse : codec.parseUuid envelope.taskId with
  | none =>
    refine iff_of_false ?_ fun h => ?_
    · rw [processMessage, hparse]
      exact fun ⟨_, h⟩ => nomatch h
    · have hparsed := h.parsed
      rw [hparse] at hparsed
      cases hparsed
  | some taskId =>
    by_cases hbuffered : o.task = .written ∧ o.message = .written ∧ o.requestLog = .written
    · rw [processMessage_eq hparse hbuffered]
      constructor
      · rintro ⟨trigger, h⟩
        rcases List.mem_append.mp h with h | h
        · rcases List.mem_append.mp h with h | h
          · simp at h
          · exact absurd h push_not_mem_forwardEffects
        · obtain ⟨hconfigs, hproduce⟩ := publish_ne_nil_iff.mp (List.ne_nil_of_mem h)
          exact ⟨by rw [hparse]; rfl, hbuffered, hconfigs, hproduce⟩
      · intro h
        obtain ⟨effect, hmem⟩ := List.exists_mem_of_ne_nil _ (publish_ne_nil_iff.mpr ⟨h.configured, h.produced⟩)
        obtain ⟨trigger, rfl, -⟩ := mem_publish hmem
        exact ⟨trigger, List.mem_append_right _ hmem⟩
    · refine iff_of_false ?_ fun h => hbuffered h.buffered
      rintro ⟨trigger, h⟩
      simp only [processMessage, hparse] at h
      have hno : ∀ (outcome : WriteOutcome) (effect : Effect), (∀ trigger, effect ≠ .push trigger) →
          .push trigger ∉ outcome.effect effect := by
        intro outcome effect hne h
        rw [WriteOutcome.effect] at h
        split at h
        · exact hne trigger (List.mem_singleton.mp h).symm
        · cases h
      have htask := hno o.task (.task (submittedRow codec envelope o taskId)) fun _ h => nomatch h
      have hmessage := hno o.message (.message (inboundRow codec envelope o taskId)) fun _ h => nomatch h
      have hlog := hno o.requestLog (.requestLog (requestRow envelope o taskId)) fun _ h => nomatch h
      split_ifs at h with h1 h2 h3
      · exact htask h
      · exact (List.mem_append.mp h).elim htask hmessage
      · exact (List.mem_append.mp h).elim (fun h => (List.mem_append.mp h).elim htask hmessage) hlog
      · exact hbuffered ⟨not_not.mp h1, not_not.mp h2, not_not.mp h3⟩

theorem lastTask_eq (h : codec.parseUuid envelope.taskId = some taskId)
    (hbuffered : o.task = .written ∧ o.message = .written ∧ o.requestLog = .written) :
    lastTask (processMessage codec cache envelope o).1 =
      if envelope.method ≠ "tasks/cancel" ∧ o.update = .written then
        some (updatedRow codec envelope o taskId (forwardToAgent codec cache envelope o taskId))
      else some (submittedRow codec envelope o taskId) := by
  rw [lastTask, processMessage_eq h hbuffered, List.filterMap_append, filterMap_publish, List.append_nil,
    List.filterMap_append, filterMap_forwardEffects]
  split <;> rfl

theorem state_of_published {trigger : PushTrigger} (h : .push trigger ∈ (processMessage codec cache envelope o).1) :
    trigger.state = some "completed" := by
  have hpublishes := published_iff.mp ⟨trigger, h⟩
  obtain ⟨taskId, hparse⟩ := Option.isSome_iff_exists.mp hpublishes.parsed
  rw [processMessage_eq hparse hpublishes.buffered] at h
  rcases List.mem_append.mp h with h | h
  · rcases List.mem_append.mp h with h | h
    · simp at h
    · exact absurd h push_not_mem_forwardEffects
  · obtain ⟨trigger', heq, hstate⟩ := mem_publish h
    cases heq
    exact hstate

theorem completed_iff (h : codec.parseUuid envelope.taskId = some taskId)
    (hbuffered : o.task = .written ∧ o.message = .written ∧ o.requestLog = .written) :
    (∃ row ∈ lastTask (processMessage codec cache envelope o).1, row.status = "completed") ↔
      Completes cache envelope o := by
  rw [lastTask_eq h hbuffered]
  split
  · next hupdate =>
    simp only [Option.mem_some_iff, exists_eq_left', updatedRow]
    cases hresult : forwardToAgent codec cache envelope o taskId with
    | ok forwarded => exact iff_of_true rfl ⟨hupdate.1, answers_iff.mp ⟨forwarded, hresult⟩, hupdate.2⟩
    | error e =>
      refine iff_of_false (show ¬"failed" = "completed" by decide) fun h => ?_
      obtain ⟨forwarded, hok⟩ := answers_iff.mpr h.answers
      rw [hresult] at hok
      cases hok
  · next hupdate =>
    refine iff_of_false ?_ fun h => hupdate ⟨h.forwards, h.recorded⟩
    rintro ⟨row, hrow, hstatus⟩
    cases hrow
    exact (show ¬"submitted" = "completed" by decide) hstatus

/-- Exactly when the triggers of a call tell the recorded state. -/
theorem processMessage_tells_iff (codec : Codec) (cache : RoutingCache) (envelope : FullEnvelope) (o : CallOutcomes) :
    TellsRecorded (processMessage codec cache envelope o).1 ↔
      (Publishes codec cache envelope o → Completes cache envelope o) := by
  constructor
  · intro h hpublishes
    obtain ⟨taskId, hparse⟩ := Option.isSome_iff_exists.mp hpublishes.parsed
    obtain ⟨trigger, hmem⟩ := published_iff.mpr hpublishes
    obtain ⟨row, hrow, hstate⟩ := h trigger hmem
    refine (completed_iff hparse hpublishes.buffered).mp ⟨row, hrow, ?_⟩
    exact (Option.some.inj ((state_of_published hmem).symm.trans hstate)).symm
  · intro h trigger hmem
    have hpublishes := published_iff.mp ⟨trigger, hmem⟩
    obtain ⟨taskId, hparse⟩ := Option.isSome_iff_exists.mp hpublishes.parsed
    obtain ⟨row, hrow, hstatus⟩ := (completed_iff hparse hpublishes.buffered).mpr (h hpublishes)
    exact ⟨row, hrow, (state_of_published hmem).trans (congrArg some hstatus.symm)⟩

end Told

/-! ### A call whose agent is not known -/

def plainCodec : Codec := ⟨fun _ => some 7, fun _ => "{}", fun _ => ""⟩

def webhookCache : RoutingCache := ⟨∅, Dict.ofPairs [("7", [⟨"https://hooks.example", none, none⟩])]⟩

def sendEnvelope : FullEnvelope where
  taskId := "7"
  method := "message/send"
  contextId := none
  sourceAgentId := 1
  targetAgentId := 2
  sourceOrgId := 3
  targetOrgId := 4
  message := .object []
  metadata := none
  pipelineFlags := none
  timestamp := 0

def allWritten : CallOutcomes where
  now := 0
  updatedAt := 1
  respondedAt _ := 1
  notifiedAt _ := 2
  newMessageId := 10
  newRequestId := 11
  newResponseId := fun n => 12 + n
  task := .written
  message := .written
  requestLog := .written
  http := .unreachable
  update := .written
  response _ := .written
  produce _ := .delivered

/-- The task is written as failed, and the webhook told that it is completed. -/
theorem failed_told_completed :
    ∃ row trigger, lastTask (processMessage plainCodec webhookCache sendEnvelope allWritten).1 = some row ∧
      row.status = "failed" ∧ .push trigger ∈ (processMessage plainCodec webhookCache sendEnvelope allWritten).1 ∧
      trigger.state = some "completed" := by
  refine ⟨_, _, rfl, rfl, List.mem_cons_of_mem _ (List.mem_cons_of_mem _ (List.mem_cons_of_mem _
    (List.mem_cons_of_mem _ List.mem_cons_self))), rfl⟩

/-! ### The rows of the worker -/

def Effect.table : Effect → Option Table
  | .task _ => some .tasks
  | .message _ => some .messages
  | .requestLog _ => some .requestLog
  | .push _ => none

/-- How many messages the agent responds with. -/
def responseCount (codec : Codec) (cache : RoutingCache) (envelope : FullEnvelope) (o : CallOutcomes) (taskId : Uuid) :
    Nat :=
  match forwardToAgent codec cache envelope o taskId with
  | .ok forwarded => forwarded.responseMessages.length
  | .error _ => 0

theorem processMessage_tables {codec : Codec} {cache : RoutingCache} {envelope : FullEnvelope} {o : CallOutcomes}
    {taskId : Uuid} (h : codec.parseUuid envelope.taskId = some taskId)
    (hbuffered : o.task = .written ∧ o.message = .written ∧ o.requestLog = .written) (hupdate : o.update = .written)
    (hresponse : ∀ i, o.response i = .written) (partition offset : Nat) :
    (processMessage codec cache envelope o).1.filterMap Effect.table =
      (messageRows partition offset ++ if envelope.method = "tasks/cancel" then []
        else updateRows partition offset (responseCount codec cache envelope o taskId)).map (·.table) := by
  have hpushed : (publish codec envelope o "completed" 0 (cache.getPushConfigs envelope.taskId)).1.filterMap
      Effect.table = [] := by
    refine List.filterMap_eq_nil_iff.mpr fun effect h => ?_
    obtain ⟨trigger, rfl, -⟩ := mem_publish h
    rfl
  have hmessages : ∀ l : List (MessageRow × Nat),
      (l.flatMap fun m => (o.response m.2).effect (.message m.1)).filterMap Effect.table =
        List.replicate l.length .messages := by
    intro l
    induction l with
    | nil => rfl
    | cons m l ih =>
      rw [List.flatMap_cons, List.filterMap_append, ih, hresponse, WriteOutcome.effect, if_pos rfl, List.length_cons,
        List.replicate_succ]
      rfl
  rw [processMessage_eq h hbuffered, List.filterMap_append, hpushed, List.append_nil, List.filterMap_append,
    List.map_append]
  refine congrArg₂ _ rfl ?_
  rw [forwardEffects, responseCount]
  split
  · rfl
  · dsimp only
    rw [List.filterMap_append, hupdate, WriteOutcome.effect, if_pos rfl, updateRows, List.map_cons, List.map_replicate]
    cases forwardToAgent codec cache envelope o taskId with
    | ok forwarded =>
      dsimp only
      rw [hmessages, List.length_zipIdx]
      rfl
    | error e => rfl

end Reiver.Herd
