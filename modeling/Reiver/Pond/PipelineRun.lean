import Reiver.Lib.Dataflow
import Reiver.Pond.PipelineDag

/-! # Pipelines are run

The model of `run` and `run_streaming` of `pipeline/executor.rs`. The nodes of a pipeline have equations: a source holds
what it reads, a transform what its function makes of the batches of the nodes before it. A batch run completes exactly
if the equations have a solution, and writes it (`run_dataflow`); a streaming run, which sends each batch through the
whole pipeline by itself, writes the same batches in another order (`runStreaming_dataflow`). -/

namespace Reiver.Pond

inductive ReadStrategy where
  | fullSync (table : String)
  | incremental (table cursorKey : String)
  | query (sql : String)
  | batchFetch (table : String) (batchSize : Nat) (maxRows : Option Nat)
  | cdcStream (table : String)
  | filter (table filter : String)
deriving DecidableEq

/-- What a node is told to do. -/
inductive StepConfig where
  | source (connectorName : String) (readStrategy : ReadStrategy)
  | transform (udfName : String) (params : List (String × String))
  | sink (connectorName table : String)
deriving DecidableEq

structure StepNode where
  id : Uuid
  nodeType : NodeType
  config : StepConfig
deriving DecidableEq

def ReadStrategy.kind : ReadStrategy → PipelineReadStrategy
  | .fullSync _ => .fullSync
  | .incremental _ _ => .incremental
  | .query _ => .query
  | .batchFetch _ _ _ => .batchFetch
  | .cdcStream _ => .cdcStream
  | .filter _ _ => .filter

def StepConfig.nodeConfig : StepConfig → NodeConfig
  | .source _ readStrategy => .source readStrategy.kind
  | .transform _ _ => .transform
  | .sink _ _ => .sink

def StepNode.dagNode (n : StepNode) : PipelineNode := ⟨n.id, n.nodeType, n.config.nodeConfig⟩

structure FetchOptions where
  incrementalKey : Option String := none
  lastValue : Option String := none
  batchSize : Option Nat := none
  maxRows : Option Nat := none

/-- A connector; `β` are the batches of rows. -/
structure Connector (β : Type) where
  supportsSqlPushdown : Bool
  supportsWrite : Bool
  executeSql : String → Except String (List β)
  fetchTableStream : String → FetchOptions → Except String (List (Except String β))
  writeTable : String → List β → Except String Nat

structure UdfFunction (β : Type) where
  returnsTable : Bool
  processBatch : Option (List (String × String)) → β → Except String β

/-- What the executor looks up; a function of WASM has its functions in a list. -/
structure PipelineEnv (β : Type) where
  connectors : String → Option (Connector β)
  udfs : String → Option (List (UdfFunction β))
  loadCursor : Uuid → Except String (Option String)
  numRows : β → Nat

/-- One call of `write_table`. -/
structure SinkWrite (β : Type) where
  node : Uuid
  connectorName : String
  table : String
  batches : List β
deriving DecidableEq

inductive StepResult where
  | read (rowsRead : Nat)
  | transformed (rowsIn rowsOut : Nat)
  | wrote (rowsWritten : Nat)
deriving DecidableEq

structure RunState (β : Type) where
  buffers : Uuid → Option (List β) := fun _ => none
  stepResults : List (Uuid × StepResult) := []
  written : List (SinkWrite β) := []

def RunState.held {β : Type} (s : RunState β) (nodeId : Uuid) : List β := (s.buffers nodeId).getD []

inductive RunOutcome where
  | rejected (e : DagValidationError)
  | completed (stepResults : List (Uuid × StepResult))
  | failed (error : String)
deriving DecidableEq

namespace PipelineExecutor

section Model
variable {β : Type} (env : PipelineEnv β) (nodes : List StepNode) (edges : List PipelineEdge)

/-! ### Nodes -/

def nodeMap (nodes : List StepNode) (id : Uuid) : Option StepNode := nodes.reverse.find? (·.id == id)

def rows (batches : List β) : Nat := (batches.map env.numRows).sum

def readStream (stream : Except String (List (Except String β))) : Except String (List β) :=
  match stream with
  | .error e => .error ("source stream failed: " ++ e)
  | .ok items => items.mapM fun item => item.mapError ("source stream error: " ++ ·)

def executeSource (nodeId : Uuid) (connectorName : String) (readStrategy : ReadStrategy) : Except String (List β) :=
  match env.connectors connectorName with
  | none => .error ("source connector '" ++ connectorName ++ "' not found")
  | some connector =>
    match readStrategy with
    | .query sql =>
      if connector.supportsSqlPushdown then (connector.executeSql sql).mapError ("source query failed: " ++ ·)
      else .error ("connector '" ++ connectorName ++ "' does not support SQL queries")
    | .filter table filter =>
      if connector.supportsSqlPushdown then
        (connector.executeSql ("SELECT * FROM " ++ table ++ " WHERE " ++ filter)).mapError
          ("source filter query failed: " ++ ·)
      else .error ("connector '" ++ connectorName ++ "' does not support SQL-based filtering")
    | .incremental table cursorKey =>
      match env.loadCursor nodeId with
      | .error e => .error e
      | .ok none => readStream (connector.fetchTableStream table {})
      | .ok (some lastValue) =>
        readStream (connector.fetchTableStream table { incrementalKey := some cursorKey, lastValue := some lastValue })
    | .fullSync table => readStream (connector.fetchTableStream table {})
    | .batchFetch table batchSize maxRows =>
      readStream (connector.fetchTableStream table { batchSize := some batchSize, maxRows })
    | .cdcStream _ => .error "CdcStream sources must use run_streaming(), not batch run()"

/-- The first function of a UDF, which must return a table. -/
def loadUdf (udfName : String) : Except String (UdfFunction β) :=
  match env.udfs udfName with
  | none => .error ("UDF '" ++ udfName ++ "' not found")
  | some [] => .error ("UDF '" ++ udfName ++ "' has no functions")
  | some (f :: _) => if f.returnsTable then .ok f else .error "transform UDFs must return a table, not a scalar"

def configParams (params : List (String × String)) : Option (List (String × String)) :=
  if params.isEmpty then none else some params

def executeTransform (inputBatches : List β) (udfName : String) (params : List (String × String)) :
    Except String (List β) :=
  match loadUdf env udfName with
  | .error e => .error e
  | .ok f => inputBatches.mapM (f.processBatch (configParams params))

def executeSink (batches : List β) (connectorName table : String) : Except String Nat :=
  match env.connectors connectorName with
  | none => .error ("sink connector '" ++ connectorName ++ "' not found")
  | some connector =>
    if connector.supportsWrite then
      if batches.isEmpty then .ok 0 else (connector.writeTable table batches).mapError ("sink write failed: " ++ ·)
    else .error ("sink connector '" ++ connectorName ++ "' does not support writing")

/-! ### Runs -/

/-- The batches of the nodes that a node has edges from, once for each edge. -/
def inputBatches (edges : List PipelineEdge) (flow : Uuid → List β) (nodeId : Uuid) : List β :=
  (Dag.incoming edges nodeId).flatMap flow

/-- The arms of both loops for the nodes that are not sources. -/
def downstreamStep (s : RunState β) (nodeId : Uuid) : StepConfig → Except String (RunState β)
  | .source _ _ => .ok s
  | .transform udfName params =>
    let input := inputBatches edges s.held nodeId
    (executeTransform env input udfName params).map fun output =>
      { s with
        buffers := Function.update s.buffers nodeId (some output)
        stepResults := s.stepResults ++ [(nodeId, .transformed (rows env input) (rows env output))] }
  | .sink connectorName table =>
    let input := inputBatches edges s.held nodeId
    (executeSink env input connectorName table).map fun rowsWritten =>
      { s with
        stepResults := s.stepResults ++ [(nodeId, .wrote rowsWritten)]
        written := s.written ++ if input.isEmpty then [] else [⟨nodeId, connectorName, table, input⟩] }

/-- Indexing the map with an id that it does not have panics. -/
def runStep (s : RunState β) (nodeId : Uuid) : Except String (RunState β) :=
  match (nodeMap nodes nodeId).map StepNode.config with
  | none => .error "no entry found for key"
  | some (.source connectorName readStrategy) =>
    (executeSource env nodeId connectorName readStrategy).map fun batches =>
      { s with
        buffers := Function.update s.buffers nodeId (some batches)
        stepResults := s.stepResults ++ [(nodeId, .read (rows env batches))] }
  | some config => downstreamStep env edges s nodeId config

def keeping (step : RunState β → Uuid → Except String (RunState β)) (s : RunState β) (nodeId : Uuid) :
    RunState β × Option String :=
  match step s nodeId with
  | .ok s' => (s', none)
  | .error e => (s, some e)

/-- How a batch run ends and what it has written. The hash maps are gone through in the order `iteration`. -/
def run (iteration : List Uuid) : Option (RunOutcome × List (SinkWrite β)) :=
  (Dag.topologicalSort iteration (nodes.map StepNode.dagNode) edges).map fun
    | .error e => (.rejected e, [])
    | .ok sortedIds =>
      match attempt (keeping (runStep env nodes edges)) sortedIds {} with
      | (s, none) => (.completed s.stepResults, s.written)
      | (s, some e) => (.failed e, s.written)

/-! ### Streaming -/

/-- The counts of all sources and the cursors that were saved. -/
structure StreamState (β : Type) where
  rowsRead : Nat := 0
  rowsWritten : Nat := 0
  cursors : Uuid → Option String := fun _ => none
  written : List (SinkWrite β) := []

inductive StreamOutcome where
  | notStreaming
  | rejected (e : DagValidationError)
  | completed (rowsRead rowsWritten : Nat)
  | failed (error : String)
deriving DecidableEq

def isStreaming (nodes : List StepNode) : Bool := nodes.any fun n => n.dagNode.isCdc

def streamStep (s : RunState β) (nodeId : Uuid) : Except String (RunState β) :=
  match (nodeMap nodes nodeId).map StepNode.config with
  | none => .error "no entry found for key"
  | some config => downstreamStep env edges s nodeId config

def rowsWrittenIn (s : RunState β) : Nat :=
  (s.stepResults.map fun r =>
    match r.2 with
    | .wrote n => n
    | _ => 0).sum

/-- One batch goes through the nodes after the sources, in buffers of its own. -/
def streamBatch (downstreamIds : List Uuid) (sourceId : Uuid) (s : StreamState β) (batch : β) :
    StreamState β × Option String :=
  let rowsRead := s.rowsRead + env.numRows batch
  match attempt (keeping (streamStep env nodes edges)) downstreamIds
    { buffers := Function.update (fun _ => none) sourceId (some [batch]) } with
  | (pass, failure) =>
    let s :=
      { s with rowsRead, rowsWritten := s.rowsWritten + rowsWrittenIn pass, written := s.written ++ pass.written }
    match failure with
    | some e => (s, some e)
    | none => ({ s with cursors := Function.update s.cursors sourceId (some (toString rowsRead)) }, none)

def streamItem (downstreamIds : List Uuid) (sourceId : Uuid) (s : StreamState β) :
    Except String β → StreamState β × Option String
  | .error e => (s, some ("source stream error: " ++ e))
  | .ok batch => streamBatch env nodes edges downstreamIds sourceId s batch

/-- The cursor is loaded but the stream is read from where the connector starts. -/
def openStream (sourceId : Uuid) (connectorName : String) (readStrategy : ReadStrategy) :
    Except String (List (Except String β)) :=
  match readStrategy with
  | .cdcStream table =>
    match env.connectors connectorName with
    | none => .error ("source connector '" ++ connectorName ++ "' not found")
    | some connector =>
      match env.loadCursor sourceId with
      | .error e => .error e
      | .ok _ => (connector.fetchTableStream table {}).mapError ("source stream failed: " ++ ·)
  | _ => .error "streaming pipeline source must use CdcStream strategy"

/-- A source is read until its stream ends or, after `taken` items, the shutdown is seen. -/
def streamSource (taken : Uuid → Nat) (downstreamIds : List Uuid) (s : StreamState β)
    (source : Uuid × String × ReadStrategy) : StreamState β × Option String :=
  match openStream env source.1 source.2.1 source.2.2 with
  | .error e => (s, some e)
  | .ok items =>
    attempt (fun s item => streamItem env nodes edges downstreamIds source.1 s item) (items.take (taken source.1)) s

def sourceNodes (sortedIds : List Uuid) : List (Uuid × String × ReadStrategy) :=
  sortedIds.filterMap fun id =>
    match (nodeMap nodes id).map StepNode.config with
    | some (.source connectorName readStrategy) => some (id, connectorName, readStrategy)
    | _ => none

def isSource (config : Option StepConfig) : Bool :=
  match config with
  | some (.source _ _) => true
  | _ => false

def downstreamIds (sortedIds : List Uuid) : List Uuid :=
  sortedIds.filter fun id => !isSource ((nodeMap nodes id).map StepNode.config)

def runStreaming (taken : Uuid → Nat) (iteration : List Uuid) : Option (StreamOutcome × List (SinkWrite β)) :=
  if isStreaming nodes then
    (Dag.topologicalSort iteration (nodes.map StepNode.dagNode) edges).map fun
      | .error e => (.rejected e, [])
      | .ok sortedIds =>
        match attempt (streamSource env nodes edges taken (downstreamIds nodes sortedIds)) (sourceNodes nodes sortedIds)
          {} with
        | (s, none) => (.completed s.rowsRead s.rowsWritten, s.written)
        | (s, some e) => (.failed e, s.written)
  else some (.notStreaming, [])

/-! ### Equations -/

def transformBatch (udfName : String) (params : List (String × String)) (batch : β) : Except String β :=
  match loadUdf env udfName with
  | .error e => .error e
  | .ok f => f.processBatch (configParams params) batch

/-- What a node holds, by what the nodes before it hold. -/
def flowEquation (reads : Uuid → Except String (List β)) (nodeId : Uuid) (flow : Uuid → List β) :
    Except String (List β) :=
  match (nodeMap nodes nodeId).map StepNode.config with
  | none => .error "no entry found for key"
  | some (.source _ _) => reads nodeId
  | some (.transform udfName params) => (inputBatches edges flow nodeId).mapM (transformBatch env udfName params)
  | some (.sink _ _) => .ok []

def sourceReads (nodeId : Uuid) : Except String (List β) :=
  match (nodeMap nodes nodeId).map StepNode.config with
  | some (.source connectorName readStrategy) => executeSource env nodeId connectorName readStrategy
  | _ => .ok []

/-- A transform finds its function, and a sink takes what is sent to it. -/
def Ready (flow : Uuid → List β) (nodeId : Uuid) : Prop :=
  match (nodeMap nodes nodeId).map StepNode.config with
  | some (.transform udfName _) => ∃ f, loadUdf env udfName = .ok f
  | some (.sink connectorName table) =>
    ∃ rowsWritten, executeSink env (inputBatches edges flow nodeId) connectorName table = .ok rowsWritten
  | _ => True

/-- The write of a sink; nothing is written of no batches. -/
def nodeWrites (flow : Uuid → List β) (nodeId : Uuid) : List (SinkWrite β) :=
  match (nodeMap nodes nodeId).map StepNode.config with
  | some (.sink connectorName table) =>
    if (inputBatches edges flow nodeId).isEmpty then []
    else [⟨nodeId, connectorName, table, inputBatches edges flow nodeId⟩]
  | _ => []

def feeds (nodeId : Uuid) : List Uuid :=
  if isSource ((nodeMap nodes nodeId).map StepNode.config) then [] else Dag.incoming edges nodeId

end Model

/-! ### Steps -/

section Steps
variable {β : Type} {env : PipelineEnv β} {nodes : List StepNode} {edges : List PipelineEdge}
  {reads : Uuid → Except String (List β)} {f g : Uuid → List β} {s s' : RunState β} {u v : Uuid}

theorem isSource_iff {config : Option StepConfig} :
    isSource config = true ↔ ∃ connectorName readStrategy, config = some (.source connectorName readStrategy) := by
  constructor
  · intro h
    match config, h with
    | some (.source connectorName readStrategy), _ => exact ⟨connectorName, readStrategy, rfl⟩
  · rintro ⟨_, _, rfl⟩
    rfl

theorem executeTransform_ok {input output : List β} {udfName : String} {params : List (String × String)} :
    executeTransform env input udfName params = .ok output ↔
      (∃ f, loadUdf env udfName = .ok f) ∧ input.mapM (transformBatch env udfName params) = .ok output := by
  have hbatch : transformBatch env udfName params = fun batch => transformBatch env udfName params batch := rfl
  rw [executeTransform]
  cases hload : loadUdf env udfName with
  | error e => exact iff_of_false (fun h => by cases h) fun ⟨⟨_, h⟩, _⟩ => by cases h
  | ok f =>
    have hsame : transformBatch env udfName params = f.processBatch (configParams params) := by
      funext batch
      rw [transformBatch, hload]
    rw [hsame]
    exact (and_iff_right ⟨f, rfl⟩).symm

theorem inputBatches_congr (hsource : isSource ((nodeMap nodes v).map StepNode.config) = false)
    (h : ∀ u ∈ feeds nodes edges v, f u = g u) : inputBatches edges f v = inputBatches edges g v := by
  rw [feeds, hsource, if_neg Bool.false_ne_true] at h
  exact List.flatMap_congr h

theorem flowEquation_congr (h : ∀ u ∈ feeds nodes edges v, f u = g u) :
    flowEquation env nodes edges reads v f = flowEquation env nodes edges reads v g := by
  rw [flowEquation, flowEquation]
  cases hconfig : (nodeMap nodes v).map StepNode.config with
  | none => rfl
  | some config =>
    cases config with
    | source => rfl
    | sink => rfl
    | transform udfName params => rw [inputBatches_congr (by rw [hconfig]; rfl) h]

theorem ready_congr (h : ∀ u ∈ feeds nodes edges v, f u = g u) :
    Ready env nodes edges f v ↔ Ready env nodes edges g v := by
  rw [Ready, Ready]
  cases hconfig : (nodeMap nodes v).map StepNode.config with
  | none => exact Iff.rfl
  | some config =>
    cases config with
    | source => exact Iff.rfl
    | transform => exact Iff.rfl
    | sink connectorName table => rw [inputBatches_congr (by rw [hconfig]; rfl) h]

theorem nodeWrites_congr (h : ∀ u ∈ feeds nodes edges v, f u = g u) :
    nodeWrites nodes edges f v = nodeWrites nodes edges g v := by
  rw [nodeWrites, nodeWrites]
  cases hconfig : (nodeMap nodes v).map StepNode.config with
  | none => rfl
  | some config =>
    cases config with
    | source => rfl
    | transform => rfl
    | sink connectorName table => rw [inputBatches_congr (by rw [hconfig]; rfl) h]

structure Steps (env : PipelineEnv β) (nodes : List StepNode) (edges : List PipelineEdge)
    (reads : Uuid → Except String (List β)) (v : Uuid) (s s' : RunState β) : Prop where
  equation : flowEquation env nodes edges reads v s.held = .ok (s'.held v)
  others : ∀ u, u ≠ v → s'.buffers u = s.buffers u
  ready : Ready env nodes edges s.held v
  written : s'.written = s.written ++ nodeWrites nodes edges s.held v

theorem held_update (batches : List β) (results : List (Uuid × StepResult)) :
    RunState.held { s with buffers := Function.update s.buffers v (some batches), stepResults := results } v =
      batches := by
  rw [RunState.held]
  dsimp only
  rw [Function.update_self, Option.getD_some]

theorem downstreamStep_ok {config : StepConfig} (hconfig : (nodeMap nodes v).map StepNode.config = some config)
    (hsource : isSource (some config) = false) (hempty : s.buffers v = none)
    (hstep : downstreamStep env edges s v config = .ok s') : Steps env nodes edges reads v s s' := by
  cases config with
  | source => cases hsource
  | transform udfName params =>
    obtain ⟨output, houtput, rfl⟩ := map_ok hstep
    obtain ⟨hload, hmap⟩ := executeTransform_ok.mp houtput
    refine ⟨?_, fun u hu => Function.update_of_ne hu _ _, ?_, ?_⟩
    · rw [held_update, flowEquation, hconfig]
      exact hmap
    · rw [Ready, hconfig]
      exact hload
    · rw [nodeWrites, hconfig, List.append_nil]
  | sink connectorName table =>
    obtain ⟨rowsWritten, hwrite, rfl⟩ := map_ok hstep
    refine ⟨?_, fun _ _ => rfl, ?_, ?_⟩
    · rw [flowEquation, hconfig, RunState.held, hempty]
      rfl
    · rw [Ready, hconfig]
      exact ⟨rowsWritten, hwrite⟩
    · rw [nodeWrites, hconfig]

theorem runStep_ok (hempty : s.buffers v = none) (hstep : runStep env nodes edges s v = .ok s') :
    Steps env nodes edges (sourceReads env nodes) v s s' := by
  rw [runStep] at hstep
  cases hconfig : (nodeMap nodes v).map StepNode.config with
  | none =>
    rw [hconfig] at hstep
    cases hstep
  | some config =>
    rw [hconfig] at hstep
    cases config with
    | source connectorName readStrategy =>
      obtain ⟨batches, hread, rfl⟩ := map_ok hstep
      refine ⟨?_, fun u hu => Function.update_of_ne hu _ _, ?_, ?_⟩
      · rw [held_update, flowEquation, hconfig]
        dsimp only
        rw [sourceReads, hconfig]
        exact hread
      · rw [Ready, hconfig]
        trivial
      · rw [nodeWrites, hconfig, List.append_nil]
    | transform udfName params => exact downstreamStep_ok hconfig rfl hempty hstep
    | sink connectorName table => exact downstreamStep_ok hconfig rfl hempty hstep

theorem streamStep_ok (reads : Uuid → Except String (List β))
    (hsource : isSource ((nodeMap nodes v).map StepNode.config) = false) (hempty : s.buffers v = none)
    (hstep : streamStep env nodes edges s v = .ok s') : Steps env nodes edges reads v s s' := by
  rw [streamStep] at hstep
  cases hconfig : (nodeMap nodes v).map StepNode.config with
  | none =>
    rw [hconfig] at hstep
    cases hstep
  | some config =>
    rw [hconfig] at hstep hsource
    exact downstreamStep_ok hconfig hsource hempty hstep

theorem exists_runStep {batches : List β}
    (hequation : flowEquation env nodes edges (sourceReads env nodes) v s.held = .ok batches)
    (hready : Ready env nodes edges s.held v) : ∃ s', runStep env nodes edges s v = .ok s' := by
  rw [flowEquation] at hequation
  rw [Ready] at hready
  rw [runStep]
  cases hconfig : (nodeMap nodes v).map StepNode.config with
  | none =>
    rw [hconfig] at hequation
    cases hequation
  | some config =>
    rw [hconfig] at hequation hready
    cases config with
    | source connectorName readStrategy =>
      dsimp only at hequation
      rw [sourceReads, hconfig] at hequation
      dsimp only at hequation ⊢
      rw [hequation]
      exact ⟨_, rfl⟩
    | transform udfName params =>
      have htransform := executeTransform_ok.mpr ⟨hready, hequation⟩
      dsimp only [downstreamStep]
      rw [htransform]
      exact ⟨_, rfl⟩
    | sink connectorName table =>
      obtain ⟨rowsWritten, hwrite⟩ := hready
      dsimp only [downstreamStep]
      rw [show executeSink env (inputBatches edges s.held v) connectorName table = .ok rowsWritten from hwrite]
      exact ⟨_, rfl⟩

end Steps

/-! ### Batch runs -/

section Runs
variable {β : Type} {env : PipelineEnv β} {nodes : List StepNode} {edges : List PipelineEdge}
  {reads : Uuid → Except String (List β)} {flow : Uuid → List β} {s s' : RunState β} {v : Uuid}
  {order done after iteration : List Uuid}

/-- What the nodes hold solves their equations, and they are ready for it. -/
structure Solves (env : PipelineEnv β) (nodes : List StepNode) (edges : List PipelineEdge)
    (reads : Uuid → Except String (List β)) (done : List Uuid) (flow : Uuid → List β) : Prop where
  solution : Solution (flowEquation env nodes edges reads) done flow
  ready : ∀ v ∈ done, Ready env nodes edges flow v

theorem Solves.mono (h : Solves env nodes edges reads order flow) (hsub : ∀ v ∈ done, v ∈ order) :
    Solves env nodes edges reads done flow :=
  ⟨fun v hv => h.solution v (hsub v hv), fun v hv => h.ready v (hsub v hv)⟩

/-- The nodes `done` have come through. -/
structure Reached (env : PipelineEnv β) (nodes : List StepNode) (edges : List PipelineEdge)
    (reads : Uuid → Except String (List β)) (done : List Uuid) (s : RunState β) : Prop
    extends Solves env nodes edges reads done s.held where
  fresh : ∀ v, v ∉ done → s.buffers v = none
  written : s.written = done.flatMap (nodeWrites nodes edges s.held)

theorem looksBack (hback : Backward (feeds nodes edges) order) : LooksBack (flowEquation env nodes edges reads) order :=
  fun before v after hsplit _ _ hfg => flowEquation_congr fun u hu => hfg u (hback before v after hsplit u hu)

theorem feeds_subset (hback : Backward (feeds nodes edges) (done ++ after)) (hv : v ∈ done) :
    ∀ u ∈ feeds nodes edges v, u ∈ done := by
  obtain ⟨pre, post, rfl⟩ := List.append_of_mem hv
  intro u hu
  exact List.mem_append_left _ (hback pre v (post ++ after) (by simp) u hu)

theorem Reached.step (hback : Backward (feeds nodes edges) (done ++ v :: after)) (hnodup : (done ++ v :: after).Nodup)
    (h : Reached env nodes edges reads done s) (hstep : Steps env nodes edges reads v s s') :
    Reached env nodes edges reads (done ++ [v]) s' := by
  have hnew : v ∉ done := fun hv => List.disjoint_of_nodup_append hnodup hv List.mem_cons_self
  have hother : ∀ u, u ≠ v → s'.held u = s.held u := fun u hu => by rw [RunState.held, RunState.held, hstep.others u hu]
  have hagree : ∀ u ∈ done, s'.held u = s.held u := fun u hu => hother u (ne_of_mem_of_not_mem hu hnew)
  have hupdate : s'.held = Function.update s.held v (s'.held v) := by
    funext u
    by_cases hu : u = v
    · rw [hu, Function.update_self]
    · rw [hother u hu, Function.update_of_ne hu]
  have hlast : ∀ u ∈ feeds nodes edges v, s'.held u = s.held u := fun u hu => hagree u (hback done v after rfl u hu)
  refine ⟨⟨?_, fun u hu => ?_⟩, fun u hu => ?_, ?_⟩
  · rw [hupdate]
    exact h.solution.extend (looksBack hback) hnew hstep.equation
  · rcases List.mem_append.mp hu with hu | hu
    · exact (ready_congr fun w hw => hagree w (feeds_subset hback hu w hw)).mpr (h.ready u hu)
    · obtain rfl := List.mem_singleton.mp hu
      exact (ready_congr hlast).mpr hstep.ready
  · obtain ⟨hu, hne⟩ := not_or.mp (fun hmem => hu (List.mem_append.mpr hmem))
    rw [hstep.others u fun heq => hne (List.mem_singleton.mpr heq)]
    exact h.fresh u hu
  · have hkept : done.flatMap (nodeWrites nodes edges s'.held) = done.flatMap (nodeWrites nodes edges s.held) :=
      List.flatMap_congr fun u hu => nodeWrites_congr fun w hw => hagree w (feeds_subset hback hu w hw)
    rw [hstep.written, h.written, List.flatMap_append, List.flatMap_singleton, hkept, nodeWrites_congr hlast]

theorem keeping_ok {step : RunState β → Uuid → Except String (RunState β)} (h : keeping step s v = (s', none)) :
    step s v = .ok s' := by
  rw [keeping] at h
  cases hstep : step s v with
  | ok t =>
    rw [hstep] at h
    cases h
    rfl
  | error e =>
    rw [hstep] at h
    cases h

theorem keeping_error {step : RunState β → Uuid → Except String (RunState β)} {e : String}
    (h : keeping step s v = (s', some e)) : s' = s ∧ step s v = .error e := by
  rw [keeping] at h
  cases hstep : step s v with
  | ok t =>
    rw [hstep] at h
    cases h
  | error e' =>
    rw [hstep] at h
    cases h
    exact ⟨rfl, rfl⟩

theorem attempt_reached (env : PipelineEnv β) (hback : Backward (feeds nodes edges) order) (hnodup : order.Nodup) :
    (∃ s, attempt (keeping (runStep env nodes edges)) order {} = (s, none) ∧
        Reached env nodes edges (sourceReads env nodes) order s) ∨
      ∃ done v after s e, order = done ++ v :: after ∧ Reached env nodes edges (sourceReads env nodes) done s ∧
        runStep env nodes edges s v = .error e ∧
        attempt (keeping (runStep env nodes edges)) order {} = (s, some e) := by
  have hstart : Reached env nodes edges (sourceReads env nodes) [] ({} : RunState β) :=
    ⟨⟨fun v hv => absurd hv List.not_mem_nil, fun v hv => absurd hv List.not_mem_nil⟩, fun _ _ => rfl, rfl⟩
  rcases attempt_inv (Reached env nodes edges (sourceReads env nodes)) hstart
    (fun before v after s s' (hsplit : order = before ++ v :: after) hs
      (hkeep : keeping (runStep env nodes edges) s v = (s', none)) => by
      subst hsplit
      have hnew : v ∉ before := fun hv => List.disjoint_of_nodup_append hnodup hv List.mem_cons_self
      exact hs.step hback hnodup (runStep_ok (hs.fresh v hnew) (keeping_ok hkeep)))
    with hall | ⟨done, v, after, s, s', e, hsplit, hs, hkeep, hresult⟩
  · exact .inl hall
  · obtain ⟨rfl, hfail⟩ := keeping_error hkeep
    exact .inr ⟨done, v, after, s', e, hsplit, hs, hfail, hresult⟩

theorem Reached.no_error (hback : Backward (feeds nodes edges) (done ++ v :: after))
    (h : Reached env nodes edges (sourceReads env nodes) done s)
    (hflow : Solves env nodes edges (sourceReads env nodes) (done ++ v :: after) flow) (e : String) :
    runStep env nodes edges s v ≠ .error e := by
  have hunique : ∀ u ∈ done, s.held u = flow u :=
    h.solution.unique (looksBack (fun before u rest hsplit => hback before u (rest ++ v :: after) (by simp [hsplit])))
      fun u hu => hflow.solution u (List.mem_append_left _ hu)
  have hfeeds : ∀ u ∈ feeds nodes edges v, s.held u = flow u := fun u hu => hunique u (hback done v after rfl u hu)
  have hlast : v ∈ done ++ v :: after := List.mem_append_right _ List.mem_cons_self
  obtain ⟨s', hstep⟩ := exists_runStep ((flowEquation_congr hfeeds).trans (hflow.solution v hlast))
    ((ready_congr hfeeds).mpr (hflow.ready v hlast))
  rw [hstep]
  exact fun h => by cases h

theorem backward_of_sorted (hnodup : order.Nodup)
    (hforward : ∀ e ∈ edges, order.idxOf e.fromNodeId < order.idxOf e.toNodeId) :
    Backward (feeds nodes edges) order := by
  rintro before v after rfl u hu
  have hedge : ∃ e ∈ edges, e.toNodeId = v ∧ e.fromNodeId = u := by
    rw [feeds] at hu
    split_ifs at hu
    · exact absurd hu List.not_mem_nil
    · rw [Dag.incoming, Dag.pushAll_eq] at hu
      obtain ⟨e, he, rfl⟩ := List.mem_map.mp hu
      obtain ⟨hmem, hto⟩ := List.mem_filter.mp he
      exact ⟨e, hmem, of_decide_eq_true hto, rfl⟩
  obtain ⟨e, he, rfl, rfl⟩ := hedge
  have hnew : e.toNodeId ∉ before := fun hv => List.disjoint_of_nodup_append hnodup hv List.mem_cons_self
  have hlt := hforward e he
  rw [List.idxOf_append_of_notMem hnew, List.idxOf_cons_self, Nat.add_zero] at hlt
  by_contra hnot
  rw [List.idxOf_append_of_notMem hnot] at hlt
  omega

theorem nodeIds_dagNode : Dag.nodeIds (nodes.map StepNode.dagNode) = nodes.map StepNode.id := by
  rw [Dag.nodeIds, List.map_map]
  rfl

theorem sorted_spec (edges : List PipelineEdge) (hids : (nodes.map StepNode.id).Nodup)
    (hiteration : iteration.Perm (nodes.map StepNode.id)) :
    ∃ result, Dag.topologicalSort iteration (nodes.map StepNode.dagNode) edges = some result ∧
      ((∃ order, result = .ok order) ↔ Dag.Valid (nodes.map StepNode.dagNode) edges) ∧
      ∀ order, result = .ok order → order.Perm (nodes.map StepNode.id) ∧
        ∀ e ∈ edges, order.idxOf e.fromNodeId < order.idxOf e.toNodeId := by
  rw [← nodeIds_dagNode] at hids hiteration ⊢
  exact Dag.topologicalSort_exact hids hiteration

/-- A run completes exactly if the pipeline is valid and the equations of its nodes have a solution for which they are
    ready, and has then written what the solution sends to the sinks, whatever the order of the hash maps. However it
    ends, each sink among the nodes that came through has written once what the nodes before it sent. -/
theorem run_dataflow (hids : (nodes.map StepNode.id).Nodup) (hiteration : iteration.Perm (nodes.map StepNode.id)) :
    ∃ outcome written, run env nodes edges iteration = some (outcome, written) ∧
      ((∃ results, outcome = .completed results) ↔ Dag.Valid (nodes.map StepNode.dagNode) edges ∧
        ∃ flow, Solves env nodes edges (sourceReads env nodes) (nodes.map StepNode.id) flow) ∧
      (∀ flow, Dag.Valid (nodes.map StepNode.dagNode) edges →
        Solves env nodes edges (sourceReads env nodes) (nodes.map StepNode.id) flow →
          written.Perm ((nodes.map StepNode.id).flatMap (nodeWrites nodes edges flow))) ∧
      ∃ done flow, done.Nodup ∧ (∀ v ∈ done, v ∈ nodes.map StepNode.id) ∧
        (∀ e ∈ edges, e.toNodeId ∈ done → e.fromNodeId ∈ done) ∧
        Solves env nodes edges (sourceReads env nodes) done flow ∧
        written = done.flatMap (nodeWrites nodes edges flow) := by
  obtain ⟨result, hsort, hvalid, horder⟩ := sorted_spec edges hids hiteration
  rw [run, hsort, Option.map_some]
  cases result with
  | error e =>
    have hinvalid : ¬Dag.Valid (nodes.map StepNode.dagNode) edges := fun h => by
      obtain ⟨_, hok⟩ := hvalid.mpr h
      cases hok
    exact ⟨_, _, rfl, iff_of_false (fun ⟨_, h⟩ => by cases h) fun h => hinvalid h.1, fun _ h _ => absurd h hinvalid, [],
      fun _ => [], List.nodup_nil, fun v hv => absurd hv List.not_mem_nil, fun _ _ hv => absurd hv List.not_mem_nil,
      ⟨fun v hv => absurd hv List.not_mem_nil, fun v hv => absurd hv List.not_mem_nil⟩, rfl⟩
  | ok order =>
    obtain ⟨hperm, hforward⟩ := horder order rfl
    have hnodup := hperm.nodup_iff.mpr hids
    have hback : Backward (feeds nodes edges) order := backward_of_sorted hnodup hforward
    have hmem : ∀ v, v ∈ order ↔ v ∈ nodes.map StepNode.id := fun v => hperm.mem_iff
    dsimp only
    rcases attempt_reached env hback hnodup with ⟨s, hrun, hs⟩ | ⟨done, v, after, s, e, rfl, hs, hfail, hrun⟩
    · rw [hrun]
      refine ⟨_, _, rfl, iff_of_true ⟨_, rfl⟩ ⟨hvalid.mp ⟨order, rfl⟩, s.held, ?_⟩, fun flow _ hflow => ?_,
        order, s.held, hnodup, fun v hv => (hmem v).mp hv, fun e he _ => ?_, hs.toSolves, hs.written⟩
      · exact hs.toSolves.mono fun v hv => (hmem v).mpr hv
      · have hsame := hs.solution.unique (looksBack hback) (hflow.mono fun v hv => (hmem v).mp hv).solution
        have hwrites : order.flatMap (nodeWrites nodes edges s.held) = order.flatMap (nodeWrites nodes edges flow) :=
          List.flatMap_congr fun v hv => nodeWrites_congr fun u hu =>
            hsame u (feeds_subset (by rwa [List.append_nil] : Backward _ (order ++ [])) hv u hu)
        rw [hs.written, hwrites]
        exact hperm.flatMap_right _
      · exact List.idxOf_lt_length_iff.mp ((hforward e he).trans_le List.idxOf_le_length)
    · rw [hrun]
      have hunsolved : ∀ flow, ¬Solves env nodes edges (sourceReads env nodes) (nodes.map StepNode.id) flow :=
        fun flow hflow => hs.no_error hback (hflow.mono fun u hu => (hmem u).mp hu) e hfail
      refine ⟨_, _, rfl, iff_of_false (fun ⟨_, h⟩ => by cases h) fun ⟨_, flow, hflow⟩ => hunsolved flow hflow,
        fun flow _ hflow => absurd hflow (hunsolved flow), done, s.held, (List.nodup_append.mp hnodup).1,
        fun u hu => (hmem u).mp (List.mem_append_left _ hu), fun e he hto => ?_, hs.toSolves, hs.written⟩
      have hlt := hforward e he
      rw [List.idxOf_append_of_mem hto] at hlt
      have hin := List.idxOf_lt_length_iff.mpr hto
      by_contra hnot
      rw [List.idxOf_append_of_notMem hnot] at hlt
      omega

def numbers : Connector (List Nat) where
  supportsSqlPushdown := false
  supportsWrite := true
  executeSql _ := .error "SQL execution not supported by this connector"
  fetchTableStream table _ := if table = "odd" then .ok [.ok [1], .ok [3, 5]] else .ok [.ok [2]]
  writeTable _ batches := .ok batches.flatten.length

def doublingEnv : PipelineEnv (List Nat) where
  connectors connectorName := if connectorName = "numbers" then some numbers else none
  udfs udfName := if udfName = "double" then some [⟨true, fun _ batch => .ok (batch.map (2 * ·))⟩] else none
  loadCursor _ := .ok none
  numRows := List.length

/-- The odd numbers go into the sink, and the doubles of all numbers. -/
def doublingNodes (readStrategy : String → ReadStrategy) : List StepNode :=
  [⟨1, .source, .source "numbers" (readStrategy "odd")⟩, ⟨2, .source, .source "numbers" (readStrategy "even")⟩,
    ⟨3, .transform, .transform "double" []⟩, ⟨4, .sink, .sink "numbers" "all"⟩]

def doublingEdges : List PipelineEdge := [⟨1, 3⟩, ⟨2, 3⟩, ⟨3, 4⟩, ⟨1, 4⟩]

theorem run_dataflow_doubling :
    ∃ outcome written, run doublingEnv (doublingNodes .fullSync) doublingEdges [4, 2, 3, 1] = some (outcome, written) ∧
      ((∃ results, outcome = .completed results) ↔
        Dag.Valid ((doublingNodes .fullSync).map StepNode.dagNode) doublingEdges ∧
          ∃ flow, Solves doublingEnv (doublingNodes .fullSync) doublingEdges
            (sourceReads doublingEnv (doublingNodes .fullSync)) ((doublingNodes .fullSync).map StepNode.id) flow) ∧
      (∀ flow, Dag.Valid ((doublingNodes .fullSync).map StepNode.dagNode) doublingEdges →
        Solves doublingEnv (doublingNodes .fullSync) doublingEdges (sourceReads doublingEnv (doublingNodes .fullSync))
          ((doublingNodes .fullSync).map StepNode.id) flow →
            written.Perm (((doublingNodes .fullSync).map StepNode.id).flatMap
              (nodeWrites (doublingNodes .fullSync) doublingEdges flow))) ∧
      ∃ done flow, done.Nodup ∧ (∀ v ∈ done, v ∈ (doublingNodes .fullSync).map StepNode.id) ∧
        (∀ e ∈ doublingEdges, e.toNodeId ∈ done → e.fromNodeId ∈ done) ∧
        Solves doublingEnv (doublingNodes .fullSync) doublingEdges
          (sourceReads doublingEnv (doublingNodes .fullSync)) done flow ∧
        written = done.flatMap (nodeWrites (doublingNodes .fullSync) doublingEdges flow) :=
  run_dataflow (by decide) (by decide)

example : run doublingEnv (doublingNodes .fullSync) doublingEdges [4, 2, 3, 1] =
    some (.completed [(2, .read 1), (1, .read 3), (3, .transformed 4 4), (4, .wrote 7)],
      [⟨4, "numbers", "all", [[2], [6, 10], [4], [1], [3, 5]]⟩]) := by decide

end Runs

/-! ### Flows -/

section StreamFlows
variable {β : Type} {env : PipelineEnv β} {nodes : List StepNode} {edges : List PipelineEdge} {reads : Uuid → List β}
  {f : Uuid → List β} {M : Uuid → Multiset β} {u v : Uuid} {order : List Uuid}

def isTransform (config : Option StepConfig) : Bool :=
  match config with
  | some (.transform _ _) => true
  | _ => false

def isSink (config : Option StepConfig) : Bool :=
  match config with
  | some (.sink _ _) => true
  | _ => false

/-- What a node makes of one batch; only a transform makes anything. -/
def stage (env : PipelineEnv β) (nodes : List StepNode) (v : Uuid) (batch : β) : Except String β :=
  match (nodeMap nodes v).map StepNode.config with
  | some (.transform udfName params) => transformBatch env udfName params batch
  | _ => .error ""

def sinkInput (nodes : List StepNode) (edges : List PipelineEdge) (f : Uuid → List β) (v : Uuid) : List β :=
  if isSink ((nodeMap nodes v).map StepNode.config) then inputBatches edges f v else []

def SourcesRead (nodes : List StepNode) (reads : Uuid → List β) : Prop :=
  ∀ v, isSource ((nodeMap nodes v).map StepNode.config) = false → reads v = []

/-- The transforms make something of every batch that arrives. -/
def Passes (env : PipelineEnv β) (nodes : List StepNode) (edges : List PipelineEdge) (order : List Uuid)
    (M : Uuid → Multiset β) : Prop :=
  ∀ v ∈ order, isTransform ((nodeMap nodes v).map StepNode.config) = true →
    ∀ b ∈ arrivals (feeds nodes edges) M v, ∃ c, stage env nodes v b = .ok c

theorem not_source_of_sink {config : Option StepConfig} (h : isSink config = true) : isSource config = false := by
  match config, h with
  | some (.sink _ _), _ => rfl

theorem feeds_of_not_source (h : isSource ((nodeMap nodes v).map StepNode.config) = false) :
    feeds nodes edges v = Dag.incoming edges v := by
  rw [feeds, h, if_neg Bool.false_ne_true]

theorem arrivals_held (h : isSource ((nodeMap nodes v).map StepNode.config) = false) :
    arrivals (feeds nodes edges) (fun u => (f u : Multiset β)) v = (inputBatches edges f v : List β) := by
  rw [arrivals_coe, feeds_of_not_source h]
  rfl

theorem flow_of_solution (hreads : SourcesRead nodes reads)
    (hf : Solution (flowEquation env nodes edges fun v => .ok (reads v)) order f) :
    Flow (feeds nodes edges) (fun v => (reads v : Multiset β)) (stage env nodes) order fun v => (f v : Multiset β) := by
  intro v hv
  show (f v : Multiset β) = (reads v : Multiset β) +
    (arrivals (feeds nodes edges) (fun u => (f u : Multiset β)) v).filterMap fun b => (stage env nodes v b).toOption
  have hequation := hf v hv
  rw [flowEquation] at hequation
  cases hconfig : (nodeMap nodes v).map StepNode.config with
  | none =>
    rw [hconfig] at hequation
    cases hequation
  | some config =>
    rw [hconfig] at hequation
    cases config with
    | source connectorName readStrategy =>
      have hnone : arrivals (feeds nodes edges) (fun u => (f u : Multiset β)) v = 0 := by
        rw [arrivals, feeds, hconfig]
        rfl
      rw [hnone, Multiset.filterMap_zero, add_zero, Except.ok.inj hequation]
    | transform udfName params =>
      have hread : reads v = [] := hreads v (by rw [hconfig]; rfl)
      have hstage : stage env nodes v = transformBatch env udfName params := by
        funext batch
        rw [stage, hconfig]
      rw [arrivals_held (by rw [hconfig]; rfl), hread, hstage, Multiset.filterMap_coe, filterMap_of_mapM hequation]
      exact (zero_add _).symm
    | sink connectorName table =>
      have hread : reads v = [] := hreads v (by rw [hconfig]; rfl)
      have hstage : (fun b => (stage env nodes v b).toOption) = fun _ => none := by
        funext batch
        rw [stage, hconfig]
        rfl
      rw [hread, hstage, ← Except.ok.inj hequation, arrivals_held (by rw [hconfig]; rfl), Multiset.filterMap_coe,
        List.filterMap_none]
      rfl

theorem passes_of_solution (hf : Solution (flowEquation env nodes edges fun v => .ok (reads v)) order f) :
    Passes env nodes edges order fun v => (f v : Multiset β) := by
  intro v hv htransform b hb
  have hequation := hf v hv
  rw [flowEquation] at hequation
  cases hconfig : (nodeMap nodes v).map StepNode.config with
  | none =>
    rw [hconfig] at htransform
    cases htransform
  | some config =>
    rw [hconfig] at hequation htransform
    cases config with
    | source => cases htransform
    | sink => cases htransform
    | transform udfName params =>
      rw [arrivals_held (by rw [hconfig]; rfl)] at hb
      rw [stage, hconfig]
      exact exists_mapM_ok.mp ⟨_, hequation⟩ b hb

/-- Where every batch of a flow passes, the equations have a solution, which is the flow. -/
theorem exists_solution (hreads : SourcesRead nodes reads) (hnodup : order.Nodup)
    (hback : Backward (feeds nodes edges) order) (hnodes : ∀ v ∈ order, (nodeMap nodes v).map StepNode.config ≠ none)
    (hM : Flow (feeds nodes edges) (fun v => (reads v : Multiset β)) (stage env nodes) order M)
    (hpasses : Passes env nodes edges order M) :
    ∃ f, Solution (flowEquation env nodes edges fun v => .ok (reads v)) order f ∧
      ∀ v ∈ order, (f v : Multiset β) = M v := by
  suffices hsolution : ∃ f, Solution (flowEquation env nodes edges fun v => .ok (reads v)) order f by
    obtain ⟨f, hf⟩ := hsolution
    exact ⟨f, hf, Flow.unique hback (flow_of_solution hreads hf) hM⟩
  induction order using List.reverseRecOn with
  | nil => exact ⟨fun _ => [], fun v hv => absurd hv List.not_mem_nil⟩
  | append_singleton before v ih =>
    have hbefore : Backward (feeds nodes edges) before := fun pre u post hsplit =>
      hback pre u (post ++ [v]) (by rw [hsplit, List.append_assoc, List.cons_append])
    have hMbefore : Flow (feeds nodes edges) (fun v => (reads v : Multiset β)) (stage env nodes) before M :=
      fun u hu => hM u (List.mem_append_left _ hu)
    have hnew : v ∉ before := fun hv => List.disjoint_of_nodup_append hnodup hv (List.mem_singleton_self v)
    have hlast : v ∈ before ++ [v] := List.mem_append_right _ (List.mem_singleton_self v)
    obtain ⟨f, hf⟩ := ih (List.nodup_append.mp hnodup).1 hbefore (fun u hu => hnodes u (List.mem_append_left _ hu))
      hMbefore fun u hu => hpasses u (List.mem_append_left _ hu)
    have hsame := Flow.unique hbefore (flow_of_solution hreads hf) hMbefore
    suffices hvalue : ∃ batches, flowEquation env nodes edges (fun v => .ok (reads v)) v f = .ok batches by
      obtain ⟨batches, hbatches⟩ := hvalue
      exact ⟨_, hf.extend (looksBack hback) hnew hbatches⟩
    rw [flowEquation]
    cases hconfig : (nodeMap nodes v).map StepNode.config with
    | none => exact absurd hconfig (hnodes v hlast)
    | some config =>
      cases config with
      | source => exact ⟨_, rfl⟩
      | sink => exact ⟨_, rfl⟩
      | transform udfName params =>
        refine exists_mapM_ok.mpr fun b hb => ?_
        have harrives : b ∈ arrivals (feeds nodes edges) M v := by
          rw [← arrivals_congr fun u hu => hsame u (hback before v [] rfl u hu), arrivals_held (by rw [hconfig]; rfl)]
          exact hb
        have hstage := hpasses v hlast (by rw [hconfig]; rfl) b harrives
        rwa [stage, hconfig] at hstage

theorem written_batches (nodes : List StepNode) (edges : List PipelineEdge) (f : Uuid → List β) (hnodup : order.Nodup)
    (hv : v ∈ order) : ((order.flatMap (nodeWrites nodes edges f)).filter (·.node = v)).flatMap SinkWrite.batches =
      sinkInput nodes edges f v := by
  have hother : ∀ u, u ≠ v → ((nodeWrites nodes edges f u).filter (·.node = v)).flatMap SinkWrite.batches = [] := by
    intro u hu
    have hnone : (nodeWrites nodes edges f u).filter (·.node = v) = [] := by
      refine List.filter_eq_nil_iff.mpr fun w hw => ?_
      have hnode : w.node = u := by
        rw [nodeWrites] at hw
        split at hw
        · split_ifs at hw
          · exact absurd hw List.not_mem_nil
          · rw [List.mem_singleton.mp hw]
        · exact absurd hw List.not_mem_nil
      rw [decide_eq_true_eq, hnode]
      exact hu
    rw [hnone]
    rfl
  rw [List.filter_flatMap, List.flatMap_assoc, flatMap_single hnodup (fun u _ hu => hother u hu) (absurd hv), sinkInput,
    nodeWrites]
  cases hconfig : (nodeMap nodes v).map StepNode.config with
  | none => rfl
  | some config =>
    cases config with
    | source => rfl
    | transform => rfl
    | sink connectorName table =>
      rw [if_pos (show isSink (some (.sink connectorName table)) = true from rfl)]
      dsimp only
      split_ifs with hempty
      · rw [List.isEmpty_iff.mp hempty]
        rfl
      · simp

end StreamFlows

/-! ### Streaming runs -/

section StreamRuns
variable {β : Type} {env : PipelineEnv β} {nodes : List StepNode} {edges : List PipelineEdge} {taken : Uuid → Nat}
  {s s' : StreamState β} {v sourceId : Uuid} {order downstream iteration : List Uuid} {seen : List (Uuid × β)}
    {item : β}

/-- The order in which a batch meets the nodes: sources do nothing, so they may stand first. -/
def streamOrder (nodes : List StepNode) (order : List Uuid) : List Uuid :=
  order.filter (fun id => isSource ((nodeMap nodes id).map StepNode.config)) ++ downstreamIds nodes order

theorem streamOrder_perm : (streamOrder nodes order).Perm order :=
  List.filter_append_perm (fun id => isSource ((nodeMap nodes id).map StepNode.config)) order

theorem backward_streamOrder (hback : Backward (feeds nodes edges) order) :
    Backward (feeds nodes edges) (streamOrder nodes order) :=
  hback.partition fun _ h => if_pos h

/-- A batch goes through all nodes after the sources. -/
theorem pass_reached (hnodup : order.Nodup) (hback : Backward (feeds nodes edges) order) (hmem : sourceId ∈ order)
    (hsource : isSource ((nodeMap nodes sourceId).map StepNode.config) = true) {pass : RunState β}
    (hpass : attempt (keeping (streamStep env nodes edges)) (downstreamIds nodes order)
      { buffers := Function.update (fun _ => none) sourceId (some [item]) } = (pass, none)) :
    Reached env nodes edges (fun v => .ok (if v = sourceId then [item] else [])) (streamOrder nodes order) pass := by
  let sources := order.filter fun id => isSource ((nodeMap nodes id).map StepNode.config)
  have hsources : ∀ v ∈ sources, ∃ connectorName readStrategy,
      (nodeMap nodes v).map StepNode.config = some (.source connectorName readStrategy) :=
    fun v hv => isSource_iff.mp (List.mem_filter.mp hv).2
  have hstreamNodup : (streamOrder nodes order).Nodup := streamOrder_perm.nodup_iff.mpr hnodup
  have hstart : Reached env nodes edges (fun v => .ok (if v = sourceId then [item] else [])) (sources ++ [])
      ({ buffers := Function.update (fun _ => none) sourceId (some [item]) } : RunState β) := by
    rw [List.append_nil]
    refine ⟨⟨fun v hv => ?_, fun v hv => ?_⟩, fun v hv => ?_, ?_⟩
    · obtain ⟨_, _, hconfig⟩ := hsources v hv
      rw [flowEquation, hconfig]
      by_cases h : v = sourceId
      · simp [RunState.held, h]
      · simp [RunState.held, h]
    · obtain ⟨_, _, hconfig⟩ := hsources v hv
      rw [Ready, hconfig]
      trivial
    · have hne : v ≠ sourceId := fun h => hv (h ▸ List.mem_filter.mpr ⟨hmem, hsource⟩)
      simp [hne]
    · refine (List.flatMap_eq_nil_iff.mpr fun v hv => ?_).symm
      obtain ⟨_, _, hconfig⟩ := hsources v hv
      rw [nodeWrites, hconfig]
  rcases attempt_inv
    (fun before s => Reached env nodes edges (fun v => .ok (if v = sourceId then [item] else [])) (sources ++ before) s)
    hstart (fun before v after s s' (hsplit : downstreamIds nodes order = before ++ v :: after) hs
      (hkeep : keeping (streamStep env nodes edges) s v = (s', none)) => by
      have horder : streamOrder nodes order = (sources ++ before) ++ v :: after := by
        rw [streamOrder, hsplit, List.append_assoc]
      have hv : isSource ((nodeMap nodes v).map StepNode.config) = false := by
        have hin : v ∈ downstreamIds nodes order := hsplit ▸ List.mem_append_right _ List.mem_cons_self
        exact Bool.not_eq_true' _ ▸ (List.mem_filter.mp hin).2
      have hnew : v ∉ sources ++ before := fun hin =>
        List.disjoint_of_nodup_append (horder ▸ hstreamNodup) hin List.mem_cons_self
      have hstep := streamStep_ok (fun v => .ok (if v = sourceId then [item] else [])) hv (hs.fresh v hnew)
        (keeping_ok hkeep)
      have hnext := hs.step (horder ▸ backward_streamOrder hback) (horder ▸ hstreamNodup) hstep
      rwa [List.append_assoc] at hnext)
    with ⟨s, hs, hreached⟩ | ⟨before, v, after, s, s', e, -, -, -, hresult⟩
  · rw [hs] at hpass
    cases hpass
    exact hreached
  · rw [hresult] at hpass
    cases hpass

/-- The batches of a source among those that were read. -/
def seenOf (seen : List (Uuid × β)) (v : Uuid) : List β := (seen.filter (·.1 = v)).map Prod.snd

/-- What is written is what the batches that were read flow into the sinks as. -/
def StreamHolds (env : PipelineEnv β) (nodes : List StepNode) (edges : List PipelineEdge) (order : List Uuid)
    (seen : List (Uuid × β)) (s : StreamState β) : Prop :=
  ∃ M, Flow (feeds nodes edges) (fun v => (seenOf seen v : Multiset β)) (stage env nodes) order M ∧
    Passes env nodes edges order M ∧
    ∀ v ∈ order, (((s.written.filter (·.node = v)).flatMap SinkWrite.batches : List β) : Multiset β) =
      if isSink ((nodeMap nodes v).map StepNode.config) then arrivals (feeds nodes edges) M v else 0

theorem seenOf_append (seen seen' : List (Uuid × β)) (v : Uuid) :
    seenOf (seen ++ seen') v = seenOf seen v ++ seenOf seen' v := by
  rw [seenOf, List.filter_append, List.map_append]
  rfl

theorem seenOf_singleton : seenOf [(sourceId, item)] v = if v = sourceId then [item] else [] := by
  rw [seenOf, List.filter_singleton]
  by_cases h : sourceId = v
  · rw [if_pos (h.symm), decide_eq_true h]
    rfl
  · rw [if_neg (Ne.symm h), decide_eq_false h]
    rfl

theorem StreamHolds.start : StreamHolds env nodes edges order [] ({} : StreamState β) := by
  refine ⟨0, Flow.zero, fun v _ _ b hb => ?_, fun v _ => ?_⟩
  · rw [arrivals_zero] at hb
    exact absurd hb (Multiset.notMem_zero b)
  · rw [arrivals_zero, ite_self]
    rfl

theorem StreamHolds.batch (hnodup : order.Nodup) (hback : Backward (feeds nodes edges) order) (hmem : sourceId ∈ order)
    (hsource : isSource ((nodeMap nodes sourceId).map StepNode.config) = true)
    (h : StreamHolds env nodes edges (streamOrder nodes order) seen s)
    (hbatch : streamBatch env nodes edges (downstreamIds nodes order) sourceId s item = (s', none)) :
    StreamHolds env nodes edges (streamOrder nodes order) (seen ++ [(sourceId, item)]) s' := by
  obtain ⟨M, hflow, hpasses, hwritten⟩ := h
  rw [streamBatch] at hbatch
  rcases hpass : attempt (keeping (streamStep env nodes edges)) (downstreamIds nodes order)
    { buffers := Function.update (fun _ => none) sourceId (some [item]) } with ⟨pass, _ | e⟩
  · rw [hpass] at hbatch
    dsimp only at hbatch
    cases hbatch
    have hreached := pass_reached hnodup hback hmem hsource hpass
    have hreads : SourcesRead nodes fun v => if v = sourceId then [item] else [] := by
      intro v hv
      refine if_neg fun heq => ?_
      rw [heq, hsource] at hv
      cases hv
    have hsum : (fun v => (seenOf (seen ++ [(sourceId, item)]) v : Multiset β)) =
        (fun v => (seenOf seen v : Multiset β)) +
          fun v => ((if v = sourceId then [item] else [] : List β) : Multiset β) := by
      funext v
      rw [seenOf_append, seenOf_singleton, Pi.add_apply, Multiset.coe_add]
    refine ⟨M + fun v => (pass.held v : Multiset β), ?_, fun v hv htransform b hb => ?_, fun v hv => ?_⟩
    · rw [hsum]
      exact hflow.add (flow_of_solution hreads hreached.solution)
    · rw [arrivals_add] at hb
      rcases Multiset.mem_add.mp hb with hb | hb
      · exact hpasses v hv htransform b hb
      · exact passes_of_solution hreached.solution v hv htransform b hb
    · have hpassWritten := written_batches nodes edges pass.held (streamOrder_perm.nodup_iff.mpr hnodup) hv
      rw [List.filter_append, List.flatMap_append, ← Multiset.coe_add, hwritten v hv, hreached.written, hpassWritten,
        sinkInput, arrivals_add]
      split_ifs with hsink
      · rw [arrivals_held (not_source_of_sink hsink)]
      · rfl
  · rw [hpass] at hbatch
    dsimp only at hbatch
    cases hbatch

/-- The batches that a source gives before it is left. -/
def streamed (env : PipelineEnv β) (nodes : List StepNode) (taken : Uuid → Nat) (v : Uuid) : List β :=
  match (nodeMap nodes v).map StepNode.config with
  | some (.source connectorName readStrategy) =>
    match openStream env v connectorName readStrategy with
    | .ok items => (items.take (taken v)).filterMap Except.toOption
    | .error _ => []
  | _ => []

theorem streamed_of_not_source (h : isSource ((nodeMap nodes v).map StepNode.config) = false) :
    streamed env nodes taken v = [] := by
  rw [streamed]
  cases hconfig : (nodeMap nodes v).map StepNode.config with
  | none => rfl
  | some config =>
    rw [hconfig] at h
    cases config with
    | source => cases h
    | transform => rfl
    | sink => rfl

theorem streamSource_holds (hnodup : order.Nodup) (hback : Backward (feeds nodes edges) order) (hmem : sourceId ∈ order)
    {connectorName : String} {readStrategy : ReadStrategy}
    (hconfig : (nodeMap nodes sourceId).map StepNode.config = some (.source connectorName readStrategy))
    (h : StreamHolds env nodes edges (streamOrder nodes order) seen s)
    (hsource : streamSource env nodes edges taken (downstreamIds nodes order) s
      (sourceId, connectorName, readStrategy) = (s', none)) :
    StreamHolds env nodes edges (streamOrder nodes order)
      (seen ++ (streamed env nodes taken sourceId).map fun b => (sourceId, b)) s' := by
  rw [streamSource] at hsource
  dsimp only at hsource
  rw [streamed, hconfig]
  dsimp only
  cases hopen : openStream env sourceId connectorName readStrategy with
  | error e =>
    rw [hopen] at hsource
    cases hsource
  | ok items =>
    rw [hopen] at hsource
    dsimp only at hsource ⊢
    rcases attempt_inv (fun (before : List (Except String β)) s => StreamHolds env nodes edges (streamOrder nodes order)
        (seen ++ (before.filterMap Except.toOption).map fun b => (sourceId, b)) s)
      (by rwa [List.filterMap_nil, List.map_nil, List.append_nil])
      (fun before item after s s' (_ : items.take (taken sourceId) = before ++ item :: after) hs
        (hstep : streamItem env nodes edges (downstreamIds nodes order) sourceId s item = (s', none)) => by
        cases item with
        | error e => cases hstep
        | ok item =>
          have hnext := StreamHolds.batch hnodup hback hmem (isSource_iff.mpr ⟨_, _, hconfig⟩) hs hstep
          rw [List.append_assoc, ← List.map_singleton, ← List.map_append] at hnext
          rw [List.filterMap_append]
          exact hnext)
      with ⟨t, ht, hholds⟩ | ⟨before, a, after, s₁, t, e, -, -, -, hresult⟩
    · rw [ht] at hsource
      cases hsource
      exact hholds
    · rw [hresult] at hsource
      cases hsource

theorem flatMap_sourceNodes (order : List Uuid) :
    (sourceNodes nodes order).flatMap (fun source => (streamed env nodes taken source.1).map fun b => (source.1, b)) =
      order.flatMap fun v => (streamed env nodes taken v).map fun b => (v, b) := by
  induction order with
  | nil => rfl
  | cons v order ih =>
    rw [sourceNodes] at ih ⊢
    rw [List.flatMap_cons, ← ih]
    by_cases hsource : isSource ((nodeMap nodes v).map StepNode.config) = true
    · obtain ⟨_, _, hconfig⟩ := isSource_iff.mp hsource
      rw [List.filterMap_cons, hconfig, List.flatMap_cons]
    · have hnone : streamed env nodes taken v = [] := streamed_of_not_source (Bool.eq_false_of_not_eq_true hsource)
      rw [hnone, List.filterMap_cons, List.map_nil, List.nil_append]
      cases hconfig : (nodeMap nodes v).map StepNode.config with
      | none => rfl
      | some config =>
        cases config with
        | source => exact absurd (by rw [hconfig]; rfl) hsource
        | transform => rfl
        | sink => rfl

theorem seenOf_streamed (hnodup : order.Nodup) (hv : v ∈ order) :
    seenOf (order.flatMap fun u => (streamed env nodes taken u).map fun b => (u, b)) v =
      streamed env nodes taken v := by
  have hother : ∀ u, u ≠ v → (((streamed env nodes taken u).map fun b => (u, b)).filter (·.1 = v)) = [] := by
    intro u hu
    refine List.filter_eq_nil_iff.mpr fun e he => ?_
    obtain ⟨b, -, rfl⟩ := List.mem_map.mp he
    rw [decide_eq_true_eq]
    exact hu
  have hself : (((streamed env nodes taken v).map fun b => (v, b)).filter (·.1 = v)) =
      (streamed env nodes taken v).map fun b => (v, b) := by
    refine List.filter_eq_self.mpr fun e he => ?_
    obtain ⟨b, -, rfl⟩ := List.mem_map.mp he
    exact decide_eq_true rfl
  rw [seenOf, List.filter_flatMap, flatMap_single hnodup (fun u _ hu => hother u hu) (absurd hv), hself, List.map_map]
  exact List.map_id _

theorem mem_sourceNodes {source : Uuid × String × ReadStrategy} (h : source ∈ sourceNodes nodes order) :
    source.1 ∈ order ∧ (nodeMap nodes source.1).map StepNode.config = some (.source source.2.1 source.2.2) := by
  obtain ⟨v, hv, hsource⟩ := List.mem_filterMap.mp h
  split at hsource
  · cases hsource
    exact ⟨hv, by assumption⟩
  · cases hsource

theorem nodeMap_ne_none (hv : v ∈ nodes.map StepNode.id) : (nodeMap nodes v).map StepNode.config ≠ none := by
  obtain ⟨n, hn, rfl⟩ := List.mem_map.mp hv
  intro hnone
  have hfind := List.find?_eq_none.mp (Option.map_eq_none_iff.mp hnone) n (List.mem_reverse.mpr hn)
  exact hfind (beq_self_eq_true n.id)

/-- In a streaming run that completes, the batches that are written to a sink are those that the equations of the nodes
    send to it if the sources read the batches that were streamed, in another order. -/
theorem runStreaming_dataflow (hids : (nodes.map StepNode.id).Nodup)
    (hiteration : iteration.Perm (nodes.map StepNode.id)) {rowsRead rowsWritten : Nat} {written : List (SinkWrite β)}
    (hrun : runStreaming env nodes edges taken iteration = some (.completed rowsRead rowsWritten, written)) :
    ∃ flow, Solution (flowEquation env nodes edges fun v => .ok (streamed env nodes taken v))
        (nodes.map StepNode.id) flow ∧
      ∀ v ∈ nodes.map StepNode.id,
        ((written.filter (·.node = v)).flatMap SinkWrite.batches).Perm (sinkInput nodes edges flow v) := by
  rw [runStreaming] at hrun
  split_ifs at hrun with hmode
  · obtain ⟨result, hsort, -, horder⟩ := sorted_spec edges hids hiteration
    rw [hsort, Option.map_some] at hrun
    cases result with
    | error e => cases hrun
    | ok order =>
      obtain ⟨hperm, hforward⟩ := horder order rfl
      have hnodup := hperm.nodup_iff.mpr hids
      have hback : Backward (feeds nodes edges) order := backward_of_sorted hnodup hforward
      have hstream : (streamOrder nodes order).Perm (nodes.map StepNode.id) := streamOrder_perm.trans hperm
      dsimp only at hrun
      rcases attempt_inv (fun (before : List (Uuid × String × ReadStrategy)) s => StreamHolds env nodes edges
          (streamOrder nodes order)
          (before.flatMap fun source => (streamed env nodes taken source.1).map fun b => (source.1, b)) s)
        StreamHolds.start
        (fun before source after s s' (hsplit : sourceNodes nodes order = before ++ source :: after) hs
          (hstep : streamSource env nodes edges taken (downstreamIds nodes order) s source = (s', none)) => by
          have hsource : source ∈ sourceNodes nodes order := hsplit ▸ List.mem_append_right _ List.mem_cons_self
          obtain ⟨hmem, hconfig⟩ := mem_sourceNodes hsource
          rw [List.flatMap_append, List.flatMap_singleton]
          exact streamSource_holds hnodup hback hmem hconfig hs hstep)
        with ⟨s, hs, M, hflow, hpasses, hwritten⟩ | ⟨before, a, after, s₁, t, e, -, -, -, hresult⟩
      · rw [hs] at hrun
        cases hrun
        rw [flatMap_sourceNodes] at hflow
        have hreads : SourcesRead nodes (streamed env nodes taken) := fun v hv => streamed_of_not_source hv
        have hflow : Flow (feeds nodes edges) (fun v => (streamed env nodes taken v : Multiset β)) (stage env nodes)
            (streamOrder nodes order) M := fun v hv => by
          rw [hflow v hv]
          dsimp only
          rw [seenOf_streamed hnodup (streamOrder_perm.mem_iff.mp hv)]
        obtain ⟨flow, hsolution, hsame⟩ := exists_solution hreads (streamOrder_perm.nodup_iff.mpr hnodup)
          (backward_streamOrder hback) (fun v hv => nodeMap_ne_none (hstream.mem_iff.mp hv)) hflow hpasses
        refine ⟨flow, fun v hv => hsolution v (hstream.mem_iff.mpr hv), fun v hv => ?_⟩
        have hv := hstream.mem_iff.mpr hv
        refine Multiset.coe_eq_coe.mp ((hwritten v hv).trans ?_)
        rw [sinkInput]
        split_ifs with hsink
        · obtain ⟨pre, post, hsplit⟩ := List.append_of_mem hv
          rw [← arrivals_held (not_source_of_sink hsink)]
          refine arrivals_congr fun u hu => (hsame u ?_).symm
          exact hsplit ▸ List.mem_append_left _ (backward_streamOrder hback pre v post hsplit u hu)
        · rfl
      · rw [hresult] at hrun
        cases hrun
  · cases hrun

/-- The first source is left after its first batch. -/
def firstOnly (v : Uuid) : Nat := if v = 1 then 1 else 7

theorem runStreaming_dataflow_doubling :
    ∃ flow, Solution (flowEquation doublingEnv (doublingNodes .cdcStream) doublingEdges fun v =>
        .ok (streamed doublingEnv (doublingNodes .cdcStream) firstOnly v))
        ((doublingNodes .cdcStream).map StepNode.id) flow ∧
      ∀ v ∈ (doublingNodes .cdcStream).map StepNode.id,
        ((([⟨4, "numbers", "all", [[4]]⟩, ⟨4, "numbers", "all", [[2], [1]]⟩] : List (SinkWrite (List Nat))).filter
          (·.node = v)).flatMap SinkWrite.batches).Perm (sinkInput (doublingNodes .cdcStream) doublingEdges flow v) :=
  runStreaming_dataflow (by decide) (by decide : [4, 2, 3, 1].Perm _)
    (by decide : runStreaming doublingEnv (doublingNodes .cdcStream) doublingEdges firstOnly [4, 2, 3, 1] =
      some (.completed 2 3, [⟨4, "numbers", "all", [[4]]⟩, ⟨4, "numbers", "all", [[2], [1]]⟩]))

end StreamRuns

end PipelineExecutor

end Reiver.Pond
