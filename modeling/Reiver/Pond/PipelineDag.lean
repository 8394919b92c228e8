import Mathlib.Data.List.Sort
import Reiver.Lib.Dict
import Reiver.Lib.Kahn

/-! # Pipelines are sorted

The model of `topological_sort` of `pipeline/dag.rs`. The checks and the order of Kahn's algorithm accept exactly the
valid pipelines, in whatever order the hash maps are gone through, and the sort by node type keeps the order of the
edges: an edge never goes to a source nor from a sink. -/

namespace Reiver.Pond

inductive NodeType where
  | source
  | transform
  | sink
deriving DecidableEq

inductive PipelineReadStrategy where
  | fullSync
  | incremental
  | query
  | batchFetch
  | cdcStream
  | filter
deriving DecidableEq

inductive NodeConfig where
  | source (readStrategy : PipelineReadStrategy)
  | transform
  | sink
deriving DecidableEq

structure PipelineNode where
  id : Uuid
  nodeType : NodeType
  config : NodeConfig
deriving DecidableEq

structure PipelineEdge where
  fromNodeId : Uuid
  toNodeId : Uuid
deriving DecidableEq

inductive DagValidationError where
  | cycleDetected
  | sourceHasIncoming (id : Uuid)
  | sinkHasOutgoing (id : Uuid)
  | transformNoInput (id : Uuid)
  | transformNoOutput (id : Uuid)
  | sinkNoInput (id : Uuid)
  | unknownNode (id : Uuid)
  | empty
  | noSources
  | noSinks
  | mixedSourceModes
deriving DecidableEq

namespace PipelineNode

def isCdc (n : PipelineNode) : Bool := n.config = .source .cdcStream

def isBatch (n : PipelineNode) : Bool :=
  match n.config with
  | .source readStrategy => readStrategy ≠ .cdcStream
  | _ => false

end PipelineNode

namespace Dag

def nodeIds (nodes : List PipelineNode) : List Uuid := nodes.map (·.id)

def unknownEndpoint (nodes : List PipelineNode) (e : PipelineEdge) : Option DagValidationError :=
  if e.fromNodeId ∉ nodeIds nodes then some (.unknownNode e.fromNodeId)
  else if e.toNodeId ∉ nodeIds nodes then some (.unknownNode e.toNodeId)
  else none

/-- The loop over the edges pushes each value on the list of its key. -/
def pushAll (key value : PipelineEdge → Uuid) (edges : List PipelineEdge) : Uuid → List Uuid :=
  edges.foldl (fun lists e => Function.update lists (key e) (lists (key e) ++ [value e])) fun _ => []

def adjacency (edges : List PipelineEdge) : Uuid → List Uuid := pushAll (·.fromNodeId) (·.toNodeId) edges

def incoming (edges : List PipelineEdge) : Uuid → List Uuid := pushAll (·.toNodeId) (·.fromNodeId) edges

def inDegree (edges : List PipelineEdge) : Uuid → Nat :=
  edges.foldl (fun degree e => Function.update degree e.toNodeId (degree e.toNodeId + 1)) fun _ => 0

def degreeError (edges : List PipelineEdge) (n : PipelineNode) : Option DagValidationError :=
  let hasIncoming := !(incoming edges n.id).isEmpty
  let hasOutgoing := !(adjacency edges n.id).isEmpty
  match n.nodeType with
  | .source => if hasIncoming then some (.sourceHasIncoming n.id) else none
  | .transform =>
    if !hasIncoming then some (.transformNoInput n.id)
    else if !hasOutgoing then some (.transformNoOutput n.id)
    else none
  | .sink =>
    if hasOutgoing then some (.sinkHasOutgoing n.id)
    else if !hasIncoming then some (.sinkNoInput n.id)
    else none

def rank : NodeType → Nat
  | .source => 0
  | .transform => 1
  | .sink => 2

/-- The rank of a node in the map of the node types, which has the last node of an id. -/
def rankOf (nodes : List PipelineNode) (id : Uuid) : Nat :=
  ((nodes.reverse.find? (·.id == id)).map fun n => rank n.nodeType).getD 0

def firstError (nodes : List PipelineNode) (edges : List PipelineEdge) : Option DagValidationError :=
  if nodes.isEmpty then some .empty
  else
    match edges.findSome? (unknownEndpoint nodes) with
    | some e => some e
    | none =>
      if !nodes.any (·.nodeType = .source) then some .noSources
      else if !nodes.any (·.nodeType = .sink) then some .noSinks
      else if nodes.any (·.isCdc) && nodes.any (·.isBatch) then some .mixedSourceModes
      else nodes.findSome? (degreeError edges)

/-- The map of degrees is gone through in the order `iteration`; `none` is a loop that has not ended. -/
def topologicalSort (iteration : List Uuid) (nodes : List PipelineNode) (edges : List PipelineEdge) :
    Option (Except DagValidationError (List Uuid)) :=
  match firstError nodes edges with
  | some e => some (.error e)
  | none =>
    let queue := iteration.filter fun id => inDegree edges id = 0
    (kahn (adjacency edges) nodes.length (inDegree edges) queue []).map fun sorted =>
      if sorted.length ≠ nodes.length then .error .cycleDetected
      else .ok (sorted.insertionSort fun a b => rankOf nodes a ≤ rankOf nodes b)

/-! ### Valid pipelines -/

def edgePairs (edges : List PipelineEdge) : List (Uuid × Uuid) := edges.map fun e => (e.fromNodeId, e.toNodeId)

/-- The rules of a pipeline but that it has no cycle. -/
structure WellFormed (nodes : List PipelineNode) (edges : List PipelineEdge) : Prop where
  nonempty : nodes ≠ []
  endpoints : ∀ e ∈ edges, e.fromNodeId ∈ nodeIds nodes ∧ e.toNodeId ∈ nodeIds nodes
  has_source : ∃ n ∈ nodes, n.nodeType = .source
  has_sink : ∃ n ∈ nodes, n.nodeType = .sink
  unmixed : ¬ ((∃ n ∈ nodes, n.isCdc = true) ∧ ∃ n ∈ nodes, n.isBatch = true)
  source : ∀ n ∈ nodes, n.nodeType = .source → ∀ e ∈ edges, e.toNodeId ≠ n.id
  transform : ∀ n ∈ nodes, n.nodeType = .transform →
    (∃ e ∈ edges, e.toNodeId = n.id) ∧ ∃ e ∈ edges, e.fromNodeId = n.id
  sink : ∀ n ∈ nodes, n.nodeType = .sink → (∃ e ∈ edges, e.toNodeId = n.id) ∧ ∀ e ∈ edges, e.fromNodeId ≠ n.id

structure Valid (nodes : List PipelineNode) (edges : List PipelineEdge) : Prop extends WellFormed nodes edges where
  acyclic : Acyclic (edgePairs edges)

section Maps
variable {edges : List PipelineEdge} {key value : PipelineEdge → Uuid} {id : Uuid}

theorem pushAll_eq (edges : List PipelineEdge) (id : Uuid) :
    pushAll key value edges id = (edges.filter (key · = id)).map value := by
  have hfold : ∀ (edges : List PipelineEdge) (lists : Uuid → List Uuid),
      edges.foldl (fun lists e => Function.update lists (key e) (lists (key e) ++ [value e])) lists id =
        lists id ++ (edges.filter (key · = id)).map value := by
    intro edges
    induction edges with
    | nil => exact fun lists => (List.append_nil _).symm
    | cons e edges ih =>
      intro lists
      rw [List.foldl_cons, ih, List.filter_cons]
      by_cases he : key e = id
      · rw [if_pos (decide_eq_true he), List.map_cons, he, Function.update_self, List.append_assoc]
        rfl
      · rw [if_neg (by simpa using he), Function.update_of_ne (Ne.symm he)]
  exact (hfold edges _).trans (List.nil_append _)

theorem adjacency_eq (edges : List PipelineEdge) : adjacency edges = successors (edgePairs edges) := by
  funext id
  rw [adjacency, pushAll_eq, successors, edgePairs, List.filter_map, List.map_map]
  rfl

theorem inDegree_eq (edges : List PipelineEdge) : inDegree edges = remaining (edgePairs edges) [] := by
  funext id
  have hfold : ∀ (edges : List PipelineEdge) (degree : Uuid → Nat),
      edges.foldl (fun degree e => Function.update degree e.toNodeId (degree e.toNodeId + 1)) degree id =
        degree id + remaining (edgePairs edges) [] id := by
    intro edges
    induction edges with
    | nil => exact fun degree => rfl
    | cons e edges ih =>
      intro degree
      have hcons : remaining (edgePairs (e :: edges)) [] id =
          remaining (edgePairs edges) [] id + if e.toNodeId = id then 1 else 0 := by
        rw [edgePairs, List.map_cons, remaining_cons]
        simp only [List.not_mem_nil, not_false_eq_true, and_true]
        rfl
      rw [List.foldl_cons, ih, hcons]
      by_cases he : e.toNodeId = id
      · rw [if_pos he, he, Function.update_self]
        omega
      · rw [if_neg he, Function.update_of_ne (Ne.symm he)]
        rfl
  exact (hfold edges _).trans (Nat.zero_add _)

theorem pushAll_isEmpty : (pushAll key value edges id).isEmpty = true ↔ ∀ e ∈ edges, key e ≠ id := by
  rw [pushAll_eq, List.isEmpty_iff, List.map_eq_nil_iff, List.filter_eq_nil_iff]
  exact forall₂_congr fun e _ => by rw [decide_eq_true_eq]

end Maps

/-! ### The checks -/

section Checks
variable {nodes : List PipelineNode} {edges : List PipelineEdge} {n : PipelineNode} {iteration : List Uuid}

theorem unknownEndpoint_eq_none {e : PipelineEdge} :
    unknownEndpoint nodes e = none ↔ e.fromNodeId ∈ nodeIds nodes ∧ e.toNodeId ∈ nodeIds nodes := by
  rw [unknownEndpoint]
  by_cases hfrom : e.fromNodeId ∈ nodeIds nodes
  · rw [if_neg (not_not.mpr hfrom)]
    by_cases hto : e.toNodeId ∈ nodeIds nodes
    · rw [if_neg (not_not.mpr hto)]
      exact iff_of_true rfl ⟨hfrom, hto⟩
    · rw [if_pos hto]
      exact iff_of_false (Option.some_ne_none _) fun h => hto h.2
  · rw [if_pos hfrom]
    exact iff_of_false (Option.some_ne_none _) fun h => hfrom h.1

theorem degreeError_eq_none :
    degreeError edges n = none ↔
      (n.nodeType = .source → ∀ e ∈ edges, e.toNodeId ≠ n.id) ∧
      (n.nodeType = .transform → (∃ e ∈ edges, e.toNodeId = n.id) ∧ ∃ e ∈ edges, e.fromNodeId = n.id) ∧
      (n.nodeType = .sink → (∃ e ∈ edges, e.toNodeId = n.id) ∧ ∀ e ∈ edges, e.fromNodeId ≠ n.id) := by
  have hin : (incoming edges n.id).isEmpty = true ↔ ∀ e ∈ edges, e.toNodeId ≠ n.id := pushAll_isEmpty
  have hout : (adjacency edges n.id).isEmpty = true ↔ ∀ e ∈ edges, e.fromNodeId ≠ n.id := pushAll_isEmpty
  have hin' : (incoming edges n.id).isEmpty = false ↔ ∃ e ∈ edges, e.toNodeId = n.id := by
    rw [← Bool.not_eq_true, hin]
    simp only [ne_eq, not_forall, not_not, exists_prop]
  have hout' : (adjacency edges n.id).isEmpty = false ↔ ∃ e ∈ edges, e.fromNodeId = n.id := by
    rw [← Bool.not_eq_true, hout]
    simp only [ne_eq, not_forall, not_not, exists_prop]
  rw [← hin, ← hout, ← hin', ← hout', degreeError]
  cases n.nodeType <;> cases (incoming edges n.id).isEmpty <;> cases (adjacency edges n.id).isEmpty <;> simp

theorem any_nodeType {t : NodeType} : nodes.any (·.nodeType = t) = true ↔ ∃ n ∈ nodes, n.nodeType = t := by
  rw [List.any_eq_true]
  exact exists_congr fun n => and_congr_right fun _ => decide_eq_true_iff

theorem firstError_eq_none : firstError nodes edges = none ↔ WellFormed nodes edges := by
  have hends : edges.findSome? (unknownEndpoint nodes) = none ↔
      ∀ e ∈ edges, e.fromNodeId ∈ nodeIds nodes ∧ e.toNodeId ∈ nodeIds nodes := by
    rw [List.findSome?_eq_none_iff]
    exact forall₂_congr fun e _ => unknownEndpoint_eq_none
  have hmodes : (nodes.any (·.isCdc) && nodes.any (·.isBatch)) = true ↔
      (∃ n ∈ nodes, n.isCdc = true) ∧ ∃ n ∈ nodes, n.isBatch = true := by
    rw [Bool.and_eq_true, List.any_eq_true, List.any_eq_true]
  rw [firstError]
  by_cases hempty : nodes.isEmpty = true
  · rw [if_pos hempty]
    exact iff_of_false (Option.some_ne_none _) fun h => h.nonempty (List.isEmpty_iff.mp hempty)
  rw [if_neg hempty]
  cases hedges : edges.findSome? (unknownEndpoint nodes) with
  | some e =>
    refine iff_of_false (Option.some_ne_none _) fun h => ?_
    rw [hends.mpr h.endpoints] at hedges
    cases hedges
  | none =>
    dsimp only
    by_cases hsource : nodes.any (·.nodeType = .source) = true
    · rw [hsource, Bool.not_true, if_neg Bool.false_ne_true]
      by_cases hsink : nodes.any (·.nodeType = .sink) = true
      · rw [hsink, Bool.not_true, if_neg Bool.false_ne_true]
        by_cases hmixed : (nodes.any (·.isCdc) && nodes.any (·.isBatch)) = true
        · rw [if_pos hmixed]
          exact iff_of_false (Option.some_ne_none _) fun h => h.unmixed (hmodes.mp hmixed)
        · rw [if_neg hmixed, List.findSome?_eq_none_iff]
          constructor
          · intro hall
            exact ⟨fun h => hempty (List.isEmpty_iff.mpr h), hends.mp hedges, any_nodeType.mp hsource,
              any_nodeType.mp hsink, fun h => hmixed (hmodes.mpr h), fun n hn => (degreeError_eq_none.mp (hall n hn)).1,
              fun n hn => (degreeError_eq_none.mp (hall n hn)).2.1,
              fun n hn => (degreeError_eq_none.mp (hall n hn)).2.2⟩
          · exact fun h n hn => degreeError_eq_none.mpr ⟨h.source n hn, h.transform n hn, h.sink n hn⟩
      · rw [Bool.eq_false_iff.mpr hsink, Bool.not_false, if_pos rfl]
        exact iff_of_false (Option.some_ne_none _) fun h => hsink (any_nodeType.mpr h.has_sink)
    · rw [Bool.eq_false_iff.mpr hsource, Bool.not_false, if_pos rfl]
      exact iff_of_false (Option.some_ne_none _) fun h => hsource (any_nodeType.mpr h.has_source)

theorem rankOf_eq (hids : (nodeIds nodes).Nodup) (hn : n ∈ nodes) : rankOf nodes n.id = rank n.nodeType := by
  have hnodup : (nodes.reverse.map (·.id)).Nodup := by
    rw [List.map_reverse, List.nodup_reverse]
    exact hids
  rw [rankOf, find?_of_nodup hnodup (List.mem_reverse.mpr hn)]
  rfl

theorem WellFormed.rank_le (h : WellFormed nodes edges) (hids : (nodeIds nodes).Nodup) {e : PipelineEdge}
    (he : e ∈ edges) : rankOf nodes e.fromNodeId ≤ rankOf nodes e.toNodeId := by
  obtain ⟨n, hn, hfrom⟩ := List.mem_map.mp (h.endpoints e he).1
  obtain ⟨m, hm, hto⟩ := List.mem_map.mp (h.endpoints e he).2
  rw [← hfrom, ← hto, rankOf_eq hids hn, rankOf_eq hids hm]
  have hsink : n.nodeType ≠ .sink := fun htype => (h.sink n hn htype).2 e he hfrom.symm
  have hsource : m.nodeType ≠ .source := fun htype => h.source m hm htype e he hto.symm
  cases hnType : n.nodeType with
  | source => exact Nat.zero_le _
  | sink => exact absurd hnType hsink
  | transform =>
    cases hmType : m.nodeType with
    | source => exact absurd hmType hsource
    | transform => exact Nat.le_refl _
    | sink => decide

theorem mem_edgePairs {p : Uuid × Uuid} :
    p ∈ edgePairs edges ↔ ∃ e ∈ edges, (e.fromNodeId, e.toNodeId) = p := List.mem_map

/-- Exactly the valid pipelines are sorted, whatever the order of the maps, into an order of all nodes in which every
    edge goes forward. -/
theorem topologicalSort_exact (hids : (nodeIds nodes).Nodup) (hiteration : iteration.Perm (nodeIds nodes)) :
    ∃ result, topologicalSort iteration nodes edges = some result ∧
      ((∃ order, result = .ok order) ↔ Valid nodes edges) ∧
      ∀ order, result = .ok order → order.Perm (nodeIds nodes) ∧
        ∀ e ∈ edges, order.idxOf e.fromNodeId < order.idxOf e.toNodeId := by
  rw [topologicalSort]
  cases herror : firstError nodes edges with
  | some e =>
    refine ⟨.error e, rfl, iff_of_false (fun ⟨order, h⟩ => by cases h) fun h => ?_, fun order h => by cases h⟩
    rw [firstError_eq_none.mpr h.toWellFormed] at herror
    cases herror
  | none =>
    have hwell := firstError_eq_none.mp herror
    have hends : ∀ p ∈ edgePairs edges, p.1 ∈ nodeIds nodes ∧ p.2 ∈ nodeIds nodes := by
      intro p hp
      obtain ⟨e, he, rfl⟩ := mem_edgePairs.mp hp
      exact hwell.endpoints e he
    have hlength : (nodeIds nodes).length = nodes.length := List.length_map _
    obtain ⟨sorted, degree, hkahn, hfrontier⟩ := kahn_spec (fun p hp => (hends p hp).2) nodes.length
      (frontier_start hiteration hids) (by rw [hlength, List.length_nil, Nat.zero_add])
    have hacyclic := hfrontier.length_iff hids hends
    rw [hlength] at hacyclic
    dsimp only
    rw [adjacency_eq, inDegree_eq, hkahn, Option.map_some]
    refine ⟨_, rfl, ?_, fun order horder => ?_⟩
    · split_ifs with hshort
      · exact iff_of_false (fun ⟨order, h⟩ => by cases h) fun h => hshort (hacyclic.mpr h.acyclic)
      · exact iff_of_true ⟨_, rfl⟩ ⟨hwell, hacyclic.mp (not_not.mp hshort)⟩
    · split_ifs at horder with hshort
      cases horder
      have hnodup : sorted.Nodup := List.append_nil sorted ▸ hfrontier.nodup
      have hperm : sorted.Perm (nodeIds nodes) :=
        (hnodup.subperm (List.append_nil sorted ▸ hfrontier.subset)).perm_of_length_le
          (by rw [hlength, not_not.mp hshort])
      have hsorted := List.perm_insertionSort (fun a b => rankOf nodes a ≤ rankOf nodes b) sorted
      refine ⟨hsorted.trans hperm, fun e he => ?_⟩
      refine idxOf_lt_of_sublist (hsorted.nodup_iff.mpr hnodup)
        (List.pair_sublist_insertionSort (hwell.rank_le hids he) ?_)
      exact hfrontier.sublist (mem_edgePairs.mpr ⟨e, he, rfl⟩) (hperm.mem_iff.mpr (hwell.endpoints e he).2)

/-- From a source to a sink, by two parallel edges. -/
def parallelEdges : List PipelineEdge := [⟨1, 2⟩, ⟨1, 2⟩]

theorem topologicalSort_exact_parallel :
    ∃ result, topologicalSort [2, 1] [⟨2, .sink, .sink⟩, ⟨1, .source, .source .query⟩] parallelEdges = some result ∧
      ((∃ order, result = .ok order) ↔ Valid [⟨2, .sink, .sink⟩, ⟨1, .source, .source .query⟩] parallelEdges) ∧
      ∀ order, result = .ok order → order.Perm (nodeIds [⟨2, .sink, .sink⟩, ⟨1, .source, .source .query⟩]) ∧
        ∀ e ∈ parallelEdges, order.idxOf e.fromNodeId < order.idxOf e.toNodeId :=
  topologicalSort_exact (by decide) (by decide)

end Checks

end Dag

end Reiver.Pond
