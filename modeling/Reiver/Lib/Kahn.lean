import Mathlib.Data.List.Nodup
import Mathlib.Data.List.Perm.Subperm
import Mathlib.Logic.Relation
import Mathlib.Order.WellFoundedSet

/-! Kahn's algorithm on a graph that may have parallel edges and loops. Nodes are taken off a queue that holds those
without an edge from a node that is not taken yet; all nodes are taken exactly if the graph has no cycle, and then every
edge goes forward. -/

namespace Reiver

section Kahn
variable {V : Type} [DecidableEq V]

/-- An edge to `v` from a node that is taken. -/
def relax (state : (V → Nat) × List V) (v : V) : (V → Nat) × List V :=
  let degree := state.1 v - 1
  (Function.update state.1 v degree, if degree = 0 then state.2 ++ [v] else state.2)

/-- The loop; `none` where it has not ended after `fuel` nodes. -/
def kahn (adjacency : V → List V) : Nat → (V → Nat) → List V → List V → Option (List V)
  | _, _, [], sorted => some sorted
  | 0, _, _ :: _, _ => none
  | fuel + 1, degree, v :: queue, sorted =>
    let next := (adjacency v).foldl relax (degree, queue)
    kahn adjacency fuel next.1 next.2 (sorted ++ [v])

def successors (edges : List (V × V)) (u : V) : List V := (edges.filter (·.1 = u)).map (·.2)

/-- The edges to a node from nodes that are not taken. -/
def remaining (edges : List (V × V)) (taken : List V) (v : V) : Nat :=
  edges.countP fun e => e.2 = v ∧ e.1 ∉ taken

def Acyclic (edges : List (V × V)) : Prop := ∀ v, ¬ Relation.TransGen (fun u v => (u, v) ∈ edges) v v

/-- The state of the loop: the degrees count the edges that remain, and those to the nodes `rest` that are still to be
    followed; the nodes of degree zero are taken or queued, and what is taken comes after all nodes it has edges
    from. -/
structure Frontier (nodes : List V) (edges : List (V × V)) (degree : V → Nat) (queue sorted rest : List V) : Prop where
  degree_eq : ∀ v, degree v = remaining edges sorted v + rest.count v
  nodup : (sorted ++ queue).Nodup
  subset : ∀ v ∈ sorted ++ queue, v ∈ nodes
  free : ∀ v ∈ nodes, v ∈ sorted ++ queue ↔ degree v = 0
  ordered : ∀ before v after, sorted = before ++ v :: after → ∀ e ∈ edges, e.2 = v → e.1 ∈ before

section Steps
variable {nodes : List V} {edges : List (V × V)} {degree : V → Nat} {queue sorted rest : List V} {u v : V}

theorem remaining_eq_zero : remaining edges sorted v = 0 ↔ ∀ e ∈ edges, e.2 = v → e.1 ∈ sorted := by
  rw [remaining, List.countP_eq_zero]
  exact forall₂_congr fun e _ => by rw [decide_eq_true_eq, not_and, not_not]

theorem count_successors_cons (e : V × V) :
    (successors (e :: edges) u).count v = (successors edges u).count v + if e.1 = u ∧ e.2 = v then 1 else 0 := by
  rw [successors, List.filter_cons]
  by_cases he : e.1 = u
  · rw [if_pos (decide_eq_true he), List.map_cons, List.count_cons]
    simp only [successors, he, true_and, beq_iff_eq]
  · rw [if_neg (by simpa using he), if_neg fun h => he h.1]
    rfl

theorem remaining_cons (e : V × V) :
    remaining (e :: edges) sorted v = remaining edges sorted v + if e.2 = v ∧ e.1 ∉ sorted then 1 else 0 := by
  rw [remaining, List.countP_cons]
  simp only [decide_eq_true_eq]
  rfl

theorem remaining_concat (hu : u ∉ sorted) :
    remaining edges sorted v = remaining edges (sorted ++ [u]) v + (successors edges u).count v := by
  induction edges with
  | nil => rfl
  | cons e edges ih =>
    rw [remaining_cons, remaining_cons, count_successors_cons, ih]
    by_cases he : e.1 = u
    · have hnew : u ∈ sorted ++ [u] := List.mem_append_right _ (List.mem_singleton_self u)
      simp only [he, hu, hnew, not_true_eq_false, not_false_eq_true, and_true, and_false, true_and, if_false]
      omega
    · have hsame : e.1 ∈ sorted ++ [u] ↔ e.1 ∈ sorted := by simp [he]
      simp only [hsame, he, false_and, if_false]
      omega

theorem Frontier.relax (h : Frontier nodes edges degree queue sorted (v :: rest)) (hv : v ∈ nodes) :
    Frontier nodes edges (Reiver.relax (degree, queue) v).1 (Reiver.relax (degree, queue) v).2 sorted rest := by
  have hdegree := h.degree_eq v
  rw [List.count_cons_self] at hdegree
  have hfresh : v ∉ sorted ++ queue := fun hmem => by
    have := (h.free v hv).mp hmem
    omega
  have hother : ∀ w, w ≠ v → (Reiver.relax (degree, queue) v).1 w = degree w := fun w hw => Function.update_of_ne hw _ _
  have hself : (Reiver.relax (degree, queue) v).1 v = degree v - 1 := Function.update_self _ _ _
  have hqueue : (Reiver.relax (degree, queue) v).2 = if degree v - 1 = 0 then queue ++ [v] else queue := rfl
  refine ⟨fun w => ?_, ?_, ?_, fun w hw => ?_, h.ordered⟩
  · by_cases hwv : w = v
    · subst hwv
      rw [hself]
      omega
    · rw [hother w hwv, h.degree_eq w, List.count_cons_of_ne (Ne.symm hwv)]
  · rw [hqueue]
    split
    · rw [← List.append_assoc]
      exact List.nodup_append.mpr ⟨h.nodup, List.nodup_singleton v, fun a ha b hb hab =>
        hfresh (List.mem_singleton.mp hb ▸ hab ▸ ha)⟩
    · exact h.nodup
  · rw [hqueue]
    split
    · rw [← List.append_assoc]
      intro w hw
      rcases List.mem_append.mp hw with hw | hw
      · exact h.subset w hw
      · exact List.mem_singleton.mp hw ▸ hv
    · exact h.subset
  · rw [hqueue]
    by_cases hwv : w = v
    · subst hwv
      rw [hself]
      split
      · next hzero => exact iff_of_true (by simp) hzero
      · next hzero => exact iff_of_false hfresh hzero
    · rw [hother w hwv, ← h.free w hw]
      split
      · simp [hwv]
      · rfl

theorem Frontier.foldl_relax (h : Frontier nodes edges degree queue sorted rest) (hrest : ∀ v ∈ rest, v ∈ nodes) :
    Frontier nodes edges (rest.foldl Reiver.relax (degree, queue)).1 (rest.foldl Reiver.relax (degree, queue)).2
      sorted [] := by
  induction rest generalizing degree queue with
  | nil => exact h
  | cons v rest ih =>
    exact ih (h.relax (hrest v List.mem_cons_self)) fun w hw => hrest w (List.mem_cons_of_mem v hw)

theorem Frontier.pop (h : Frontier nodes edges degree (u :: queue) sorted []) :
    Frontier nodes edges degree queue (sorted ++ [u]) (successors edges u) := by
  have hlist : sorted ++ [u] ++ queue = sorted ++ u :: queue := by rw [List.append_assoc, List.singleton_append]
  have hmem : u ∈ sorted ++ u :: queue := by simp
  have hu : u ∉ sorted := fun hu => (List.nodup_append.mp h.nodup).2.2 u hu u List.mem_cons_self rfl
  have hzero : remaining edges sorted u = 0 := by
    have hdegree := h.degree_eq u
    rw [(h.free u (h.subset u hmem)).mp hmem] at hdegree
    exact Nat.eq_zero_of_add_eq_zero_right hdegree.symm
  refine ⟨fun v => ?_, hlist ▸ h.nodup, hlist ▸ h.subset, hlist ▸ h.free, fun before v after hsplit e he hev => ?_⟩
  · rw [h.degree_eq v, List.count_nil, Nat.add_zero, remaining_concat hu]
  · rcases List.eq_nil_or_concat after with rfl | ⟨after, w, rfl⟩
    · obtain ⟨rfl, hlast⟩ := List.append_inj' hsplit rfl
      obtain rfl : u = v := List.singleton_inj.mp hlast
      exact remaining_eq_zero.mp hzero e he hev
    · rw [List.concat_eq_append, ← List.cons_append, ← List.append_assoc] at hsplit
      obtain ⟨hsorted, -⟩ := List.append_inj' hsplit rfl
      exact h.ordered before v after hsorted e he hev

theorem mem_successors : v ∈ successors edges u ↔ (u, v) ∈ edges := by
  simp only [successors, List.mem_map, List.mem_filter, decide_eq_true_eq]
  constructor
  · rintro ⟨e, ⟨he, rfl⟩, rfl⟩
    exact he
  · exact fun h => ⟨(u, v), ⟨h, rfl⟩, rfl⟩

theorem kahn_spec (hends : ∀ e ∈ edges, e.2 ∈ nodes) (fuel : Nat)
    (h : Frontier nodes edges degree queue sorted []) (hfuel : nodes.length ≤ sorted.length + fuel) :
    ∃ out degree', kahn (successors edges) fuel degree queue sorted = some out ∧
      Frontier nodes edges degree' [] out [] := by
  induction fuel generalizing degree queue sorted with
  | zero =>
    cases queue with
    | nil => exact ⟨sorted, degree, rfl, h⟩
    | cons u queue =>
      have hlength := (h.nodup.subperm h.subset).length_le
      rw [List.length_append, List.length_cons] at hlength
      omega
  | succ fuel ih =>
    cases queue with
    | nil => exact ⟨sorted, degree, rfl, h⟩
    | cons u queue =>
      have hnext := h.pop.foldl_relax fun v hv => hends (u, v) (mem_successors.mp hv)
      exact ih hnext (by rw [List.length_append, List.length_singleton]; omega)

end Steps

/-! ### The result -/

section Result
variable {nodes : List V} {edges : List (V × V)} {degree : V → Nat} {out : List V}

theorem frontier_start {iteration : List V} (hiteration : iteration.Perm nodes) (hnodup : nodes.Nodup) :
    Frontier nodes edges (remaining edges []) (iteration.filter fun v => remaining edges [] v = 0) [] [] := by
  refine ⟨fun v => by rw [List.count_nil, Nat.add_zero], ?_, fun v hv => ?_, fun v hv => ?_, fun before v after h => ?_⟩
  · exact (hiteration.nodup_iff.mpr hnodup).filter _
  · exact hiteration.mem_iff.mp (List.mem_of_mem_filter hv)
  · rw [List.nil_append, List.mem_filter, decide_eq_true_eq]
    exact and_iff_right (hiteration.mem_iff.mpr hv)
  · exact absurd h.symm (List.append_ne_nil_of_right_ne_nil _ (List.cons_ne_nil _ _))

theorem Frontier.sublist (h : Frontier nodes edges degree [] out []) {e : V × V} (he : e ∈ edges) (hmem : e.2 ∈ out) :
    [e.1, e.2].Sublist out := by
  obtain ⟨before, after, rfl⟩ := List.append_of_mem hmem
  have hbefore := h.ordered before e.2 after rfl e he rfl
  exact (List.singleton_sublist.mpr hbefore).append (List.singleton_sublist.mpr List.mem_cons_self)

theorem idxOf_lt_of_sublist {l : List V} {u v : V} (hnodup : l.Nodup) (h : [u, v].Sublist l) :
    l.idxOf u < l.idxOf v := by
  induction l with
  | nil => cases h
  | cons a l ih =>
    obtain ⟨ha, hl⟩ := List.nodup_cons.mp hnodup
    rcases List.cons_sublist_cons'.mp h with hrest | ⟨rfl, hv⟩
    · have hne : ∀ w ∈ l, a ≠ w := fun w hw hwa => ha (hwa ▸ hw)
      rw [List.idxOf_cons_ne _ (hne u (hrest.subset List.mem_cons_self)),
        List.idxOf_cons_ne _ (hne v (hrest.subset (List.mem_cons_of_mem _ List.mem_cons_self)))]
      exact Nat.succ_lt_succ (ih hl hrest)
    · have hv : v ∈ l := List.singleton_sublist.mp hv
      rw [List.idxOf_cons_self, List.idxOf_cons_ne _ fun h : u = v => ha (h ▸ hv)]
      exact Nat.succ_pos _

theorem acyclic_of_sublist (hnodup : out.Nodup) (h : ∀ e ∈ edges, [e.1, e.2].Sublist out) : Acyclic edges := by
  have hlt : ∀ u w, Relation.TransGen (fun u v => (u, v) ∈ edges) u w → out.idxOf u < out.idxOf w := by
    intro u w huw
    induction huw with
    | single he => exact idxOf_lt_of_sublist hnodup (h _ he)
    | tail _ he ih => exact ih.trans (idxOf_lt_of_sublist hnodup (h _ he))
  exact fun v hv => lt_irrefl _ (hlt v v hv)

theorem Frontier.complete (h : Frontier nodes edges degree [] out []) (hstarts : ∀ e ∈ edges, e.1 ∈ nodes)
    (hacyclic : Acyclic edges) {v : V} (hv : v ∈ nodes) : v ∈ out := by
  have hstrict : IsStrictOrder V (Relation.TransGen fun u v => (u, v) ∈ edges) :=
    { irrefl := hacyclic, trans := fun _ _ _ => Relation.TransGen.trans }
  have hfinite : {v | v ∈ nodes}.Finite := List.finite_toSet nodes
  have hwf := hfinite.wellFoundedOn (r := Relation.TransGen fun u v => (u, v) ∈ edges)
  refine hwf.induction (P := fun v => v ∈ out) hv fun v hv ih => ?_
  have hmem := (h.free v hv).mpr ?_
  · rwa [List.append_nil] at hmem
  · rw [h.degree_eq, List.count_nil, Nat.add_zero, remaining_eq_zero]
    rintro e he rfl
    exact ih e.1 (hstarts e he) (.single he)

theorem Frontier.length_iff (h : Frontier nodes edges degree [] out []) (hnodup : nodes.Nodup)
    (hends : ∀ e ∈ edges, e.1 ∈ nodes ∧ e.2 ∈ nodes) : out.length = nodes.length ↔ Acyclic edges := by
  have hout : out.Nodup := List.append_nil out ▸ h.nodup
  have hsub : ∀ v ∈ out, v ∈ nodes := List.append_nil out ▸ h.subset
  constructor
  · intro hlength
    have hperm := (hout.subperm hsub).perm_of_length_le hlength.ge
    exact acyclic_of_sublist hout fun e he => h.sublist he (hperm.mem_iff.mpr (hends e he).2)
  · intro hacyclic
    have hall : ∀ v ∈ nodes, v ∈ out := fun v hv => h.complete (fun e he => (hends e he).1) hacyclic hv
    exact le_antisymm (hout.subperm hsub).length_le (hnodup.subperm hall).length_le

end Result

end Kahn

end Reiver
