import Mathlib.Algebra.BigOperators.Group.Multiset.Basic
import Mathlib.Data.Multiset.Filter
import Reiver.Lib.Fallible

/-! Values at the nodes of a graph without cycles. Where the value of a node is made from those of the nodes before it,
the equations have one solution at most; where every item that arrives is treated alone, flows add up. -/

namespace Reiver

section Equations
variable {V D ε : Type} {equation : V → (V → D) → Except ε D} {order before after : List V} {f g : V → D} {v : V}
  {d : D}

/-- What a node holds depends on the nodes before it. -/
def LooksBack (equation : V → (V → D) → Except ε D) (order : List V) : Prop :=
  ∀ before v after, order = before ++ v :: after → ∀ f g, (∀ u ∈ before, f u = g u) → equation v f = equation v g

def Solution (equation : V → (V → D) → Except ε D) (order : List V) (f : V → D) : Prop :=
  ∀ v ∈ order, equation v f = .ok (f v)

theorem LooksBack.of_append (h : LooksBack equation (before ++ after)) : LooksBack equation before := by
  intro pre v post hsplit
  exact h pre v (post ++ after) (by rw [hsplit, List.append_assoc, List.cons_append])

theorem LooksBack.last (h : LooksBack equation (before ++ v :: after)) (hfg : ∀ u ∈ before, f u = g u) :
    equation v f = equation v g := h before v after rfl f g hfg

theorem Solution.unique (hback : LooksBack equation order) (hf : Solution equation order f)
    (hg : Solution equation order g) : ∀ v ∈ order, f v = g v := by
  induction order using List.reverseRecOn with
  | nil => exact fun v hv => absurd hv List.not_mem_nil
  | append_singleton before v ih =>
    have hbefore := ih hback.of_append (fun u hu => hf u (List.mem_append_left _ hu))
      fun u hu => hg u (List.mem_append_left _ hu)
    intro u hu
    rcases List.mem_append.mp hu with hu | hu
    · exact hbefore u hu
    · have hlast : v ∈ before ++ [v] := List.mem_append_right _ (List.mem_singleton_self v)
      obtain rfl := List.mem_singleton.mp hu
      exact Except.ok.inj ((hf u hlast).symm.trans ((hback.last hbefore).trans (hg u hlast)))

theorem Solution.extend [DecidableEq V] (hback : LooksBack equation (before ++ v :: after)) (hnew : v ∉ before)
    (hf : Solution equation before f) (hd : equation v f = .ok d) :
    Solution equation (before ++ [v]) (Function.update f v d) := by
  have hother : ∀ u ∈ before, Function.update f v d u = f u := fun u hu =>
    Function.update_of_ne (ne_of_mem_of_not_mem hu hnew) _ _
  have hfront : LooksBack equation (before ++ [v]) := by
    have hsplit : LooksBack equation ((before ++ [v]) ++ after) := by rwa [List.append_assoc, List.singleton_append]
    exact hsplit.of_append
  intro u hu
  rcases List.mem_append.mp hu with hu | hu
  · obtain ⟨pre, post, rfl⟩ := List.append_of_mem hu
    rw [hother u hu, ← hf u hu]
    exact (hfront.of_append).last fun w hw => hother w (List.mem_append_left _ hw)
  · obtain rfl := List.mem_singleton.mp hu
    rw [Function.update_self, ← hd]
    exact hfront.last hother

end Equations

section Flows
variable {V β ε : Type} {upstream : V → List V} {stage : V → β → Except ε β} {order before : List V}
  {reads reads' f g : V → Multiset β} {v : V}

/-- The items of the nodes that a node has edges from, once for each edge. -/
def arrivals (upstream : V → List V) (f : V → Multiset β) (v : V) : Multiset β := ((upstream v).map f).sum

/-- A node holds what it reads and what it makes of the items that arrive. -/
def Flow (upstream : V → List V) (reads : V → Multiset β) (stage : V → β → Except ε β) (order : List V)
    (f : V → Multiset β) : Prop :=
  ∀ v ∈ order, f v = reads v + (arrivals upstream f v).filterMap fun b => (stage v b).toOption

/-- The nodes that a node has edges from come before it. -/
def Backward (upstream : V → List V) (order : List V) : Prop :=
  ∀ before v after, order = before ++ v :: after → ∀ u ∈ upstream v, u ∈ before

theorem Backward.partition {p : V → Bool} (hback : Backward upstream order) (hp : ∀ v, p v = true → upstream v = []) :
    Backward upstream (order.filter p ++ order.filter fun v => !p v) := by
  intro before v after hsplit u hu
  have hv : p v ≠ true := fun h => by
    rw [hp v h] at hu
    exact List.not_mem_nil hu
  obtain ⟨pre, rfl, hpre⟩ : ∃ pre, before = order.filter p ++ pre ∧
    order.filter (fun v => !p v) = pre ++ v :: after := by
    rcases List.append_eq_append_iff.mp hsplit with hleft | ⟨_ | ⟨w, rest⟩, hfilter, hrest⟩
    · exact hleft
    · exact ⟨[], by rw [hfilter, List.append_nil, List.append_nil], hrest.symm⟩
    · cases hrest
      exact absurd (List.mem_filter.mp (hfilter ▸ List.mem_append_right _ List.mem_cons_self)).2 hv
  obtain ⟨l, l', rfl, hl, hl'⟩ := List.filter_eq_append_iff.mp hpre
  obtain ⟨skipped, rest, rfl, hskipped, -, -⟩ := List.filter_eq_cons_iff.mp hl'
  have hin : u ∈ l ++ skipped := hback (l ++ skipped) v rest (by simp) u hu
  by_cases hpu : p u = true
  · have hmem : u ∈ l ++ (skipped ++ v :: rest) := by
      rw [← List.append_assoc]
      exact List.mem_append_left _ hin
    exact List.mem_append_left _ (List.mem_filter.mpr ⟨hmem, hpu⟩)
  · have hnot : (!p u) = true := by rw [Bool.eq_false_of_not_eq_true hpu]; rfl
    rcases List.mem_append.mp hin with hin | hin
    · exact List.mem_append_right _ (hl ▸ List.mem_filter.mpr ⟨hin, hnot⟩)
    · exact absurd hnot (hskipped u hin)

theorem arrivals_congr (h : ∀ u ∈ upstream v, f u = g u) : arrivals upstream f v = arrivals upstream g v := by
  rw [arrivals, arrivals, List.map_congr_left h]

theorem arrivals_add : arrivals upstream (f + g) v = arrivals upstream f v + arrivals upstream g v := by
  rw [arrivals, arrivals, arrivals]
  induction upstream v with
  | nil => rfl
  | cons u l ih =>
    rw [List.map_cons, List.map_cons, List.map_cons, List.sum_cons, List.sum_cons, List.sum_cons, ih, Pi.add_apply]
    exact add_add_add_comm _ _ _ _

theorem arrivals_zero : arrivals upstream (0 : V → Multiset β) v = 0 :=
  List.sum_eq_zero fun x hx => by
    obtain ⟨u, -, rfl⟩ := List.mem_map.mp hx
    rfl

theorem Flow.zero : Flow upstream (0 : V → Multiset β) stage order 0 := fun v _ => by
  rw [arrivals_zero, Multiset.filterMap_zero]
  rfl

theorem Flow.add (hf : Flow upstream reads stage order f) (hg : Flow upstream reads' stage order g) :
    Flow upstream (reads + reads') stage order (f + g) := fun v hv => by
  rw [arrivals_add, Multiset.filterMap_add, Pi.add_apply, Pi.add_apply, hf v hv, hg v hv]
  exact add_add_add_comm _ _ _ _

theorem Flow.unique (hback : Backward upstream order) (hf : Flow upstream reads stage order f)
    (hg : Flow upstream reads stage order g) : ∀ v ∈ order, f v = g v := by
  let equation : V → (V → Multiset β) → Except ε (Multiset β) := fun v f =>
    .ok (reads v + (arrivals upstream f v).filterMap fun b => (stage v b).toOption)
  have hlooks : LooksBack equation order := fun before v after hsplit f g hfg => by
    have harrivals := arrivals_congr fun u hu => hfg u (hback before v after hsplit u hu)
    simp only [equation, harrivals]
  exact Solution.unique hlooks (fun v hv => congrArg Except.ok (hf v hv).symm)
    fun v hv => congrArg Except.ok (hg v hv).symm

theorem arrivals_coe (l : V → List β) :
    arrivals upstream (fun u => (l u : Multiset β)) v = ((upstream v).flatMap l : List β) := by
  rw [arrivals]
  induction upstream v with
  | nil => rfl
  | cons u rest ih =>
    rw [List.map_cons, List.sum_cons, ih, List.flatMap_cons, Multiset.coe_add]

theorem filterMap_of_mapM {stage : β → Except ε β} {l made : List β} (h : l.mapM stage = .ok made) :
    l.filterMap (fun b => (stage b).toOption) = made := by
  induction l generalizing made with
  | nil =>
    cases h
    rfl
  | cons b l ih =>
    obtain ⟨c, rest, hc, hrest, rfl⟩ := mapM_cons_ok h
    rw [List.filterMap_cons, hc, ih hrest]
    rfl

end Flows

end Reiver
