import Mathlib.Order.Lattice

/-! Greatest elements of lists by a key, kept while the lists are read. -/

namespace Reiver

section Greatest
variable {α β κ : Type} [LinearOrder κ] {key : α → κ} {a b : Option α} {l l' : List α}

/-- The greater of two elements, the second of two equal ones. -/
def greater (key : α → κ) : Option α → Option α → Option α
  | none, b => b
  | a, none => a
  | some a, some b => some (if key a ≤ key b then b else a)

def greatest (key : α → κ) (l : List α) : Option α := l.foldl (fun a v => greater key a (some v)) none

/-- A greatest element of a list, if it has elements. -/
def GreatestIn (key : α → κ) (a : Option α) (l : List α) : Prop :=
  a.elim (l = []) fun v => v ∈ l ∧ ∀ w ∈ l, key w ≤ key v

theorem greatestIn_nil : GreatestIn key none [] := rfl

theorem greatestIn_singleton (v : α) : GreatestIn key (some v) [v] :=
  ⟨List.mem_singleton_self v, fun _ hw => List.mem_singleton.mp hw ▸ le_rfl⟩

theorem GreatestIn.eq_none_iff (h : GreatestIn key a l) : a = none ↔ l = [] := by
  cases a with
  | none => exact iff_of_true rfl h
  | some v => exact iff_of_false (Option.some_ne_none v) (List.ne_nil_of_mem h.1)

theorem GreatestIn.append (h : GreatestIn key a l) (h' : GreatestIn key b l') :
    GreatestIn key (greater key a b) (l ++ l') := by
  cases a with
  | none =>
    have hnil : l = [] := h
    rw [hnil, List.nil_append]
    exact h'
  | some v =>
    cases b with
    | none =>
      have hnil : l' = [] := h'
      rw [hnil, List.append_nil]
      exact h
    | some w =>
      obtain ⟨hv, hle⟩ := h
      obtain ⟨hw, hle'⟩ := h'
      rw [greater]
      split
      · next hvw =>
        refine ⟨List.mem_append_right _ hw, fun u hu => ?_⟩
        rcases List.mem_append.mp hu with hu | hu
        · exact (hle u hu).trans hvw
        · exact hle' u hu
      · next hvw =>
        refine ⟨List.mem_append_left _ hv, fun u hu => ?_⟩
        rcases List.mem_append.mp hu with hu | hu
        · exact hle u hu
        · exact (hle' u hu).trans (le_of_not_ge hvw)

theorem greatestIn_greatest (l : List α) : GreatestIn key (greatest key l) l := by
  have hfold : ∀ (l before : List α) (a : Option α), GreatestIn key a before →
      GreatestIn key (l.foldl (fun a v => greater key a (some v)) a) (before ++ l) := by
    intro l
    induction l with
    | nil => exact fun before a h => (List.append_nil before).symm ▸ h
    | cons v l ih =>
      intro before a h
      rw [List.foldl_cons, ← List.singleton_append, ← List.append_assoc]
      exact ih _ _ (h.append (greatestIn_singleton v))
  exact hfold l [] none greatestIn_nil

theorem GreatestIn.map {κ' : Type} [LinearOrder κ'] {key' : β → κ'} {f : α → β} (h : GreatestIn key a l)
    (hf : ∀ v w, key v ≤ key w → key' (f v) ≤ key' (f w)) : GreatestIn key' (a.map f) (l.map f) := by
  cases a with
  | none => exact congrArg (List.map f) (show l = [] from h)
  | some v =>
    refine ⟨List.mem_map_of_mem h.1, fun w hw => ?_⟩
    obtain ⟨u, hu, rfl⟩ := List.mem_map.mp hw
    exact hf u v (h.2 u hu)

end Greatest

end Reiver
