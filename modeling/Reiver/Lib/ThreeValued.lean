import Mathlib.Data.List.Basic

/-! The three-valued logic of conditions: true, false, and neither of them. -/

namespace Reiver

abbrev Truth := Option Bool

namespace Truth

def not (t : Truth) : Truth := t.map (!·)

def and : Truth → Truth → Truth
  | some true, t => t
  | some false, _ => some false
  | none, some false => some false
  | none, _ => none

def or (s t : Truth) : Truth := not (and (not s) (not t))

def any (l : List Truth) : Truth := l.foldr or (some false)

def all (l : List Truth) : Truth := l.foldr and (some true)

def negatedIf (negated : Bool) (t : Truth) : Truth := if negated then t.not else t

theorem and_eq_true {s t : Truth} : s.and t = some true ↔ s = some true ∧ t = some true := by
  rcases s with _ | _ | _ <;> rcases t with _ | _ | _ <;> decide

theorem or_eq_true {s t : Truth} : s.or t = some true ↔ s = some true ∨ t = some true := by
  rcases s with _ | _ | _ <;> rcases t with _ | _ | _ <;> decide

theorem any_eq_true {l : List Truth} : any l = some true ↔ some true ∈ l := by
  induction l with
  | nil => decide
  | cons t l ih =>
    show or t (any l) = some true ↔ _
    rw [or_eq_true, ih, List.mem_cons]
    exact or_congr_left eq_comm

theorem not_eq_some {t : Truth} {b : Bool} : t.not = some b ↔ t = some !b := by
  rcases t with _ | _ | _ <;> cases b <;> decide

theorem and_eq_false {s t : Truth} : s.and t = some false ↔ s = some false ∨ t = some false := by
  rcases s with _ | _ | _ <;> rcases t with _ | _ | _ <;> decide

theorem or_eq_false {s t : Truth} : s.or t = some false ↔ s = some false ∧ t = some false := by
  rcases s with _ | _ | _ <;> rcases t with _ | _ | _ <;> decide

theorem any_eq_false {l : List Truth} : any l = some false ↔ ∀ t ∈ l, t = some false := by
  induction l with
  | nil => exact iff_of_true rfl fun _ h => absurd h List.not_mem_nil
  | cons t l ih =>
    show or t (any l) = some false ↔ _
    rw [or_eq_false, ih, List.forall_mem_cons]

theorem all_eq_true {l : List Truth} : all l = some true ↔ ∀ t ∈ l, t = some true := by
  induction l with
  | nil => exact iff_of_true rfl fun _ h => absurd h List.not_mem_nil
  | cons t l ih =>
    show and t (all l) = some true ↔ _
    rw [and_eq_true, ih, List.forall_mem_cons]

theorem all_eq_false {l : List Truth} : all l = some false ↔ some false ∈ l := by
  induction l with
  | nil => decide
  | cons t l ih =>
    show and t (all l) = some false ↔ _
    rw [and_eq_false, ih, List.mem_cons]
    exact or_congr_left eq_comm

theorem and_true (t : Truth) : t.and (some true) = t := by
  rcases t with _ | _ | _ <;> rfl

theorem and_assoc (s t u : Truth) : (s.and t).and u = s.and (t.and u) := by
  rcases s with _ | _ | _ <;> rcases t with _ | _ | _ <;> rcases u with _ | _ | _ <;> rfl

theorem or_false (t : Truth) : t.or (some false) = t := by
  rcases t with _ | _ | _ <;> rfl

theorem or_assoc (s t u : Truth) : (s.or t).or u = s.or (t.or u) := by
  rcases s with _ | _ | _ <;> rcases t with _ | _ | _ <;> rcases u with _ | _ | _ <;> rfl

theorem all_singleton (t : Truth) : all [t] = t := and_true t

theorem all_append (l r : List Truth) : all (l ++ r) = (all l).and (all r) := by
  induction l with
  | nil => rfl
  | cons t l ih =>
    show and t (all (l ++ r)) = (and t (all l)).and (all r)
    rw [ih, and_assoc]

theorem negatedIf_eq_some {negated b : Bool} {t : Truth} :
    negatedIf negated t = some b ↔ t = some (b ^^ negated) := by
  cases negated
  · simp [negatedIf]
  · simp [negatedIf, not_eq_some]

end Truth

end Reiver
