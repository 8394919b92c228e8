import Mathlib.Data.Finset.Lattice.Basic
import Mathlib.Data.Finset.Insert

/-! Questions about a finite set that one of its members answers. Such a question may be asked of a union
    in place of its parts, which is what a summary of several sets is for. -/

namespace Reiver
variable {α : Type}

section Union
variable [DecidableEq α]

def unionAll (l : List (Finset α)) : Finset α := l.foldr (· ∪ ·) ∅

@[simp] theorem mem_unionAll {l : List (Finset α)} {a : α} : a ∈ unionAll l ↔ ∃ s ∈ l, a ∈ s := by
  induction l with
  | nil => simp [unionAll]
  | cons s l ih =>
    simp only [unionAll, List.foldr_cons, Finset.mem_union, List.mem_cons, exists_eq_or_imp] at ih ⊢; rw [ih]

@[simp] theorem unionAll_nil : unionAll ([] : List (Finset α)) = ∅ := rfl

theorem unionAll_concat (l : List (Finset α)) (s : Finset α) : unionAll (l ++ [s]) = unionAll l ∪ s := by
  ext a
  simp only [mem_unionAll, Finset.mem_union, List.mem_append, List.mem_singleton, or_and_right, exists_or,
    exists_eq_left]

end Union

/-- `q` holds of a set when it holds outright or one member of the set answers it. -/
def Witnessed (q : Finset α → Bool) : Prop :=
  ∃ outright : Prop, ∃ answers : α → Prop, ∀ s, q s = true ↔ outright ∨ ∃ a ∈ s, answers a

namespace Witnessed
variable {q : Finset α → Bool}

theorem of_exists (answers : α → Prop) (h : ∀ s, q s = true ↔ ∃ a ∈ s, answers a) : Witnessed q :=
  ⟨False, answers, fun s => by rw [h, false_or]⟩

theorem of_outright (h : ∀ s, q s = true) : Witnessed q :=
  ⟨True, fun _ => False, fun s => iff_of_true (h s) (Or.inl trivial)⟩

theorem mono (h : Witnessed q) {s t : Finset α} (hst : s ⊆ t) (hs : q s = true) : q t = true := by
  obtain ⟨outright, answers, hq⟩ := h
  rcases (hq s).mp hs with ho | ⟨a, ha, hans⟩
  · exact (hq t).mpr (Or.inl ho)
  · exact (hq t).mpr (Or.inr ⟨a, hst ha, hans⟩)

theorem unionAll_iff [DecidableEq α] (h : Witnessed q) {l : List (Finset α)} (hl : l ≠ []) :
    q (unionAll l) = true ↔ ∃ s ∈ l, q s = true := by
  constructor
  · intro hu
    obtain ⟨outright, answers, hq⟩ := h
    rcases (hq _).mp hu with ho | ⟨a, ha, hans⟩
    · obtain ⟨s, hs⟩ := List.exists_mem_of_ne_nil l hl
      exact ⟨s, hs, (hq s).mpr (Or.inl ho)⟩
    · obtain ⟨s, hs, has⟩ := mem_unionAll.mp ha
      exact ⟨s, hs, (hq s).mpr (Or.inr ⟨a, has, hans⟩)⟩
  · rintro ⟨s, hs, hqs⟩
    exact h.mono (fun a ha => mem_unionAll.mpr ⟨s, hs, ha⟩) hqs

end Witnessed

end Reiver
