import Mathlib.Algebra.Order.Group.Multiset
import Mathlib.Data.Multiset.Filter

/-! What the elements of a list stand for, as a multiset, when one of them is replaced. -/

namespace Reiver

variable {α β : Type} {f : α → Option β} {l : List α} {i : Nat} {a : α}

/-- The values of the elements that have one. -/
def held (f : α → Option β) (l : List α) : Multiset β := Multiset.ofList (l.filterMap f)

theorem held_append : held f (l ++ [a]) = Multiset.ofList (f a).toList + held f l := by
  rw [held, List.filterMap_append, ← Multiset.coe_add, add_comm]
  cases hf : f a <;> simp [hf, held]

theorem held_set (h : l[i]? = some a) : ∃ rest : Multiset β,
    held f l = Multiset.ofList (f a).toList + rest ∧ ∀ b, held f (l.set i b) = Multiset.ofList (f b).toList + rest := by
  obtain ⟨hi, rfl⟩ := List.getElem?_eq_some_iff.mp h
  have hsplit : ∀ b, held f (l.take i ++ b :: l.drop (i + 1)) =
      Multiset.ofList (f b).toList + held f (l.take i ++ l.drop (i + 1)) := by
    intro b
    rw [held, held, List.filterMap_append, List.filterMap_append, ← Multiset.coe_add, ← Multiset.coe_add,
      add_left_comm]
    refine congrArg _ ?_
    cases hf : f b <;> simp [hf]
  refine ⟨held f (l.take i ++ l.drop (i + 1)), ?_, fun b => ?_⟩
  · rw [← hsplit, ← List.drop_eq_getElem_cons hi, List.take_append_drop]
  · rw [List.set_eq_take_append_cons_drop, if_pos hi, hsplit]

section Count
variable {s : Multiset α} {p q : α → Prop} [DecidablePred p] [DecidablePred q]

theorem countP_mono (h : ∀ a ∈ s, p a → q a) : s.countP p ≤ s.countP q := by
  induction s using Multiset.induction with
  | empty => rfl
  | cons a s ih =>
    have hrest := ih fun b hb => h b (Multiset.mem_cons_of_mem hb)
    have ha := h a (Multiset.mem_cons_self a s)
    rw [Multiset.countP_cons, Multiset.countP_cons]
    split_ifs with hp hq
    · exact Nat.succ_le_succ hrest
    · exact absurd (ha hp) hq
    · exact Nat.le_succ_of_le hrest
    · exact hrest

theorem countP_iff (h : ∀ a ∈ s, (p a ↔ q a)) : s.countP p = s.countP q :=
  Nat.le_antisymm (countP_mono fun a ha => (h a ha).mp) (countP_mono fun a ha => (h a ha).mpr)

theorem imp_of_countP_le (h : ∀ a ∈ s, p a → q a) (hle : s.countP q ≤ s.countP p) : ∀ a ∈ s, q a → p a := by
  intro a ha hq
  obtain ⟨rest, rfl⟩ := Multiset.exists_cons_of_mem ha
  by_contra hp
  have hrest := countP_mono fun b hb => h b (Multiset.mem_cons_of_mem hb)
  rw [Multiset.countP_cons_of_pos _ hq, Multiset.countP_cons_of_neg _ hp] at hle
  omega

end Count

end Reiver
