import Mathlib.Data.List.Basic
import Mathlib.Data.List.TakeWhile

/-! The partition point of a list: how many elements from the front satisfy a predicate. -/

namespace Reiver

variable {α : Type} {p : α → Bool} {l : List α} {i : Nat} {a : α}

def partitionPoint (p : α → Bool) (l : List α) : Nat := (l.takeWhile p).length

theorem partitionPoint_le_length : partitionPoint p l ≤ l.length := (List.takeWhile_sublist p).length_le

theorem lt_partitionPoint_iff (hl : l.Pairwise fun a b => p b = true → p a = true) (hi : l[i]? = some a) :
    i < partitionPoint p l ↔ p a = true := by
  rw [partitionPoint]
  induction l generalizing i with
  | nil => cases hi
  | cons b l ih =>
    obtain ⟨hb, hl⟩ := List.pairwise_cons.mp hl
    rw [List.takeWhile_cons]
    cases i with
    | zero =>
      cases Option.some.inj hi
      split
      · next hp => exact iff_of_true (Nat.succ_pos _) hp
      · next hp => exact iff_of_false (Nat.lt_irrefl _) hp
    | succ i =>
      have hmem : a ∈ l := List.mem_of_getElem? hi
      split
      · rw [List.length_cons, Nat.succ_lt_succ_iff]
        exact ih hl hi
      · next hp => exact iff_of_false (Nat.not_lt_zero _) fun ha => hp (hb a hmem ha)

theorem not_lt_partitionPoint (hi : l[i]? = none) : ¬i < partitionPoint p l := fun h =>
  Nat.not_lt.mpr (List.getElem?_eq_none_iff.mp hi) (h.trans_le partitionPoint_le_length)

end Reiver
