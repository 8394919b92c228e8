import Mathlib.Order.Lattice

/-! # Windows of time

Consecutive windows: each starts after a mark and ends at a moment, and the mark of the next one is set when it is over.
When every instant is in exactly one of them. -/

namespace Reiver.Lib.Windows

variable {T : Type} [LinearOrder T]

/-- A window's end, and the mark the next one starts after. -/
structure Window (T : Type) where
  stop : T
  mark : T

/-- In how many windows an instant is, the first one starting after a mark. -/
def count (t : T) : T → List (Window T) → Nat
  | _, [] => 0
  | mark, w :: ws => (if mark < t ∧ t ≤ w.stop then 1 else 0) + count t w.mark ws

/-- Windows end and set their marks in order, and a mark is not behind the end of the next window. -/
def Ordered : T → List (Window T) → Prop
  | _, [] => True
  | mark, w :: ws => mark ≤ w.mark ∧ (∀ w' ∈ ws, w.stop ≤ w'.stop) ∧ Ordered w.mark ws

theorem count_eq_zero {t mark : T} {ws : List (Window T)} (h : Ordered mark ws) (ht : t ≤ mark) :
    count t mark ws = 0 := by
  induction ws generalizing mark with
  | nil => rfl
  | cons w ws ih =>
    obtain ⟨hmark, -, hrest⟩ := h
    have hnot : ¬(mark < t ∧ t ≤ w.stop) := fun hin => absurd hin.1 (not_lt.mpr ht)
    rw [count, if_neg hnot, ih hrest (ht.trans hmark)]

theorem mark_le {mark : T} {ws : List (Window T)} (h : Ordered mark ws) : ∀ w ∈ ws, mark ≤ w.mark := by
  induction ws generalizing mark with
  | nil => simp
  | cons w ws ih =>
    obtain ⟨hmark, -, hrest⟩ := h
    rintro w' hw'
    rcases List.mem_cons.mp hw' with rfl | hmem
    · exact hmark
    · exact hmark.trans (ih hrest w' hmem)

/-- Between the first mark and the last end an instant is in exactly one window when every window but the last has it
before its end exactly if it is not after its mark. -/
theorem count_eq_one_iff {t mark : T} {ws : List (Window T)} {last : Window T} (h : Ordered mark (ws ++ [last]))
    (ht : t ≤ last.stop) :
    count t mark (ws ++ [last]) = 1 ↔ mark < t ∧ ∀ w ∈ ws, (t ≤ w.stop ↔ t ≤ w.mark) := by
  induction ws generalizing mark with
  | nil => simp [count, ht]
  | cons w ws ih =>
    rw [List.cons_append] at h ⊢
    obtain ⟨hmark, hstops, hrest⟩ := h
    have hih := ih hrest
    rw [count]
    by_cases hstop : t ≤ w.stop
    · have hlater : ∀ w' ∈ ws, t ≤ w'.stop := fun w' hw' => hstop.trans (hstops w' (List.mem_append_left _ hw'))
      by_cases hafter : mark < t
      · rw [if_pos ⟨hafter, hstop⟩]
        by_cases hseen : t ≤ w.mark
        · -- no later window starts before the instant
          have hmarks : ∀ w' ∈ ws, t ≤ w'.mark := fun w' hw' =>
            hseen.trans (mark_le hrest w' (List.mem_append_left _ hw'))
          rw [count_eq_zero hrest hseen]
          simp only [Nat.add_zero, List.mem_cons, forall_eq_or_imp, true_iff]
          exact ⟨hafter, iff_of_true hstop hseen, fun w' hw' => iff_of_true (hlater w' hw') (hmarks w' hw')⟩
        · -- the next window has it again
          have hagain : 0 < count t w.mark (ws ++ [last]) := by
            cases ws with
            | nil => simp [count, not_le.mp hseen, ht]
            | cons w' ws' =>
              rw [List.cons_append, count, if_pos ⟨not_le.mp hseen, hlater w' (List.mem_cons_self ..)⟩]
              omega
          constructor
          · intro hone
            omega
          · rintro ⟨-, hall⟩
            exact absurd ((hall w (List.mem_cons_self ..)).mp hstop) hseen
      · rw [count_eq_zero hrest ((not_lt.mp hafter).trans hmark), if_neg fun hin => hafter hin.1]
        constructor
        · intro hone
          exact absurd hone (by decide)
        · exact fun hall => absurd hall.1 hafter
    · rw [if_neg fun hin => hstop hin.2, Nat.zero_add, hih]
      constructor
      · rintro ⟨hafter, hall⟩
        refine ⟨hmark.trans_lt hafter, ?_⟩
        rintro w' hw'
        rcases List.mem_cons.mp hw' with rfl | hmem
        · exact iff_of_false hstop (not_le.mpr hafter)
        · exact hall w' hmem
      · rintro ⟨-, hall⟩
        refine ⟨not_le.mp fun hseen => hstop ((hall w (List.mem_cons_self ..)).mpr hseen), ?_⟩
        exact fun w' hw' => hall w' (List.mem_cons_of_mem _ hw')

end Reiver.Lib.Windows
