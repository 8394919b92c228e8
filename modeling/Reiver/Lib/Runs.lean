import Mathlib.Data.List.TakeWhile

/-! Maximal runs of a kind of element, and splitting a list at the other ones. -/

namespace Reiver

variable {α : Type} {p : α → Bool} {w l : List α}

theorem append_cons_inj {a : α} {x y z z' : List α} (hx : a ∉ x) (hy : a ∉ y) (h : x ++ a :: z = y ++ a :: z') :
    x = y ∧ z = z' := by
  induction x generalizing y with
  | nil =>
    cases y with
    | nil => exact ⟨rfl, (List.cons.inj h).2⟩
    | cons b y => exact absurd (List.mem_cons.mpr (.inl (List.cons.inj h).1)) hy
  | cons b x ih =>
    cases y with
    | nil => exact absurd (List.mem_cons.mpr (.inl (List.cons.inj h).1.symm)) hx
    | cons c y =>
      obtain ⟨rfl, hrest⟩ := List.cons.inj h
      obtain ⟨rfl, hz⟩ := ih (fun hmem => hx (List.mem_cons_of_mem _ hmem))
        (fun hmem => hy (List.mem_cons_of_mem _ hmem)) hrest
      exact ⟨rfl, hz⟩

/-- `w` stands in `l` between two elements of the other kind, or an end. -/
def IsRun (p : α → Bool) (w l : List α) : Prop :=
  (∀ c ∈ w, p c = true) ∧ ∃ before after, l = before ++ w ++ after ∧
    (∀ c ∈ before.getLast?, p c = false) ∧ ∀ c ∈ after.head?, p c = false

theorem not_of_dropWhile {c : α} {rest : List α} (h : l.dropWhile p = c :: rest) : p c = false := by
  have hne : l.dropWhile p ≠ [] := by simp [h]
  simpa [h] using List.head_dropWhile_not p hne

theorem isRun_takeWhile : IsRun p (l.takeWhile p) l := by
  refine ⟨fun c hc => List.mem_takeWhile_imp hc, [], l.dropWhile p, ?_, fun _ h => (nomatch h), fun c hc => ?_⟩
  · rw [List.nil_append, List.takeWhile_append_dropWhile]
  · cases hdrop : l.dropWhile p with
    | nil => simp [hdrop] at hc
    | cons d rest =>
      obtain rfl : d = c := by simpa [hdrop] using hc
      exact not_of_dropWhile hdrop

theorem IsRun.cons {c : α} {before after : List α} (hc : p c = false) (h : IsRun p w after) :
    IsRun p w (before ++ c :: after) := by
  obtain ⟨hall, pre, post, rfl, hpre, hpost⟩ := h
  refine ⟨hall, before ++ c :: pre, post, by simp, fun d hd => ?_, hpost⟩
  cases hlast : pre.getLast? with
  | none =>
    obtain rfl : c = d := by simpa [List.getLast?_cons, hlast] using hd
    exact hc
  | some e => exact hpre d (by simpa [List.getLast?_cons, hlast] using hd)

theorem isRun_iff : IsRun p w l ↔
    w = l.takeWhile p ∨ ∃ c rest, l.dropWhile p = c :: rest ∧ IsRun p w rest := by
  constructor
  · rintro ⟨hall, before, after, rfl, hbefore, hafter⟩
    cases hdrop : before.dropWhile p with
    | nil =>
      have hnil : before = [] := by
        by_contra hne
        have hlast := hbefore _ (List.getLast?_eq_some_getLast hne)
        rw [List.dropWhile_eq_nil_iff.mp hdrop _ (List.getLast_mem hne)] at hlast
        cases hlast
      have htail : after.takeWhile p = [] := by
        cases after with
        | nil => rfl
        | cons c after => simp [hafter c rfl]
      refine Or.inl ?_
      rw [hnil, List.nil_append, List.takeWhile_append_of_pos hall, htail, List.append_nil]
    | cons c rest =>
      have hsplit : before = before.takeWhile p ++ c :: rest := by
        rw [← hdrop, List.takeWhile_append_dropWhile]
      refine Or.inr ⟨c, rest ++ w ++ after, ?_, hall, rest, after, rfl, fun d hd => hbefore d ?_, hafter⟩
      · rw [List.append_assoc, List.dropWhile_append, hdrop]
        simp
      · rw [hsplit]
        obtain ⟨e, he⟩ : ∃ e, rest.getLast? = some e := ⟨d, hd⟩
        simpa [List.getLast?_cons, he] using he.symm.trans hd
  · rintro (rfl | ⟨c, rest, hdrop, hrun⟩)
    · exact isRun_takeWhile
    · rw [← List.takeWhile_append_dropWhile (p := p) (l := l), hdrop]
      exact hrun.cons (not_of_dropWhile hdrop)

theorem mem_splitOnPPrepend {acc : List α} : w ∈ l.splitOnPPrepend (!p ·) acc ↔
    w = acc.reverse ++ l.takeWhile p ∨ ∃ c rest, l.dropWhile p = c :: rest ∧ w ∈ rest.splitOnP (!p ·) := by
  induction l generalizing acc with
  | nil => simp
  | cons a l ih =>
    cases ha : p a with
    | true =>
      rw [List.splitOnPPrepend_cons_neg (by simp [ha]), ih]
      simp [ha]
    | false =>
      rw [List.splitOnPPrepend_cons_pos (by simp [ha])]
      simp only [List.mem_cons, List.takeWhile_cons, ha, Bool.false_eq_true, if_false, List.append_nil,
        List.dropWhile_cons]
      refine or_congr_right ⟨fun h => ⟨a, l, rfl, h⟩, ?_⟩
      rintro ⟨_, _, heq, h⟩
      cases heq
      exact h

theorem mem_splitOnP : w ∈ l.splitOnP (!p ·) ↔ IsRun p w l := by
  induction hn : l.length using Nat.strong_induction_on generalizing l with
  | _ n ih =>
    rw [← List.splitOnPPrepend_nil_right, mem_splitOnPPrepend, isRun_iff, List.reverse_nil, List.nil_append]
    refine or_congr_right (exists_congr fun c => exists_congr fun rest => and_congr_right fun hdrop => ?_)
    have hlt : rest.length < n := by
      have hle := (List.dropWhile_sublist p (l := l)).length_le
      rw [hdrop, List.length_cons] at hle
      omega
    exact ih _ hlt rfl

end Reiver
