import Mathlib.Data.List.Basic
import Mathlib.Data.List.Perm.Basic

/-! # Sorting by a comparator

What the documentation of `sort_by` promises: a comparator that is a total order on the elements has them sorted, and
elements that compare equal keep their order. With any other the call may panic, and the order is not specified. -/

namespace Reiver

variable {α : Type} {cmp : α → α → Ordering} {l out : List α} {a b : α}

/-- The comparator is a total order of the elements. -/
structure TotalOn (cmp : α → α → Ordering) (l : List α) : Prop where
  swap : ∀ a ∈ l, ∀ b ∈ l, cmp b a = (cmp a b).swap
  trans : ∀ a ∈ l, ∀ b ∈ l, ∀ c ∈ l, cmp a b ≠ .gt → cmp b c ≠ .gt → cmp a c ≠ .gt

/-- The list is the elements in order, those that compare equal in the order that they came in. -/
structure SortedOf (cmp : α → α → Ordering) (l out : List α) : Prop where
  perm : out.Perm l
  sorted : out.Pairwise fun a b => cmp a b ≠ .gt
  stable : ∀ a ∈ l, out.filter (fun b => cmp a b = .eq) = l.filter fun b => cmp a b = .eq

/-- A sort as it is documented; `none` is a panic. -/
structure SortDocumented (sortBy : (α → α → Ordering) → List α → Option (List α)) : Prop where
  perm : ∀ cmp l, ∀ out ∈ sortBy cmp l, out.Perm l
  total : ∀ cmp l, TotalOn cmp l → ∃ out, sortBy cmp l = some out ∧ SortedOf cmp l out

namespace TotalOn

theorem of_subset (h : TotalOn cmp l) {l' : List α} (hsub : ∀ a ∈ l', a ∈ l) : TotalOn cmp l' where
  swap a ha b hb := h.swap a (hsub a ha) b (hsub b hb)
  trans a ha b hb c hc := h.trans a (hsub a ha) b (hsub b hb) c (hsub c hc)

theorem refl (h : TotalOn cmp l) (ha : a ∈ l) : cmp a a = .eq := by
  have hswap := h.swap a ha a ha
  cases hcmp : cmp a a <;> simp [hcmp] at hswap ⊢

theorem lt_of_gt (h : TotalOn cmp l) (ha : a ∈ l) (hb : b ∈ l) (hgt : cmp a b = .gt) : cmp b a = .lt := by
  rw [h.swap a ha b hb, hgt]
  rfl

theorem eq_comm (h : TotalOn cmp l) (ha : a ∈ l) (hb : b ∈ l) : cmp b a = .eq ↔ cmp a b = .eq := by
  rw [h.swap a ha b hb]
  cases cmp a b <;> simp

theorem eq_trans (h : TotalOn cmp l) {c : α} (ha : a ∈ l) (hb : b ∈ l) (hc : c ∈ l) (hab : cmp a b = .eq)
    (hac : cmp a c = .eq) : cmp b c = .eq := by
  have hba := (h.eq_comm ha hb).mpr hab
  have hca := (h.eq_comm ha hc).mpr hac
  have hbc : cmp b c ≠ .gt := h.trans b hb a ha c hc (by simp [hba]) (by simp [hac])
  have hcb : cmp c b ≠ .gt := h.trans c hc a ha b hb (by simp [hca]) (by simp [hab])
  rw [h.swap b hb c hc] at hcb
  cases hcmp : cmp b c <;> simp [hcmp] at hbc hcb ⊢

end TotalOn

/-! ### Insertion sort -/

/-- An element moves in front of the greater ones at the end of a sorted list, which is kept from its end. -/
def insertTail (cmp : α → α → Ordering) (x : α) : List α → List α
  | [] => [x]
  | y :: ys => if cmp x y = .lt then y :: insertTail cmp x ys else x :: y :: ys

def insertionSortBy (cmp : α → α → Ordering) (l : List α) : List α :=
  (l.foldl (fun sorted x => insertTail cmp x sorted) []).reverse

theorem insertTail_perm (x : α) (l : List α) : (insertTail cmp x l).Perm (x :: l) := by
  induction l with
  | nil => exact List.Perm.refl _
  | cons y ys ih =>
    rw [insertTail]
    split_ifs
    · exact (ih.cons y).trans (List.Perm.swap x y ys)
    · exact List.Perm.refl _

theorem insertTail_sorted {x : α} (h : TotalOn cmp (x :: l)) (hl : l.Pairwise fun a b => cmp b a ≠ .gt) :
    (insertTail cmp x l).Pairwise fun a b => cmp b a ≠ .gt := by
  induction l with
  | nil => exact List.pairwise_singleton _ _
  | cons y ys ih =>
    have hx : x ∈ x :: y :: ys := List.mem_cons_self
    have hy : y ∈ x :: y :: ys := by simp
    obtain ⟨hhead, htail⟩ := List.pairwise_cons.mp hl
    rw [insertTail]
    split_ifs with hlt
    · have hrest := ih (h.of_subset fun a ha => by rcases List.mem_cons.mp ha with rfl | ha <;> simp [*]) htail
      refine List.pairwise_cons.mpr ⟨fun z hz => ?_, hrest⟩
      rcases List.mem_cons.mp ((insertTail_perm x ys).mem_iff.mp hz) with rfl | hz
      · simp [hlt]
      · exact hhead z hz
    · have hyx : cmp y x ≠ .gt := fun hgt => hlt (h.lt_of_gt hy hx hgt)
      refine List.pairwise_cons.mpr ⟨fun z hz => ?_, hl⟩
      rcases List.mem_cons.mp hz with rfl | hz
      · exact hyx
      · exact h.trans z (by simp [hz]) y hy x hx (hhead z hz) hyx

theorem insertTail_filter {x : α} (h : TotalOn cmp l) (hx : x ∈ l) (ha : a ∈ l) {ys : List α} (hys : ∀ y ∈ ys, y ∈ l) :
    (insertTail cmp x ys).filter (fun b => cmp a b = .eq) = (x :: ys).filter fun b => cmp a b = .eq := by
  induction ys with
  | nil => rfl
  | cons y ys ih =>
    have hy := hys y List.mem_cons_self
    rw [insertTail]
    split_ifs with hlt
    · have hrest := ih fun z hz => hys z (List.mem_cons_of_mem _ hz)
      by_cases hax : cmp a x = .eq
      · have hay : ¬cmp a y = .eq := fun hay => by simp [h.eq_trans ha hx hy hax hay] at hlt
        simp [hax, hay, hrest]
      · simp [List.filter_cons, hax, hrest]
    · rfl

theorem foldl_insertTail_perm (rest sorted : List α) :
    (rest.foldl (fun sorted x => insertTail cmp x sorted) sorted).Perm (rest ++ sorted) := by
  induction rest generalizing sorted with
  | nil => exact List.Perm.refl _
  | cons x rest ih => exact (ih _).trans (((insertTail_perm x sorted).append_left rest).trans List.perm_middle)

theorem foldl_insertTail_sorted (h : TotalOn cmp l) (ha : a ∈ l) {rest sorted : List α} (hrest : ∀ b ∈ rest, b ∈ l)
    (hmem : ∀ b ∈ sorted, b ∈ l) (hsorted : sorted.Pairwise fun a b => cmp b a ≠ .gt) :
    (rest.foldl (fun sorted x => insertTail cmp x sorted) sorted).Pairwise (fun a b => cmp b a ≠ .gt) ∧
      (rest.foldl (fun sorted x => insertTail cmp x sorted) sorted).filter (fun b => cmp a b = .eq) =
        (rest.reverse ++ sorted).filter fun b => cmp a b = .eq := by
  induction rest generalizing sorted with
  | nil => exact ⟨hsorted, rfl⟩
  | cons x rest ih =>
    have hx := hrest x List.mem_cons_self
    have hsub : ∀ b ∈ x :: sorted, b ∈ l := fun b hb => by
      rcases List.mem_cons.mp hb with rfl | hb
      · exact hx
      · exact hmem b hb
    have hperm : (insertTail cmp x sorted).Perm (x :: sorted) := insertTail_perm x sorted
    obtain ⟨hs, hf⟩ := ih (fun b hb => hrest b (List.mem_cons_of_mem _ hb))
      (fun b hb => hsub b (hperm.mem_iff.mp hb)) (insertTail_sorted (h.of_subset hsub) hsorted)
    refine ⟨hs, ?_⟩
    rw [List.foldl_cons, hf, List.filter_append, insertTail_filter h hx ha hmem]
    simp [List.filter_append]

theorem insertionSortBy_perm (l : List α) : (insertionSortBy cmp l).Perm l := by
  have h : (l.foldl (fun sorted x => insertTail cmp x sorted) []).Perm (l ++ []) := foldl_insertTail_perm l []
  rw [List.append_nil] at h
  exact (List.reverse_perm _).trans h

theorem sortedOf_insertionSortBy (h : TotalOn cmp l) : SortedOf cmp l (insertionSortBy cmp l) where
  perm := insertionSortBy_perm l
  sorted := by
    rcases l with _ | ⟨a, l⟩
    · exact List.Pairwise.nil
    · exact List.pairwise_reverse.mpr
        (foldl_insertTail_sorted h List.mem_cons_self (fun _ hb => hb) (by simp) List.Pairwise.nil).1
  stable a ha := by
    have hfilter := (foldl_insertTail_sorted h ha (fun _ hb => hb) (by simp) List.Pairwise.nil).2
    rw [insertionSortBy, List.filter_reverse, hfilter, List.append_nil, List.filter_reverse, List.reverse_reverse]

theorem insertionSortBy_documented :
    SortDocumented fun (cmp : α → α → Ordering) l => some (insertionSortBy cmp l) where
  perm _ l _ hout := Option.some.inj hout ▸ insertionSortBy_perm l
  total _ _ h := ⟨_, rfl, sortedOf_insertionSortBy h⟩

open Classical in
/-- The sort that panics wherever it may. -/
noncomputable def cautiousSort (cmp : α → α → Ordering) (l : List α) : Option (List α) :=
  if TotalOn cmp l then some (insertionSortBy cmp l) else none

theorem cautiousSort_documented : SortDocumented fun (cmp : α → α → Ordering) l => cautiousSort cmp l where
  perm cmp l out hout := by
    by_cases h : TotalOn cmp l
    · rw [cautiousSort, if_pos h] at hout
      exact Option.some.inj hout ▸ insertionSortBy_perm l
    · rw [cautiousSort, if_neg h] at hout
      cases hout
  total cmp l h := ⟨_, if_pos h, sortedOf_insertionSortBy h⟩

theorem totalOn_of_cautiousSort (h : cautiousSort cmp l = some out) : TotalOn cmp l := by
  by_contra hnot
  simp [cautiousSort, hnot] at h

/-! ### What a sorted list starts with -/

theorem SortedOf.pairwise {R : α → α → Prop} (h : SortedOf cmp l out) (htotal : TotalOn cmp l) (hl : l.Pairwise R) :
    out.Pairwise fun a b => cmp a b = .lt ∨ (cmp a b = .eq ∧ R a b) := by
  refine List.pairwise_iff_forall_sublist.mpr fun {a b} hsub => ?_
  have ha : a ∈ l := h.perm.mem_iff.mp (hsub.subset List.mem_cons_self)
  cases hcmp : cmp a b with
  | lt => exact .inl rfl
  | gt => exact absurd hcmp (List.pairwise_iff_forall_sublist.mp h.sorted hsub)
  | eq =>
    have hfilter : [a, b].Sublist (l.filter fun c => cmp a c = .eq) := by
      rw [← h.stable a ha]
      simpa [List.filter_cons, hcmp, htotal.refl ha] using hsub.filter fun c => cmp a c = .eq
    exact .inr ⟨rfl, List.pairwise_iff_forall_sublist.mp hl (hfilter.trans List.filter_sublist)⟩

theorem mem_take_iff_countP {P : α → α → Bool} {k : Nat} (h : out.Pairwise fun a b => P a b = true)
    (hasymm : ∀ a ∈ out, ∀ b ∈ out, P a b = true → P b a = false) (ha : a ∈ out) :
    a ∈ out.take k ↔ out.countP (fun b => P b a) < k := by
  induction out generalizing k with
  | nil => exact absurd ha List.not_mem_nil
  | cons x out ih =>
    obtain ⟨hx, hout⟩ := List.pairwise_cons.mp h
    have hirrefl : ∀ b ∈ x :: out, P b b = false := fun b hb => by
      cases hb' : P b b with
      | false => rfl
      | true => exact hb' ▸ hasymm b hb b hb hb'
    cases k with
    | zero => simp
    | succ k =>
      rcases List.mem_cons.mp ha with rfl | ha
      · have hnone : out.countP (fun b => P b a) = 0 := List.countP_eq_zero.mpr fun b hb => by
          simp [hasymm a List.mem_cons_self b (List.mem_cons_of_mem _ hb) (hx b hb)]
        simp [hnone, hirrefl a List.mem_cons_self]
      · have hne : a ≠ x := fun hax => by
          have := hx a ha
          rw [hax, hirrefl x List.mem_cons_self] at this
          exact Bool.false_ne_true this
        have hrest := ih hout (fun b hb c hc => hasymm b (List.mem_cons_of_mem _ hb) c (List.mem_cons_of_mem _ hc)) ha
          (k := k)
        simp [hx a ha, hne, hrest]

end Reiver
