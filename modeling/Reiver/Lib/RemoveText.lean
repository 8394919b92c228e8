import Mathlib.Data.List.Infix

/-! # Removal of a text

A text without the occurrences of a word, found from the left. A word stands in what is left exactly if it stands in
the text with removed words between its letters. Two words are removed one after the other: between the letters may
then also stand the second word with the first one between its letters. -/

namespace Reiver.Lib.RemoveText

/-- A word with blocks before its letters. -/
inductive Filled {α : Type} (block : List α → Prop) : List α → List α → Prop
  | nil : Filled block [] []
  | letter (c : α) {d w : List α} (h : Filled block d w) : Filled block (c :: d) (c :: w)
  | block {b d w : List α} (hd : d ≠ []) (hb : block b) (h : Filled block d w) : Filled block d (b ++ w)

def Around {α : Type} (block : List α → Prop) (word text : List α) : Prop :=
  ∃ c d w, word = c :: d ∧ text = c :: w ∧ Filled block d w

/-- The first word, or the second one with the first between its letters. -/
def Block {α : Type} (p q text : List α) : Prop := text = p ∨ Around (· = p) q text

section Filled
variable {α : Type} {block : List α → Prop} {d x y w s : List α}

theorem Filled.eq_nil (h : Filled block [] w) : w = [] := by
  generalize hd : ([] : List α) = d at h
  induction h with
  | nil => rfl
  | letter => cases hd
  | block hne => exact absurd hd.symm hne

theorem Filled.append_inv (h : Filled block (x ++ y) w) : ∃ u v, w = u ++ v ∧ Filled block x u ∧ Filled block y v := by
  generalize hd : x ++ y = d at h
  induction h generalizing x with
  | nil =>
    obtain ⟨rfl, rfl⟩ := List.append_eq_nil_iff.mp hd
    exact ⟨[], [], rfl, .nil, .nil⟩
  | @letter c d w h ih =>
    cases x with
    | nil =>
      obtain rfl : y = c :: d := hd
      exact ⟨[], c :: w, rfl, .nil, .letter c h⟩
    | cons c' x =>
      obtain ⟨rfl, hrest⟩ := List.cons.inj hd
      obtain ⟨u, v, rfl, hu, hv⟩ := ih hrest
      exact ⟨c' :: u, v, rfl, .letter c' hu, hv⟩
  | @block b d w hne hb h ih =>
    obtain ⟨u, v, rfl, hu, hv⟩ := ih hd
    cases x with
    | nil =>
      obtain rfl := hu.eq_nil
      exact ⟨[], b ++ v, rfl, .nil, .block (by rintro rfl; exact hne hd.symm) hb hv⟩
    | cons c x => exact ⟨b ++ u, v, (List.append_assoc ..).symm, Filled.block (List.cons_ne_nil _ _) hb hu, hv⟩

theorem Filled.cons_inv {c : α} (h : Filled block (c :: d) w) :
    ∃ (bs : List (List α)) (v : List α), (∀ b ∈ bs, block b) ∧ w = bs.flatten ++ c :: v ∧ Filled block d v := by
  generalize hd : c :: d = d' at h
  induction h with
  | nil => cases hd
  | @letter c' d' w h =>
    obtain ⟨rfl, rfl⟩ := List.cons.inj hd
    exact ⟨[], w, fun _ h => absurd h List.not_mem_nil, rfl, h⟩
  | @block b d' w _ hb h ih =>
    obtain ⟨bs, v, hbs, rfl, hv⟩ := ih hd
    exact ⟨b :: bs, v, List.forall_mem_cons.mpr ⟨hb, hbs⟩, by simp, hv⟩

theorem Filled.blocks {bs : List (List α)} (hd : d ≠ []) (hbs : ∀ b ∈ bs, block b) (h : Filled block d w) :
    Filled block d (bs.flatten ++ w) := by
  induction bs with
  | nil => exact h
  | cons b bs ih =>
    rw [List.flatten_cons, List.append_assoc]
    exact .block hd (hbs b (List.mem_cons_self ..)) (ih fun b' hb' => hbs b' (List.mem_cons_of_mem _ hb'))

variable {a c : α} {p q : List α}

theorem Filled.comparable (hblock : ∀ b, block b → ∃ b', b = a :: b') (h : Filled block y w) (hx : a ∉ x)
    (hstarts : x <+: w ++ s) : x <+: y ∨ y <+: x := by
  induction h generalizing x with
  | nil => exact Or.inr List.nil_prefix
  | @letter c d w _ ih =>
    cases x with
    | nil => exact Or.inl List.nil_prefix
    | cons c' x =>
      obtain ⟨rfl, hrest⟩ := List.cons_prefix_cons.mp hstarts
      simp only [List.cons_prefix_cons, true_and]
      exact ih (fun h => hx (List.mem_cons_of_mem _ h)) hrest
  | block _ hb _ _ =>
    obtain ⟨b', rfl⟩ := hblock _ hb
    cases x with
    | nil => exact Or.inl List.nil_prefix
    | cons c' x =>
      obtain ⟨rfl, -⟩ := List.cons_prefix_cons.mp hstarts
      exact absurd (List.mem_cons_self ..) hx

theorem Filled.eq_of_prefix (hblock : ∀ b, block b → ∃ b', b = a :: b') (h : Filled block d w) (hd : a ∉ d)
    (hstarts : d <+: w ++ s) : w = d := by
  induction h with
  | nil => rfl
  | letter c _ ih =>
    obtain ⟨-, hrest⟩ := List.cons_prefix_cons.mp hstarts
    rw [ih (fun h => hd (List.mem_cons_of_mem _ h)) hrest]
  | @block b d w hne hb _ _ =>
    obtain ⟨b', rfl⟩ := hblock _ hb
    cases d with
    | nil => exact absurd rfl hne
    | cons c d =>
      obtain ⟨rfl, -⟩ := List.cons_prefix_cons.mp hstarts
      exact absurd (List.mem_cons_self ..) hd

theorem Filled.starts (hp : a ∉ p) (h : Filled (· = a :: p) d w) (hd : a ∉ d) {u v : List α}
    (hw : w = u ++ a :: v) : a :: p <+: a :: v := by
  induction h generalizing u with
  | nil => simp at hw
  | letter c _ ih =>
    cases u with
    | nil =>
      obtain ⟨rfl, -⟩ := List.cons.inj hw
      exact absurd (List.mem_cons_self ..) hd
    | cons c' u => exact ih (fun h => hd (List.mem_cons_of_mem _ h)) (List.cons.inj hw).2
  | @block b d w _ hb _ ih =>
    obtain rfl := hb
    cases u with
    | nil =>
      obtain ⟨-, hrest⟩ := List.cons.inj hw
      exact ⟨w, congrArg (a :: ·) hrest⟩
    | cons c' u =>
      obtain ⟨-, hrest⟩ := List.cons.inj hw
      rcases List.append_eq_append_iff.mp hrest with ⟨m, rfl, hw'⟩ | ⟨m, rfl, hv⟩
      · exact ih hd hw'
      · cases m with
        | nil => exact ih (u := []) hd hv.symm
        | cons c m =>
          obtain ⟨rfl, -⟩ := List.cons.inj hv
          exact absurd (List.mem_append_right _ (List.mem_cons_self ..)) hp

/-! ### Words whose first letter stands in them once -/

theorem not_prefix_cons (hc : a ≠ c) : ¬a :: p <+: c :: s :=
  fun h => hc (List.cons_prefix_cons.mp h).1

theorem head_of_eq (p : List α) : ∀ b, b = a :: p → ∃ b', b = a :: b' :=
  fun _ hb => ⟨p, hb⟩

theorem head_of_block : ∀ b, Block (a :: p) (a :: q) b → ∃ b', b = a :: b' := by
  rintro b (rfl | ⟨c, d, w, hword, rfl, -⟩)
  · exact ⟨p, rfl⟩
  · exact ⟨w, by rw [(List.cons.inj hword).1]⟩

/-- Two words whose first letter stands in them once, none of them the beginning of the other. -/
structure Apart (a : α) (p q : List α) : Prop where
  left : a ∉ p
  right : a ∉ q
  leftRight : ¬p <+: q
  rightLeft : ¬q <+: p

theorem Apart.symm (h : Apart a p q) : Apart a q p := ⟨h.right, h.left, h.rightLeft, h.leftRight⟩

theorem Apart.not_prefix_filled (h : Apart a p q) (hblock : ∀ b, block b → ∃ b', b = a :: b')
    (hfilled : Filled block q w) (s : List α) : ¬a :: p <+: a :: (w ++ s) := by
  intro hstarts
  rcases hfilled.comparable hblock h.left (List.cons_prefix_cons.mp hstarts).2 with hle | hle
  · exact h.leftRight hle
  · exact h.rightLeft hle

theorem Filled.eq_or_block (h : Filled (· = a :: q) d w) : w = d ∨ ∃ u v, w = u ++ (a :: q ++ v) := by
  induction h with
  | nil => exact Or.inl rfl
  | letter c _ ih =>
    rcases ih with rfl | ⟨u, v, rfl⟩
    · exact Or.inl rfl
    · exact Or.inr ⟨c :: u, v, rfl⟩
  | @block b d w _ hb _ _ => exact Or.inr ⟨[], w, by rw [hb]; rfl⟩

/-- A word that is left of the removal of the first one with blocks of the second does not stand there with blocks of
    the first alone. -/
theorem Apart.eq_of_filled (h : Apart a p q) {m v : List α} (hm : Filled (· = a :: q) d m)
    (hv : Filled (· = a :: p) m v) (hd : a ∉ d) (hfilled : Filled (· = a :: p) d v) : m = d := by
  rcases hm.eq_or_block with hsame | ⟨u, m, rfl⟩
  · exact hsame
  · obtain ⟨before, v, rfl, -, hv⟩ := hv.append_inv
    obtain ⟨v, w, rfl, hv, -⟩ := hv.append_inv
    obtain ⟨bs, v, -, rfl, hblock⟩ := hv.cons_inv
    have hstart : before ++ (bs.flatten ++ a :: v ++ w) = before ++ bs.flatten ++ a :: (v ++ w) := by simp
    exact absurd (hfilled.starts h.left hd hstart) (h.not_prefix_filled (head_of_eq p) hblock w)

theorem filled_compose {m v : List α} (h : Filled (· = a :: q) d m) (hm : Filled (· = a :: p) m v) :
    Filled (Block (a :: p) (a :: q)) d v := by
  induction h generalizing v with
  | nil => rw [hm.eq_nil]; exact .nil
  | letter c _ ih =>
    obtain ⟨bs, v, hbs, rfl, hv⟩ := hm.cons_inv
    exact Filled.blocks (List.cons_ne_nil _ _) (fun b hb => Or.inl (hbs b hb)) (.letter c (ih hv))
  | block hne hb _ ih =>
    obtain rfl := hb
    obtain ⟨u, v, rfl, hu, hv⟩ := hm.append_inv
    obtain ⟨bs, u, hbs, rfl, hu'⟩ := hu.cons_inv
    rw [List.append_assoc, List.cons_append]
    exact Filled.blocks hne (fun b hb => Or.inl (hbs b hb))
      (.block (b := a :: u) hne (Or.inr ⟨a, q, u, rfl, rfl, hu'⟩) (ih hv))

end Filled

/-! ### Removal -/

section Remove
variable {α : Type} [DecidableEq α]

/-- The letters of an occurrence that was found are skipped. -/
def removeFrom (p : List α) : Nat → List α → List α
  | _, [] => []
  | skip + 1, _ :: cs => removeFrom p skip cs
  | 0, c :: cs => if p.isPrefixOf (c :: cs) then removeFrom p (p.length - 1) cs else c :: removeFrom p 0 cs

def remove (p text : List α) : List α := removeFrom p 0 text

variable {a c : α} {p p' q q' x d w s text : List α}

theorem removeFrom_length (x s : List α) : removeFrom p x.length (x ++ s) = remove p s := by
  induction x with
  | nil => rfl
  | cons c x ih =>
    rw [List.cons_append, List.length_cons, removeFrom]
    exact ih

theorem remove_append (hp : p ≠ []) (s : List α) : remove p (p ++ s) = remove p s := by
  cases p with
  | nil => exact absurd rfl hp
  | cons c p =>
    have hfound : (c :: p).isPrefixOf (c :: (p ++ s)) = true :=
      List.isPrefixOf_iff_prefix.mpr (List.prefix_append (c :: p) s)
    rw [remove, List.cons_append, removeFrom, if_pos hfound]
    exact removeFrom_length p s

theorem remove_cons (h : ¬p <+: c :: s) : remove p (c :: s) = c :: remove p s := by
  rw [remove, removeFrom, if_neg fun hp => h (List.isPrefixOf_iff_prefix.mp hp)]
  rfl

theorem remove_induction {motive : List α → Prop} (hp : p ≠ []) (nil : motive [])
    (found : ∀ s, motive s → motive (p ++ s)) (kept : ∀ c s, ¬p <+: c :: s → motive s → motive (c :: s))
    (text : List α) : motive text := by
  by_cases h : p <+: text
  · obtain ⟨s, hs⟩ := h
    have hshorter : s.length < text.length := by
      have hpos := List.length_pos_iff.mpr hp
      rw [← hs, List.length_append]
      omega
    exact hs ▸ found s (remove_induction hp nil found kept s)
  · cases text with
    | nil => exact nil
    | cons c s => exact kept c s h (remove_induction hp nil found kept s)
termination_by text.length

theorem filled_of_prefix (hp : p ≠ []) (h : x <+: remove p text) :
    ∃ v s, text = v ++ s ∧ Filled (· = p) x v := by
  induction text using remove_induction hp generalizing x with
  | nil => exact ⟨[], [], rfl, by rw [List.prefix_nil.mp h]; exact .nil⟩
  | found s ih =>
    rw [remove_append hp] at h
    by_cases hx : x = []
    · exact ⟨[], _, rfl, by rw [hx]; exact .nil⟩
    · obtain ⟨v, s, rfl, hv⟩ := ih h
      exact ⟨p ++ v, s, (List.append_assoc ..).symm, .block hx rfl hv⟩
  | kept c s hc ih =>
    rw [remove_cons hc] at h
    cases x with
    | nil => exact ⟨[], _, rfl, .nil⟩
    | cons c' x =>
      obtain ⟨rfl, hrest⟩ := List.cons_prefix_cons.mp h
      obtain ⟨v, s, rfl, hv⟩ := ih hrest
      exact ⟨c' :: v, s, rfl, .letter c' hv⟩

theorem filled_of_infix (hp : p ≠ []) (h : c :: d <:+: remove p text) :
    ∃ x v s, text = x ++ c :: (v ++ s) ∧ Filled (· = p) d v ∧ ¬p <+: c :: (v ++ s) := by
  induction text using remove_induction hp with
  | nil => exact absurd (List.infix_nil.mp h) (List.cons_ne_nil _ _)
  | found s ih =>
    rw [remove_append hp] at h
    obtain ⟨x, v, s, rfl, hv, hnot⟩ := ih h
    exact ⟨p ++ x, v, s, (List.append_assoc ..).symm, hv, hnot⟩
  | kept c' s hc ih =>
    rw [remove_cons hc] at h
    rcases List.infix_cons_iff.mp h with h | h
    · obtain ⟨rfl, hrest⟩ := List.cons_prefix_cons.mp h
      obtain ⟨v, s, rfl, hv⟩ := filled_of_prefix hp hrest
      exact ⟨[], v, s, rfl, hv, hc⟩
    · obtain ⟨x, v, s, rfl, hv, hnot⟩ := ih h
      exact ⟨c' :: x, v, s, rfl, hv, hnot⟩

theorem remove_append_cons (ha : a ∉ p) (x s : List α) :
    remove (a :: p) (x ++ a :: s) = remove (a :: p) x ++ remove (a :: p) (a :: s) := by
  induction x using remove_induction (List.cons_ne_nil a p) with
  | nil => rfl
  | found x ih =>
    rw [List.append_assoc, remove_append (List.cons_ne_nil a p), remove_append (List.cons_ne_nil a p), ih]
  | kept c x hc ih =>
    have hc' : ¬a :: p <+: c :: (x ++ a :: s) := by
      rintro h
      obtain ⟨rfl, hrest⟩ := List.cons_prefix_cons.mp h
      obtain ⟨r, hr⟩ := hrest
      rcases List.append_eq_append_iff.mp hr with ⟨m, rfl, -⟩ | ⟨m, rfl, hm⟩
      · exact hc (List.cons_prefix_cons.mpr ⟨rfl, List.prefix_append _ _⟩)
      · cases m with
        | nil => exact hc (List.cons_prefix_cons.mpr ⟨rfl, by rw [List.append_nil]⟩)
        | cons c' m =>
          obtain ⟨rfl, -⟩ := List.cons.inj hm
          exact ha (List.mem_append_right _ (List.mem_cons_self ..))
    rw [List.cons_append, remove_cons hc', remove_cons hc, ih, List.cons_append]

theorem remove_filled (h : Filled (· = a :: p) d w) (hd : a ∉ d) (s : List α) :
    remove (a :: p) (w ++ s) = d ++ remove (a :: p) s := by
  induction h with
  | nil => rfl
  | letter c _ ih =>
    rw [List.cons_append, remove_cons (not_prefix_cons (List.ne_of_not_mem_cons hd)),
      ih fun h => hd (List.mem_cons_of_mem _ h), List.cons_append]
  | block _ hb _ ih =>
    rw [hb, List.append_assoc, remove_append (List.cons_ne_nil a p), ih hd]

/-! ### Two words, one removed after the other -/

theorem remove_blocks (h : Apart a p q) (hfilled : Filled (Block (a :: p) (a :: q)) d w) (hd : a ∉ d) (s : List α) :
    ∃ w', Filled (· = a :: q) d w' ∧ remove (a :: p) (w ++ s) = w' ++ remove (a :: p) s ∧
      (w' = d → Filled (· = a :: p) d w) := by
  induction hfilled with
  | nil => exact ⟨[], .nil, rfl, fun _ => .nil⟩
  | letter c _ ih =>
    obtain ⟨w', hw', hremove, hsame⟩ := ih fun h => hd (List.mem_cons_of_mem _ h)
    refine ⟨c :: w', .letter c hw', ?_, fun h => .letter c (hsame (List.cons.inj h).2)⟩
    rw [List.cons_append, remove_cons (not_prefix_cons (List.ne_of_not_mem_cons hd)), hremove,
      List.cons_append]
  | @block b d w hne hb _ ih =>
    obtain ⟨w', hw', hremove, hsame⟩ := ih hd
    rcases hb with rfl | ⟨c, d', b', hword, rfl, hb'⟩
    · refine ⟨w', hw', ?_, fun h => .block hne rfl (hsame h)⟩
      rw [List.append_assoc, remove_append (List.cons_ne_nil a p), hremove]
    · obtain ⟨rfl, rfl⟩ := List.cons.inj hword
      refine ⟨a :: q ++ w', .block hne rfl hw', ?_, fun h => ?_⟩
      · rw [List.append_assoc, List.cons_append,
          remove_cons (h.not_prefix_filled (head_of_eq p) hb' _), remove_filled hb' h.right, hremove]
        simp only [List.append_assoc, List.cons_append]
      · exact absurd (h ▸ List.mem_cons_self ..) hd

theorem infix_remove_of_filled {w' : List α} (hq : a ∉ q) (h : Filled (· = a :: q) d w') (hd : a ∉ d) (x s : List α)
    (hnot : ¬a :: q <+: a :: (w' ++ s)) : a :: d <:+: remove (a :: q) (x ++ a :: (w' ++ s)) := by
  rw [remove_append_cons hq, remove_cons hnot, remove_filled h hd]
  exact ⟨remove (a :: q) x, remove (a :: q) s, by simp⟩

theorem infix_remove_left (h : Apart a p q) : a :: p <:+: remove (a :: q) (remove (a :: p) text) ↔
    ∃ w, w <:+: text ∧ Around (Block (a :: p) (a :: q)) (a :: p) w ∧ w ≠ a :: p := by
  constructor
  · intro hinfix
    obtain ⟨x, m, s, hleft, hm, -⟩ := filled_of_infix (List.cons_ne_nil a q) hinfix
    have hm' : a :: m <:+: remove (a :: p) text := ⟨x, s, by rw [hleft]; simp⟩
    obtain ⟨x, v, s, rfl, hv, hnot⟩ := filled_of_infix (List.cons_ne_nil a p) hm'
    refine ⟨a :: v, ⟨x, s, by simp⟩, ⟨a, p, v, rfl, rfl, filled_compose hm hv⟩, ?_⟩
    intro hsame
    rw [(List.cons.inj hsame).2] at hnot
    exact hnot (List.prefix_append (a :: p) s)
  · rintro ⟨_, ⟨x, s, rfl⟩, ⟨c, d, w, hword, rfl, hw⟩, hne⟩
    obtain ⟨rfl, rfl⟩ := List.cons.inj hword
    have hnot : ¬a :: p <+: a :: (w ++ s) := fun hstarts =>
      hne (congrArg (a :: ·) (hw.eq_of_prefix head_of_block h.left (List.cons_prefix_cons.mp hstarts).2))
    obtain ⟨w', hw', hremove, -⟩ := remove_blocks h hw h.left s
    rw [List.append_assoc, List.cons_append, remove_append_cons h.left, remove_cons hnot, hremove]
    exact infix_remove_of_filled h.right hw' h.left _ _ (h.symm.not_prefix_filled (head_of_eq q) hw' _)

/-- The second word is left exactly if it stands in the text with blocks between its letters that are not all the first
    word. -/
theorem infix_remove_right (h : Apart a p q) : a :: q <:+: remove (a :: q) (remove (a :: p) text) ↔
    ∃ w, w <:+: text ∧ Around (Block (a :: p) (a :: q)) (a :: q) w ∧ ¬Around (· = a :: p) (a :: q) w := by
  constructor
  · intro hinfix
    obtain ⟨x, m, r, hleft, hm, hnot⟩ := filled_of_infix (List.cons_ne_nil a q) hinfix
    have hm' : a :: m <:+: remove (a :: p) text := ⟨x, r, by rw [hleft]; simp⟩
    obtain ⟨x, v, s, rfl, hv, -⟩ := filled_of_infix (List.cons_ne_nil a p) hm'
    refine ⟨a :: v, ⟨x, s, by simp⟩, ⟨a, q, v, rfl, rfl, filled_compose hm hv⟩, ?_⟩
    rintro ⟨c, d, w, hword, htext, hw⟩
    obtain ⟨rfl, rfl⟩ := List.cons.inj hword
    obtain ⟨-, rfl⟩ := List.cons.inj htext
    obtain rfl := h.eq_of_filled hm hv h.right hw
    exact hnot (List.prefix_append (a :: m) r)
  · rintro ⟨_, ⟨x, s, rfl⟩, ⟨c, d, w, hword, rfl, hw⟩, hnot⟩
    obtain ⟨rfl, rfl⟩ := List.cons.inj hword
    obtain ⟨w', hw', hremove, hsame⟩ := remove_blocks h hw h.right s
    have hnotq : ∀ s, ¬a :: q <+: a :: (w' ++ s) := fun s hstarts =>
      hnot ⟨a, q, w, rfl, rfl,
        hsame (hw'.eq_of_prefix (head_of_eq q) h.right (List.cons_prefix_cons.mp hstarts).2)⟩
    rw [List.append_assoc, List.cons_append, remove_append_cons h.left,
      remove_cons (h.not_prefix_filled head_of_block hw s), hremove]
    exact infix_remove_of_filled h.right hw' h.right _ _ (hnotq _)

end Remove

end Reiver.Lib.RemoveText
