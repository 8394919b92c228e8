import Reiver.Lib.Dict

/-! Last-writer-wins updates of a list of records by key. -/

namespace Reiver
variable {α κ : Type} [DecidableEq κ] (key : α → κ)

def lastOf (k : κ) (l : List α) : Option α := (l.filter (key · = k)).getLast?

/-- The records that no later record of the same key follows. -/
def keepLast : List α → List α
  | [] => []
  | a :: l => if ∃ b ∈ l, key b = key a then keepLast l else a :: keepLast l

/-- New records replace the old ones of their key. -/
def upsert (old new : List α) : List α := old.filter (fun a => ¬∃ b ∈ new, key b = key a) ++ keepLast key new

variable {key}

theorem lastOf_eq_none {k : κ} {l : List α} : lastOf key k l = none ↔ ∀ a ∈ l, key a ≠ k := by
  simp [lastOf]

theorem mem_of_lastOf {k : κ} {l : List α} {a : α} (h : lastOf key k l = some a) : a ∈ l ∧ key a = k := by
  have hmem := List.mem_of_getLast? h
  simpa using hmem

theorem lastOf_append (k : κ) (l l' : List α) : lastOf key k (l ++ l') = (lastOf key k l').or (lastOf key k l) := by
  rw [lastOf, List.filter_append, List.getLast?_append]
  rfl

theorem filter_keepLast (k : κ) (l : List α) : (keepLast key l).filter (key · = k) = (lastOf key k l).toList := by
  induction l with
  | nil => rfl
  | cons a l ih =>
    have hcons : lastOf key k (a :: l) = (lastOf key k l).or (if key a = k then some a else none) := by
      rw [← List.singleton_append, lastOf_append]
      by_cases hk : key a = k <;> simp [lastOf, hk]
    rw [keepLast, hcons]
    split
    · next hex =>
      rw [ih]
      cases hl : lastOf key k l with
      | some b => rfl
      | none =>
        obtain ⟨b, hb, hba⟩ := hex
        have hne : key a ≠ k := fun hk => lastOf_eq_none.mp hl b hb (hba.trans hk)
        rw [if_neg hne]
        rfl
    · next hno =>
      by_cases hk : key a = k
      · have hl : lastOf key k l = none := lastOf_eq_none.mpr fun b hb hbk => hno ⟨b, hb, hbk.trans hk.symm⟩
        rw [List.filter_cons_of_pos (by simp [hk]), ih, hl, if_pos hk]
        rfl
      · rw [List.filter_cons_of_neg (by simp [hk]), ih, if_neg hk, Option.or_none]

theorem filter_upsert (k : κ) (old new : List α) : (upsert key old new).filter (key · = k) =
    match lastOf key k new with
    | some a => [a]
    | none => old.filter (key · = k) := by
  rw [upsert, List.filter_append, filter_keepLast, List.filter_filter]
  cases hl : lastOf key k new with
  | some a =>
    obtain ⟨ha, hak⟩ := mem_of_lastOf hl
    have hnil : old.filter (fun b => decide (key b = k) && decide ¬∃ c ∈ new, key c = key b) = [] := by
      refine List.filter_eq_nil_iff.mpr fun b _ hb => ?_
      simp only [Bool.and_eq_true, decide_eq_true_eq] at hb
      exact hb.2 ⟨a, ha, hak.trans hb.1.symm⟩
    rw [hnil]
    rfl
  | none =>
    rw [Option.toList_none, List.append_nil]
    refine List.filter_congr fun b _ => ?_
    by_cases hb : key b = k
    · have hno : ¬∃ c ∈ new, key c = key b := fun ⟨c, hc, hcb⟩ => lastOf_eq_none.mp hl c hc (hcb.trans hb)
      rw [decide_eq_true hb, decide_eq_true hno, Bool.and_true]
    · rw [decide_eq_false hb, Bool.false_and]

theorem map_keepLast {β κ' : Type} [DecidableEq κ'] {key' : β → κ'} {f : α → β} {l : List α}
    (h : ∀ a ∈ l, ∀ b ∈ l, key b = key a ↔ key' (f b) = key' (f a)) :
    (keepLast key l).map f = keepLast key' (l.map f) := by
  induction l with
  | nil => rfl
  | cons a l ih =>
    have ih' := ih fun b hb c hc => h b (List.mem_cons_of_mem _ hb) c (List.mem_cons_of_mem _ hc)
    have hex : (∃ b ∈ l, key b = key a) ↔ ∃ b ∈ l.map f, key' b = key' (f a) := by
      simp only [List.mem_map, exists_exists_and_eq_and]
      exact exists_congr fun b => and_congr_right fun hb => h a List.mem_cons_self b (List.mem_cons_of_mem _ hb)
    rw [List.map_cons, keepLast, keepLast]
    by_cases hx : ∃ b ∈ l, key b = key a
    · rw [if_pos hx, if_pos (hex.mp hx), ih']
    · rw [if_neg hx, if_neg (fun hy => hx (hex.mpr hy)), List.map_cons, ih']

theorem mem_of_mem_keepLast {l : List α} {a : α} (h : a ∈ keepLast key l) : a ∈ l := by
  induction l with
  | nil => exact h
  | cons b l ih =>
    rw [keepLast] at h
    split_ifs at h
    · exact List.mem_cons_of_mem _ (ih h)
    · rcases List.mem_cons.mp h with rfl | h
      · exact List.mem_cons_self
      · exact List.mem_cons_of_mem _ (ih h)

theorem mem_of_mem_upsert {old new : List α} {a : α} (h : a ∈ upsert key old new) : a ∈ old ∨ a ∈ new :=
  (List.mem_append.mp h).imp (fun h => (List.mem_filter.mp h).1) mem_of_mem_keepLast

theorem keepLast_cons_of_last {a : α} {l : List α} (h : ¬∃ b ∈ l, key b = key a) :
    keepLast key (a :: l) = a :: keepLast key l := if_neg h

theorem keepLast_eq_self {l : List α} (hnd : (l.map key).Nodup) : keepLast key l = l := by
  induction l with
  | nil => rfl
  | cons a l ih =>
    rw [List.map_cons, List.nodup_cons] at hnd
    rw [keepLast_cons_of_last fun ⟨b, hb, hba⟩ => hnd.1 (hba ▸ List.mem_map_of_mem hb), ih hnd.2]

section
variable {κ' : Type} [DecidableEq κ'] {key' : α → κ'}

theorem keepLast_congr {l : List α}
    (h : ∀ l₁ a l₂, l = l₁ ++ a :: l₂ → ((∃ b ∈ l₂, key b = key a) ↔ ∃ b ∈ l₂, key' b = key' a)) :
    keepLast key l = keepLast key' l := by
  induction l with
  | nil => rfl
  | cons a l ih =>
    have ih := ih fun l₁ b l₂ hl => h (a :: l₁) b l₂ (by rw [hl]; rfl)
    rw [keepLast, keepLast, ih]
    exact if_congr (h [] a l rfl) rfl rfl

theorem upsert_congr {old new : List α}
    (h : ∀ a ∈ old ++ new, ∀ b ∈ new, key b = key a ↔ key' b = key' a) : upsert key old new = upsert key' old new := by
  have hkeep : keepLast key new = keepLast key' new := by
    refine keepLast_congr fun l a l' hl => exists_congr fun b => and_congr_right fun hb => ?_
    exact h a (List.mem_append_right _ (by simp [hl])) b (by simp [hl, hb])
  rw [upsert, upsert, hkeep]
  refine congrArg (· ++ _) (List.filter_congr fun a ha => ?_)
  rw [decide_eq_decide, not_iff_not]
  exact exists_congr fun b => and_congr_right fun hb => h a (List.mem_append_left _ ha) b hb

end

theorem mem_upsert {old new : List α} {a : α} (ha : a ∈ old ∨ a ∈ new) (huniq : ∀ b ∈ new, key b = key a → b = a) :
    a ∈ upsert key old new := by
  have hfilter := @filter_upsert _ _ _ key (key a) old new
  have hmem : a ∈ (upsert key old new).filter (key · = key a) := by
    rw [hfilter]
    cases hl : lastOf key (key a) new with
    | some b =>
      obtain ⟨hb, hba⟩ := mem_of_lastOf hl
      exact List.mem_singleton.mpr (huniq b hb hba).symm
    | none =>
      have hold := ha.resolve_right fun hnew => lastOf_eq_none.mp hl a hnew rfl
      exact List.mem_filter.mpr ⟨hold, decide_eq_true rfl⟩
  exact (List.mem_filter.mp hmem).1

theorem upsert_perm {old new : List α} (h : ∀ b ∈ new, old.filter (key · = key b) = [b]) :
    (upsert key old new).Perm old := by
  refine perm_of_filter key fun k => ?_
  rw [filter_upsert]
  cases hl : lastOf key k new with
  | none => exact List.Perm.refl _
  | some b =>
    obtain ⟨hb, rfl⟩ := mem_of_lastOf hl
    rw [h b hb]

theorem upsert_upsert (old new new' : List α) :
    (upsert key (upsert key old new) new').Perm (upsert key old (new ++ new')) := by
  refine perm_of_filter key fun k => ?_
  rw [filter_upsert, filter_upsert, filter_upsert, lastOf_append]
  cases lastOf key k new' with
  | some a => exact List.Perm.refl _
  | none => exact List.Perm.refl _

theorem upsert_again (old new : List α) : (upsert key (upsert key old new) new).Perm (upsert key old new) := by
  refine perm_of_filter key fun k => ?_
  rw [filter_upsert, filter_upsert]
  cases lastOf key k new with
  | some a => exact List.Perm.refl _
  | none => exact List.Perm.refl _

theorem upsert_perm_left {old old' new : List α} (h : old.Perm old') :
    (upsert key old new).Perm (upsert key old' new) :=
  (h.filter _).append_right _

theorem upsert_nil_right (old : List α) : upsert key old [] = old := by
  simp [upsert, keepLast]

theorem map_upsert {β : Type} (f : α → β) (key' : β → κ) (old new : List α) :
    (upsert (fun a => key' (f a)) old new).map f = upsert key' (old.map f) (new.map f) := by
  have hkeep : (keepLast (fun a => key' (f a)) new).map f = keepLast key' (new.map f) :=
    map_keepLast fun _ _ _ _ => Iff.rfl
  rw [upsert, upsert, List.map_append, hkeep, List.filter_map]
  refine congrArg (· ++ _) (congrArg (List.map f) (List.filter_congr fun a _ => ?_))
  simp

theorem upsert_eq_nil {old new : List α} (h : upsert key old new = []) : old = [] ∧ new = [] := by
  have hnew : new = [] := by
    refine List.eq_nil_iff_forall_not_mem.mpr fun a ha => ?_
    have hfilter := @filter_upsert _ _ _ key (key a) old new
    rw [h] at hfilter
    cases hl : lastOf key (key a) new with
    | none => exact lastOf_eq_none.mp hl a ha rfl
    | some b =>
      rw [hl] at hfilter
      cases hfilter
  subst hnew
  rw [upsert_nil_right] at h
  exact ⟨h, rfl⟩

variable (key) in
/-- Positions in a map from keys to the last position of the key pick the last record of each key. -/
theorem filter_last_position {π : Type} [DecidableEq π] (l : List (α × π)) (hnd : (l.map Prod.snd).Nodup) :
    (l.filter fun e => (l.foldl (fun m e => m.insert (key e.1) e.2) (∅ : Dict κ π)).lookup (key e.1) = some e.2).map
      Prod.fst = keepLast key (l.map Prod.fst) := by
  have hlook : ∀ (l : List (α × π)) (m : Dict κ π) (k : κ),
      (l.foldl (fun m e => m.insert (key e.1) e.2) m).lookup k =
        ((lastOf (key ·.1) k l).map Prod.snd).or (m.lookup k) := by
    intro l
    induction l with
    | nil => intro m k; rfl
    | cons e l ih =>
      intro m k
      rw [List.foldl_cons, ih, Dict.lookup_insert', ← List.singleton_append, lastOf_append]
      cases lastOf (key ·.1) k l with
      | some b => rfl
      | none =>
        by_cases hk : key e.1 = k
        · simp [lastOf, hk]
        · simp [lastOf, hk, Ne.symm hk]
  simp only [hlook, AList.lookup_empty, Option.or_none]
  clear hlook
  induction l with
  | nil => rfl
  | cons e l ih =>
    rw [List.map_cons, List.nodup_cons] at hnd
    have hrest : l.filter (fun b => decide ((lastOf (key ·.1) (key b.1) (e :: l)).map Prod.snd = some b.2)) =
        l.filter fun b => decide ((lastOf (key ·.1) (key b.1) l).map Prod.snd = some b.2) := by
      refine List.filter_congr fun b hb => ?_
      rw [← List.singleton_append, lastOf_append]
      cases hl : lastOf (key ·.1) (key b.1) l with
      | some c => rfl
      | none => exact absurd rfl (lastOf_eq_none.mp hl b hb)
    have hhead : (lastOf (key ·.1) (key e.1) (e :: l)).map Prod.snd = some e.2 ↔
        ¬∃ b ∈ l.map Prod.fst, key b = key e.1 := by
      rw [← List.singleton_append, lastOf_append]
      cases hl : lastOf (key ·.1) (key e.1) l with
      | some c =>
        obtain ⟨hc, hck⟩ := mem_of_lastOf hl
        refine iff_of_false (fun heq => hnd.1 ?_) fun hno => hno ⟨c.1, List.mem_map_of_mem hc, hck⟩
        exact Option.some.inj heq ▸ List.mem_map_of_mem hc
      | none =>
        refine iff_of_true (by simp [lastOf]) ?_
        rintro ⟨b, hb, hbk⟩
        obtain ⟨c, hc, rfl⟩ := List.mem_map.mp hb
        exact lastOf_eq_none.mp hl c hc hbk
    rw [List.filter_cons, List.map_cons, keepLast]
    by_cases hex : ∃ b ∈ l.map Prod.fst, key b = key e.1
    · rw [if_pos hex, if_neg (by simpa using fun h => hhead.mp h hex), hrest, ih hnd.2]
    · rw [if_neg hex, if_pos (by simpa using hhead.mpr hex), hrest, List.map_cons, ih hnd.2]

end Reiver
