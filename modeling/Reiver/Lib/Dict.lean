import Mathlib.Algebra.Order.Ring.Int
import Mathlib.Data.List.AList
import Mathlib.Data.List.Basic
import Mathlib.Data.List.Dedup
import Mathlib.Data.List.Perm.Basic

/-! Finite maps with distinct keys, read by lookup. The order of the entries carries no meaning: a map is
    a hash map, iterated in some order. -/

namespace Reiver

abbrev Uuid := Nat

/-- A hash map from `κ` to `α`. -/
abbrev Dict (κ α : Type) := AList fun _ : κ => α

namespace Dict
variable {κ α β : Type}

/-- The entries of a map, in iteration order. -/
def pairs (d : Dict κ α) : List (κ × α) := d.entries.map fun e => (e.1, e.2)

def values (d : Dict κ α) : List α := d.entries.map (·.2)

theorem pairs_keys (d : Dict κ α) : d.pairs.map Prod.fst = d.keys := by
  simp only [pairs, AList.keys, List.keys, List.map_map]
  rfl

theorem pairs_nodup (d : Dict κ α) : (d.pairs.map Prod.fst).Nodup := pairs_keys d ▸ d.keys_nodup

@[simp] theorem pairs_empty : (∅ : Dict κ α).pairs = [] := rfl

theorem pairs_singleton (k : κ) (a : α) : Dict.pairs (AList.singleton k a) = [(k, a)] := rfl

theorem nodup_flatMap_pairs {γ : Type} (d : Dict κ α) {g : κ × α → List γ} (key : γ → κ)
    (hg : ∀ e ∈ d.pairs, (g e).Nodup) (hkey : ∀ e ∈ d.pairs, ∀ b ∈ g e, key b = e.1) : (d.pairs.flatMap g).Nodup := by
  refine List.nodup_flatMap.mpr ⟨hg, ?_⟩
  refine (List.pairwise_map.mp d.pairs_nodup).imp_of_mem fun ha hb hne => ?_
  intro b hba hbb
  exact hne ((hkey _ ha b hba).symm.trans (hkey _ hb b hbb))

variable [DecidableEq κ]

/-- A map with the given entries, the first one of a key winning. -/
def ofPairs (l : List (κ × α)) : Dict κ α := (l.map fun e => (⟨e.1, e.2⟩ : Sigma fun _ : κ => α)).toAList

theorem mem_pairs {d : Dict κ α} {k : κ} {a : α} : (k, a) ∈ d.pairs ↔ d.lookup k = some a := by
  rw [← Option.mem_def, AList.mem_lookup_iff, pairs, List.mem_map]
  constructor
  · rintro ⟨⟨k', a'⟩, he, hka⟩
    cases hka
    exact he
  · exact fun he => ⟨⟨k, a⟩, he, rfl⟩

theorem pairs_filter (d : Dict κ α) (k : κ) : (d.pairs.filter (·.1 = k)).map Prod.snd = (d.lookup k).toList := by
  have key : ∀ l : List (Sigma fun _ : κ => α), l.NodupKeys →
      ((l.map fun e => (e.1, e.2)).filter (·.1 = k)).map Prod.snd = (l.dlookup k).toList := by
    intro l hl
    induction l with
    | nil => rfl
    | cons e l ih =>
      obtain ⟨k', a⟩ := e
      obtain ⟨hk, hl⟩ := List.nodupKeys_cons.mp hl
      by_cases h : k' = k
      · subst h
        have hnone : l.dlookup k' = none := List.dlookup_eq_none.mpr hk
        simpa [hnone] using ih hl
      · simpa [h, List.dlookup_cons_ne l ⟨k', a⟩ (Ne.symm h)] using ih hl
  exact key d.entries d.nodupKeys

theorem mem_keys {d : Dict κ α} {k : κ} : k ∈ d.keys ↔ ∃ a, d.lookup k = some a := by
  rw [← AList.mem_keys, ← AList.lookup_isSome, Option.isSome_iff_exists]

theorem mem_values {d : Dict κ α} {a : α} : a ∈ d.values ↔ ∃ k, d.lookup k = some a := by
  simp only [← mem_pairs]
  simp only [values, pairs, List.mem_map]
  constructor
  · rintro ⟨e, he, rfl⟩
    exact ⟨e.1, e, he, rfl⟩
  · rintro ⟨k, e, he, hka⟩
    cases hka
    exact ⟨e, he, rfl⟩

theorem lookup_insert' (d : Dict κ α) (k k' : κ) (a : α) :
    (d.insert k a).lookup k' = if k' = k then some a else d.lookup k' := by
  split
  · next h => rw [h, AList.lookup_insert]
  · next h => exact AList.lookup_insert_ne h

theorem forall_insert {Q : κ → α → Prop} {d : Dict κ α} {k : κ} {a : α} {R : Prop}
    (h : Q k a ↔ (∀ old, d.lookup k = some old → Q k old) ∧ R) :
    (∀ k' a', (d.insert k a).lookup k' = some a' → Q k' a') ↔ (∀ k' a', d.lookup k' = some a' → Q k' a') ∧ R := by
  simp only [lookup_insert']
  constructor
  · intro hall
    have hk := h.mp (hall k a (if_pos rfl))
    refine ⟨fun k' a' hlook => ?_, hk.2⟩
    by_cases hk' : k' = k
    · rw [hk'] at hlook ⊢
      exact hk.1 a' hlook
    · exact hall k' a' ((if_neg hk').trans hlook)
  · rintro ⟨hall, hR⟩ k' a' hlook
    split_ifs at hlook with hk'
    · cases hlook
      rw [hk']
      exact h.mpr ⟨hall k, hR⟩
    · exact hall k' a' hlook

theorem lookup_erase' (d : Dict κ α) (k k' : κ) :
    (d.erase k).lookup k' = if k' = k then none else d.lookup k' := by
  split
  · next h => rw [h, AList.lookup_erase]
  · next h => exact AList.lookup_erase_ne h

theorem lookup_ofPairs_map (f : α → β) (d : Dict κ α) (k : κ) :
    (ofPairs (d.pairs.map fun e => (e.1, f e.2))).lookup k = (d.lookup k).map f := by
  have key : ∀ l : List (Sigma fun _ : κ => α),
      List.dlookup k (((l.map fun e => (e.1, e.2)).map fun e => (e.1, f e.2)).map fun e =>
        (⟨e.1, e.2⟩ : Sigma fun _ : κ => β)) = (l.dlookup k).map f := by
    intro l
    induction l with
    | nil => rfl
    | cons e l ih =>
      obtain ⟨k', a⟩ := e
      by_cases h : k = k'
      · subst h
        rw [List.map_cons, List.map_cons, List.map_cons, List.dlookup_cons_eq, List.dlookup_cons_eq]
        rfl
      · rw [List.map_cons, List.map_cons, List.map_cons, List.dlookup_cons_ne _ _ h, List.dlookup_cons_ne _ _ h, ih]
  rw [ofPairs, AList.lookup_to_alist]
  exact key d.entries

theorem lookup_ofPairs_filterMap {f : κ → Option α} {ks : List κ} {k : κ} (hk : k ∈ ks) :
    (ofPairs (ks.filterMap fun k => (f k).map fun a => (k, a))).lookup k = f k := by
  have key : ∀ ks : List κ, k ∈ ks →
      List.dlookup k ((ks.filterMap fun k => (f k).map fun a => (k, a)).map fun e =>
        (⟨e.1, e.2⟩ : Sigma fun _ : κ => α)) = f k := by
    intro ks hk
    induction ks with
    | nil => cases hk
    | cons k' ks ih =>
      have hrest : ∀ h : k ≠ k', k ∈ ks := fun h => (List.mem_cons.mp hk).resolve_left h
      cases hf : f k' with
      | none =>
        rw [List.filterMap_cons_none (by rw [hf]; rfl)]
        by_cases h : k = k'
        · subst h
          by_cases hmem : k ∈ ks
          · exact ih hmem
          · rw [hf, List.dlookup_eq_none]
            intro hkeys
            simp only [List.keys, List.map_map, List.mem_map, List.mem_filterMap] at hkeys
            obtain ⟨e, ⟨k'', hk'', he⟩, heq⟩ := hkeys
            obtain ⟨a, -, rfl⟩ := Option.map_eq_some_iff.mp he
            exact hmem (heq ▸ hk'')
        · exact ih (hrest h)
      | some a =>
        rw [List.filterMap_cons_some (by rw [hf]; rfl), List.map_cons]
        by_cases h : k = k'
        · subst h
          rw [List.dlookup_cons_eq, hf]
        · rw [List.dlookup_cons_ne _ _ h]
          exact ih (hrest h)
  rw [ofPairs, AList.lookup_to_alist]
  exact key ks hk

def mapValues (f : κ → α → α) (d : Dict κ α) : Dict κ α where
  entries := d.entries.map fun e => ⟨e.1, f e.1 e.2⟩
  nodupKeys := by
    have hkeys : (d.entries.map fun e => (⟨e.1, f e.1 e.2⟩ : Sigma fun _ : κ => α)).keys = d.entries.keys := by
      simp only [List.keys, List.map_map]
      rfl
    exact (congrArg List.Nodup hkeys).mpr d.nodupKeys

def filter (p : κ → α → Bool) (d : Dict κ α) : Dict κ α where
  entries := d.entries.filter fun e => p e.1 e.2
  nodupKeys := d.nodupKeys.sublist (List.filter_sublist)

theorem lookup_mapValues (f : κ → α → α) (d : Dict κ α) (k : κ) :
    (d.mapValues f).lookup k = (d.lookup k).map (f k) := by
  have key : ∀ l : List (Sigma fun _ : κ => α),
      (l.map fun e => (⟨e.1, f e.1 e.2⟩ : Sigma fun _ : κ => α)).dlookup k = (l.dlookup k).map (f k) := by
    intro l
    induction l with
    | nil => rfl
    | cons e l ih =>
      obtain ⟨k', a⟩ := e
      by_cases h : k = k'
      · subst h
        rw [List.map_cons, List.dlookup_cons_eq, List.dlookup_cons_eq]
        rfl
      · rw [List.map_cons, List.dlookup_cons_ne _ _ h, List.dlookup_cons_ne _ _ h, ih]
  exact key d.entries

theorem lookup_filter (p : κ → α → Bool) (d : Dict κ α) (k : κ) :
    (d.filter p).lookup k = (d.lookup k).filter (p k) := by
  have key : ∀ l : List (Sigma fun _ : κ => α), l.NodupKeys →
      (l.filter fun e => p e.1 e.2).dlookup k = (l.dlookup k).filter (p k) := by
    intro l hl
    induction l with
    | nil => rfl
    | cons e l ih =>
      obtain ⟨k', a⟩ := e
      obtain ⟨hk, hl⟩ := List.nodupKeys_cons.mp hl
      have ih := ih hl
      by_cases h : k = k'
      · subst h
        have hnone : l.dlookup k = none := List.dlookup_eq_none.mpr hk
        rw [hnone] at ih
        rw [List.filter_cons, List.dlookup_cons_eq]
        split
        · next hp => rw [List.dlookup_cons_eq, Option.filter_some, if_pos hp]
        · next hp => rw [ih, Option.filter_none, Option.filter_some, if_neg hp]
      · rw [List.filter_cons, List.dlookup_cons_ne _ _ h]
        split
        · rw [List.dlookup_cons_ne _ _ h, ih]
        · exact ih
  exact key d.entries d.nodupKeys

theorem find?_pairs_insert {d : Dict κ α} {k : κ} {a : α} {q : κ × α → Bool} (hnew : q (k, a) = false)
    (hold : ∀ b, d.lookup k = some b → q (k, b) = false) : (Dict.pairs (d.insert k a)).find? q = d.pairs.find? q := by
  have key : ∀ l : List (Sigma fun _ : κ => α), (∀ e ∈ l, e.1 = k → q (e.1, e.2) = false) →
      ((l.kerase k).map fun e => (e.1, e.2)).find? q = (l.map fun e => (e.1, e.2)).find? q := by
    intro l
    induction l with
    | nil => exact fun _ => rfl
    | cons e l ih =>
      intro h
      by_cases hk : k = e.1
      · rw [List.kerase_cons_eq hk, List.map_cons, List.find?_cons, h e List.mem_cons_self hk.symm]
      · rw [List.kerase_cons_ne hk, List.map_cons, List.map_cons, List.find?_cons, List.find?_cons,
          ih fun e' he' => h e' (List.mem_cons_of_mem _ he')]
  rw [pairs, AList.entries_insert, List.map_cons, List.find?_cons, hnew]
  refine key d.entries fun e he hk => ?_
  obtain ⟨k', b⟩ := e
  cases hk
  exact hold b (AList.mem_lookup_iff.mpr he)

theorem mem_mapValues {f : κ → α → α} {d : Dict κ α} {k : κ} : k ∈ d.mapValues f ↔ k ∈ d := by
  rw [← AList.lookup_isSome, ← AList.lookup_isSome, lookup_mapValues, Option.isSome_map]

theorem mem_iff_lookup {d : Dict κ α} {k : κ} : k ∈ d ↔ ∃ a, d.lookup k = some a := by
  rw [← AList.lookup_isSome, Option.isSome_iff_exists]

end Dict

/-! ### Collecting by key -/

section Collect
variable {α β κ : Type} [DecidableEq κ] {f : α → κ} {keys : List κ}

theorem perm_flatMap_filter (hnd : keys.Nodup) {l : List α} (hkeys : ∀ a ∈ l, f a ∈ keys) :
    (keys.flatMap fun k => l.filter (f · = k)).Perm l := by
  induction keys generalizing l with
  | nil =>
    have hnil : l = [] := List.eq_nil_iff_forall_not_mem.mpr fun a ha => List.not_mem_nil (hkeys a ha)
    rw [hnil]
    rfl
  | cons k keys ih =>
    obtain ⟨hnot, hnd⟩ := List.nodup_cons.mp hnd
    have hrest : (keys.flatMap fun k' => l.filter (f · = k')) =
        keys.flatMap fun k' => (l.filter fun a => !decide (f a = k)).filter (f · = k') := by
      refine List.flatMap_congr fun k' hk' => ?_
      rw [List.filter_filter]
      refine List.filter_congr fun a _ => ?_
      by_cases h : f a = k'
      · have hne : ¬f a = k := fun hk => hnot (hk ▸ h ▸ hk')
        simp [h, h ▸ hne]
      · simp [h]
    rw [List.flatMap_cons, hrest]
    refine List.Perm.trans (List.Perm.append_left _ (ih hnd fun a ha => ?_)) (List.filter_append_perm _ l)
    obtain ⟨ha, hne⟩ := List.mem_filter.mp ha
    exact (List.mem_cons.mp (hkeys a ha)).resolve_left (by simpa using hne)

theorem map_perm_of_filter {γ : Type} (f : α → κ) (g : α → γ) {l l' : List α}
    (h : ∀ k, ((l.filter (f · = k)).map g).Perm ((l'.filter (f · = k)).map g)) : (l.map g).Perm (l'.map g) := by
  have hcollect : ∀ xs : List α, (∀ a ∈ xs, a ∈ l ++ l') →
      ((((l ++ l').map f).dedup).flatMap fun k => (xs.filter (f · = k)).map g).Perm (xs.map g) := by
    intro xs hxs
    rw [← List.map_flatMap]
    refine (perm_flatMap_filter (List.nodup_dedup _) fun a ha => ?_).map g
    exact List.mem_dedup.mpr (List.mem_map_of_mem (hxs a ha))
  refine (hcollect l fun a ha => List.mem_append_left _ ha).symm.trans (List.Perm.trans ?_
    (hcollect l' fun a ha => List.mem_append_right _ ha))
  exact List.Perm.flatMap_left _ fun k _ => h k

theorem perm_of_filter (f : α → κ) {l l' : List α} (h : ∀ k, (l.filter (f · = k)).Perm (l'.filter (f · = k))) :
    l.Perm l' := by
  have hmap := map_perm_of_filter f id fun k => (h k).map id
  rwa [List.map_id, List.map_id] at hmap

omit [DecidableEq κ] in
theorem find?_of_nodup [BEq κ] [LawfulBEq κ] {l : List α} (hnd : (l.map f).Nodup) {a : α} (ha : a ∈ l) :
    l.find? (f · == f a) = some a := by
  induction l with
  | nil => cases ha
  | cons b l ih =>
    rw [List.map_cons, List.nodup_cons] at hnd
    rcases List.mem_cons.mp ha with rfl | ha
    · exact List.find?_cons_of_pos (beq_self_eq_true (f a))
    · have hne : f b ≠ f a := fun heq => hnd.1 (heq ▸ List.mem_map_of_mem ha)
      rw [List.find?_cons_of_neg (by simpa using hne), ih hnd.2 ha]

theorem flatMap_single {g : κ → List β} {k : κ} (hnd : keys.Nodup) (hother : ∀ k' ∈ keys, k' ≠ k → g k' = [])
    (hk : k ∉ keys → g k = []) : keys.flatMap g = g k := by
  induction keys with
  | nil => exact (hk List.not_mem_nil).symm
  | cons k' keys ih =>
    obtain ⟨hnot, hnd⟩ := List.nodup_cons.mp hnd
    have ih := ih hnd fun k'' hk'' => hother k'' (List.mem_cons_of_mem _ hk'')
    rw [List.flatMap_cons]
    by_cases h : k' = k
    · subst h
      have hrest : keys.flatMap g = [] := List.flatMap_eq_nil_iff.mpr fun k'' hk'' =>
        hother k'' (List.mem_cons_of_mem _ hk'') fun heq => hnot (heq ▸ hk'')
      rw [hrest, List.append_nil]
    · rw [hother k' List.mem_cons_self h, List.nil_append, ih fun hno => hk fun hmem => ?_]
      exact (List.mem_cons.mp hmem).elim (fun heq => h heq.symm) hno

end Collect

/-! ### Iteration orders -/

theorem exists_perm_filterMap {α β : Type} {g : α → Option β} {l : List β} {xs : List α}
    (h : l.Perm (xs.filterMap g)) : ∃ ys : List α, ys.Perm xs ∧ ys.filterMap g = l := by
  induction xs generalizing l with
  | nil => exact ⟨[], List.Perm.refl _, h.eq_nil.symm⟩
  | cons x xs ih =>
    cases hx : g x with
    | none =>
      rw [List.filterMap_cons_none hx] at h
      obtain ⟨ys, hperm, rfl⟩ := ih h
      exact ⟨x :: ys, hperm.cons x, List.filterMap_cons_none hx⟩
    | some b =>
      rw [List.filterMap_cons_some hx] at h
      obtain ⟨l₁, l₂, rfl⟩ := List.append_of_mem (h.mem_iff.mpr List.mem_cons_self)
      obtain ⟨ys, hperm, hys⟩ := ih ((List.perm_middle.symm.trans h).cons_inv)
      obtain ⟨a, c, rfl, rfl, rfl⟩ := List.filterMap_eq_append_iff.mp hys
      exact ⟨a ++ x :: c, List.perm_middle.trans (hperm.cons x), by
        rw [List.filterMap_append, List.filterMap_cons_some hx]⟩

end Reiver

/-! What the values of a map add up to, and how many there are. -/

namespace Reiver.Dict
variable {κ α : Type}

/-- The sum of a size over the values of a map. -/
def total (f : α → Nat) (d : Dict κ α) : Nat := (d.values.map f).sum

def size (d : Dict κ α) : Nat := d.entries.length

@[simp] theorem total_empty (f : α → Nat) : total f (∅ : Dict κ α) = 0 := rfl

theorem length_keys (d : Dict κ α) : d.keys.length = size d := List.length_map _

variable [DecidableEq κ] {f : α → Nat} {d : Dict κ α} {k : κ} {a : α}

theorem perm_erase (h : d.lookup k = some a) : d.entries.Perm (⟨k, a⟩ :: (d.erase k).entries) := by
  have hmem : (⟨k, a⟩ : Sigma fun _ : κ => α) ∈ d.entries := AList.mem_lookup_iff.mp h
  obtain ⟨b, before, after, hbefore, hentries, hkerase⟩ := List.exists_of_kerase (List.mem_keys_of_mem hmem)
  have hb : b = a := by
    have hmem' : (⟨k, b⟩ : Sigma fun _ : κ => α) ∈ d.entries := hentries ▸ List.mem_append_right _ List.mem_cons_self
    exact Option.some.inj ((AList.mem_lookup_iff.mpr hmem').symm.trans h)
  rw [hentries, hb]
  refine List.perm_middle.trans (List.Perm.cons _ ?_)
  rw [← hkerase]
  rfl

theorem total_erase (h : d.lookup k = some a) : total f d = f a + total f (d.erase k) := by
  have hperm := ((perm_erase h).map fun e => e.2).map f
  exact hperm.sum_nat

theorem total_insert : total f (d.insert k a) = f a + total f (d.erase k) := rfl

theorem erase_of_lookup_none (h : d.lookup k = none) : d.erase k = d := by
  refine AList.ext ?_
  exact List.kerase_of_notMem_keys (List.dlookup_eq_none.mp h)

theorem size_erase (h : d.lookup k = some a) : size d = size (d.erase k) + 1 := (perm_erase h).length_eq

theorem size_insert : size (d.insert k a) = size (d.erase k) + 1 := rfl

theorem size_erase_le : size (d.erase k) ≤ size d := (List.kerase_sublist k d.entries).length_le

theorem total_erase_le : total f (d.erase k) ≤ total f d := by
  cases h : d.lookup k with
  | none => rw [erase_of_lookup_none h]
  | some a => exact (total_erase h).symm ▸ Nat.le_add_left _ _

theorem le_total (h : d.lookup k = some a) : f a ≤ total f d := (total_erase h).symm ▸ Nat.le_add_right _ _

theorem total_eq_zero (h : ∀ k a, d.lookup k = some a → f a = 0) : total f d = 0 := by
  refine List.sum_eq_zero_iff_forall_eq_nat.mpr fun n hn => ?_
  obtain ⟨a, ha, rfl⟩ := List.mem_map.mp hn
  obtain ⟨k, hk⟩ := mem_values.mp ha
  exact h k a hk

end Reiver.Dict

/-! Maps filled entry by entry: a later value replaces an earlier one, or is appended to it. -/

namespace Reiver.Dict

variable {κ α : Type} [DecidableEq κ] {d : Dict κ α} {k : κ} {a : α}

def insertAll (d : Dict κ α) (l : List (κ × α)) : Dict κ α := l.foldl (fun d e => d.insert e.1 e.2) d

/-- The values of a key; `none` is no value. -/
def found {β : Type} (d : Dict κ (List β)) (k : κ) : List β := (d.lookup k).getD []

def extendAll {β : Type} (d : Dict κ (List β)) (l : List (κ × List β)) : Dict κ (List β) :=
  l.foldl (fun d e => d.insert e.1 (d.found e.1 ++ e.2)) d

theorem lookup_insertAll_isSome {l : List (κ × α)} :
    ((d.insertAll l).lookup k).isSome ↔ (d.lookup k).isSome ∨ ∃ a, (k, a) ∈ l := by
  induction l generalizing d with
  | nil => simp [insertAll]
  | cons e l ih =>
    rw [insertAll, List.foldl_cons]
    refine (ih (d := d.insert e.1 e.2)).trans ?_
    rw [lookup_insert']
    obtain ⟨k', a'⟩ := e
    by_cases hk : k = k'
    · subst hk
      simp
    · rw [if_neg hk]
      refine or_congr_right ⟨fun ⟨a, ha⟩ => ⟨a, List.mem_cons_of_mem _ ha⟩, fun ⟨a, ha⟩ => ?_⟩
      rcases List.mem_cons.mp ha with heq | ha
      · exact absurd (Prod.mk.inj heq).1 hk
      · exact ⟨a, ha⟩

theorem lookup_insertAll_of_notMem {l : List (κ × α)} (h : k ∉ l.map Prod.fst) :
    (d.insertAll l).lookup k = d.lookup k := by
  induction l generalizing d with
  | nil => rfl
  | cons e l ih =>
    rw [List.map_cons, List.mem_cons, not_or] at h
    rw [insertAll, List.foldl_cons]
    refine (ih (d := d.insert e.1 e.2) h.2).trans ?_
    rw [lookup_insert', if_neg h.1]

theorem lookup_insertAll_of_nodup {l : List (κ × α)} (hnd : (l.map Prod.fst).Nodup) (h : (k, a) ∈ l) :
    (d.insertAll l).lookup k = some a := by
  induction l generalizing d with
  | nil => cases h
  | cons e l ih =>
    rw [List.map_cons, List.nodup_cons] at hnd
    rw [insertAll, List.foldl_cons]
    rcases List.mem_cons.mp h with rfl | h
    · refine (lookup_insertAll_of_notMem (d := d.insert k a) hnd.1).trans ?_
      rw [lookup_insert', if_pos rfl]
    · exact ih hnd.2 h

variable {β : Type} {m : Dict κ (List β)} {b : β}

theorem mem_found_extendAll {l : List (κ × List β)} :
    b ∈ (m.extendAll l).found k ↔ b ∈ m.found k ∨ ∃ e ∈ l, e.1 = k ∧ b ∈ e.2 := by
  induction l generalizing m with
  | nil => simp [extendAll]
  | cons e l ih =>
    rw [extendAll, List.foldl_cons]
    refine (ih (m := m.insert e.1 (m.found e.1 ++ e.2))).trans ?_
    rw [found, lookup_insert', List.exists_mem_cons_iff]
    by_cases hk : k = e.1
    · rw [if_pos hk, Option.getD_some, List.mem_append, hk, and_iff_right rfl, or_assoc]
    · rw [if_neg hk]
      refine or_congr Iff.rfl (or_iff_right fun h => hk h.1.symm).symm

theorem mem_found_iff : b ∈ m.found k ↔ ∃ l, m.lookup k = some l ∧ b ∈ l := by
  rw [found]
  cases m.lookup k with
  | none => simp
  | some l => simp

end Reiver.Dict

/-! Lists whose elements are known by a key, and what is made of them one by one. -/

namespace Reiver

variable {α β κ : Type} [DecidableEq κ] {keyA : α → κ} {keyB : β → κ} {f : α → Option β} {l : List α}

theorem filter_filterMap_of_notMem (hkey : ∀ a b, f a = some b → keyB b = keyA a) {k : κ} (hk : k ∉ l.map keyA) :
    (l.filterMap f).filter (keyB · = k) = [] := by
  refine List.filter_eq_nil_iff.mpr fun b hb heq => ?_
  obtain ⟨a, ha, hab⟩ := List.mem_filterMap.mp hb
  exact hk (of_decide_eq_true heq ▸ hkey a b hab ▸ List.mem_map_of_mem ha)

theorem filter_filterMap_of_mem (hkey : ∀ a b, f a = some b → keyB b = keyA a) (hnd : (l.map keyA).Nodup) {a : α}
    (ha : a ∈ l) : (l.filterMap f).filter (keyB · = keyA a) = (f a).toList := by
  induction l with
  | nil => cases ha
  | cons c l ih =>
    obtain ⟨hnot, hnd⟩ := List.nodup_cons.mp hnd
    rw [List.filterMap_cons]
    rcases List.mem_cons.mp ha with rfl | ha
    · have hrest : (l.filterMap f).filter (keyB · = keyA a) = [] := filter_filterMap_of_notMem hkey hnot
      cases hfa : f a with
      | none => exact hrest
      | some b =>
        rw [List.filter_cons_of_pos (by simpa using hkey a b hfa), hrest]
        rfl
    · have hne : keyA c ≠ keyA a := fun heq => hnot (heq ▸ List.mem_map_of_mem ha)
      cases hfc : f c with
      | none => exact ih hnd ha
      | some b =>
        rw [List.filter_cons_of_neg (by simpa [hkey c b hfc] using hne)]
        exact ih hnd ha

omit [DecidableEq κ] in
theorem map_filterMap_sublist (hkey : ∀ a b, f a = some b → keyB b = keyA a) :
    ((l.filterMap f).map keyB).Sublist (l.map keyA) := by
  induction l with
  | nil => exact List.Sublist.slnil
  | cons a l ih =>
    rw [List.filterMap_cons, List.map_cons]
    cases hfa : f a with
    | none => exact ih.cons _
    | some b =>
      rw [List.map_cons, hkey a b hfa]
      exact ih.cons_cons _

end Reiver
