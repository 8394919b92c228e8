import Mathlib.Data.List.Basic
import Reiver.Lib.Dict

/-! Rows made in a nested loop, and the filters that may run before it or inside it. -/

namespace Reiver

variable {β : Type} {rows : List (List β)} {ext : List β → List (List β)} {p : List β → Bool}

def loop (rows : List (List β)) (ext : List β → List (List β)) : List (List β) :=
  rows.flatMap fun l => (ext l).map (l ++ ·)

theorem mem_loop {row : List β} : row ∈ loop rows ext ↔ ∃ l ∈ rows, ∃ r ∈ ext l, l ++ r = row := by
  simp [loop]

theorem loop_filter (h : ∀ l ∈ rows, ∀ r ∈ ext l, p (l ++ r) = p l) :
    loop (rows.filter p) ext = (loop rows ext).filter p := by
  induction rows with
  | nil => rfl
  | cons l rows ih =>
    have ih := ih fun l hl => h l (List.mem_cons_of_mem _ hl)
    have hl := h l List.mem_cons_self
    have hcons : ∀ rows, loop (l :: rows) ext = (ext l).map (l ++ ·) ++ loop rows ext := fun _ => rfl
    rw [hcons, List.filter_append, ← ih, List.filter_map]
    cases hp : p l with
    | false =>
      have hnone : (ext l).filter (p ∘ (l ++ ·)) = [] := by
        refine List.filter_eq_nil_iff.mpr fun r hr => ?_
        simp [hl r hr, hp]
      rw [List.filter_cons_of_neg (by simp [hp]), hnone, List.map_nil, List.nil_append]
    | true =>
      have hall : (ext l).filter (p ∘ (l ++ ·)) = ext l := by
        refine List.filter_eq_self.mpr fun r hr => ?_
        simp [hl r hr, hp]
      rw [List.filter_cons_of_pos hp, hcons, hall]

theorem loop_filter_right {q : List β → List β → Bool} (h : ∀ l ∈ rows, ∀ r ∈ ext l, p (l ++ r) = q l r) :
    loop rows (fun l => (ext l).filter (q l)) = (loop rows ext).filter p := by
  rw [loop, loop, List.filter_flatMap]
  refine List.flatMap_congr fun l hl => ?_
  rw [List.filter_map]
  exact congrArg _ (List.filter_congr fun r hr => (h l hl r hr).symm)

end Reiver

/-! Two lists joined by nested loops, and by a hash table of the right one. An outer join keeps the left elements
    without a match. -/

namespace Reiver

variable {α β κ : Type} {outer : Bool} {p q : α → β → Bool} {s : β → Bool} {l : List α} {r : List β}

/-- The pairs of an element, or the element alone. -/
def pairUp (outer : Bool) (a : α) : List β → List (α × Option β)
  | [] => if outer then [(a, none)] else []
  | bs => bs.map fun b => (a, some b)

def join (outer : Bool) (p : α → β → Bool) (l : List α) (r : List β) : List (α × Option β) :=
  l.flatMap fun a => pairUp outer a (r.filter (p a))

theorem mem_pairUp {a a' : α} {b : β} {bs : List β} : (a', some b) ∈ pairUp outer a bs ↔ a' = a ∧ b ∈ bs := by
  cases bs with
  | nil => cases outer <;> simp [pairUp]
  | cons c cs =>
    simp only [pairUp, List.mem_map, Prod.mk.injEq, Option.some.injEq]
    exact ⟨fun ⟨b', hb', ha, hb⟩ => ⟨ha.symm, hb ▸ hb'⟩, fun ⟨ha, hb⟩ => ⟨b, hb, ha.symm, rfl⟩⟩

theorem mem_join {a : α} {b : β} : (a, some b) ∈ join outer p l r ↔ a ∈ l ∧ b ∈ r ∧ p a b = true := by
  simp only [join, List.mem_flatMap, mem_pairUp, List.mem_filter]
  constructor
  · rintro ⟨a', ha, rfl, hb⟩
    exact ⟨ha, hb⟩
  · exact fun ⟨ha, hb⟩ => ⟨a, ha, rfl, hb⟩

theorem join_congr (h : ∀ a ∈ l, ∀ b ∈ r, p a b = q a b) : join outer p l r = join outer q l r :=
  List.flatMap_congr fun a ha => congrArg _ (List.filter_congr fun b hb => h a ha b hb)

theorem join_perm_iff : (join outer p l r).Perm (join outer q l r) ↔ ∀ a ∈ l, ∀ b ∈ r, p a b = q a b := by
  constructor
  · intro h a ha b hb
    have hmem := h.mem_iff (a := (a, some b))
    rw [mem_join, mem_join] at hmem
    have hiff : p a b = true ↔ q a b = true :=
      ⟨fun hp => (hmem.mp ⟨ha, hb, hp⟩).2.2, fun hq => (hmem.mpr ⟨ha, hb, hq⟩).2.2⟩
    exact Bool.eq_iff_iff.mpr hiff
  · intro h
    rw [join_congr h]

theorem join_filter : join outer p l (r.filter s) = join outer (fun a b => s b && p a b) l r := by
  refine List.flatMap_congr fun a _ => congrArg _ ?_
  rw [List.filter_filter]
  exact List.filter_congr fun b _ => Bool.and_comm _ _

theorem join_of_none (h : ∀ a ∈ l, ∀ b ∈ r, p a b = false) :
    join outer p l r = if outer then l.map fun a => (a, none) else [] := by
  have hnil : ∀ a ∈ l, pairUp outer a (r.filter (p a)) = if outer then [(a, none)] else [] := by
    intro a ha
    rw [List.filter_eq_nil_iff.mpr fun b hb => by simp [h a ha b hb]]
    rfl
  rw [join, List.flatMap_congr hnil]
  cases outer with
  | false => exact List.flatMap_eq_nil_iff.mpr fun _ _ => rfl
  | true => exact List.flatMap_pure_eq_map _ _

section
variable [DecidableEq κ] {keyA : α → Option κ} {keyB : β → Option κ}

/-- One element goes to the end of its bucket. -/
def pushBucket (keyB : β → Option κ) (d : Dict κ (List β)) (b : β) : Dict κ (List β) :=
  match keyB b with
  | some k => d.insert k ((d.lookup k).getD [] ++ [b])
  | none => d

def buckets (keyB : β → Option κ) (r : List β) : Dict κ (List β) := r.foldl (pushBucket keyB) ∅

def hashJoin (outer : Bool) (keyA : α → Option κ) (keyB : β → Option κ) (l : List α) (r : List β) :
    List (α × Option β) :=
  l.flatMap fun a =>
    match keyA a with
    | none => if outer then [(a, none)] else []
    | some k =>
      match (buckets keyB r).lookup k with
      | some bs => bs.map fun b => (a, some b)
      | none => if outer then [(a, none)] else []

theorem lookup_pushBucket (d : Dict κ (List β)) (b : β) (k : κ) :
    ((pushBucket keyB d b).lookup k).getD [] = (d.lookup k).getD [] ++ [b].filter (keyB · = some k) := by
  rw [pushBucket]
  cases hb : keyB b with
  | none => simp [hb]
  | some k' =>
    dsimp only
    rw [Dict.lookup_insert']
    by_cases hk : k = k'
    · subst hk
      simp [hb]
    · simp [hk, hb, Ne.symm hk]

theorem lookup_buckets (k : κ) : ((buckets keyB r).lookup k).getD [] = r.filter (keyB · = some k) := by
  have key : ∀ (d : Dict κ (List β)), ((r.foldl (pushBucket keyB) d).lookup k).getD [] =
      (d.lookup k).getD [] ++ r.filter (keyB · = some k) := by
    induction r with
    | nil => simp
    | cons b r ih =>
      intro d
      rw [List.foldl_cons, ih, lookup_pushBucket, List.append_assoc, ← List.filter_append]
      rfl
  rw [buckets, key]
  rfl

theorem lookup_buckets_ne_nil (k : κ) : (buckets keyB r).lookup k ≠ some [] := by
  have key : ∀ (d : Dict κ (List β)), d.lookup k ≠ some [] → (r.foldl (pushBucket keyB) d).lookup k ≠ some [] := by
    induction r with
    | nil => exact fun _ h => h
    | cons b r ih =>
      refine fun d h => ih _ ?_
      rw [pushBucket]
      cases keyB b with
      | none => exact h
      | some k' =>
        rw [Dict.lookup_insert']
        split_ifs
        · simp
        · exact h
  exact key ∅ (by simp)

theorem hashJoin_eq :
    hashJoin outer keyA keyB l r = join outer (fun a b => (keyA a).isSome && keyB b = keyA a) l r := by
  refine List.flatMap_congr fun a _ => ?_
  cases ha : keyA a with
  | none =>
    have hnil : r.filter (fun b => (keyA a).isSome && keyB b = keyA a) = [] :=
      List.filter_eq_nil_iff.mpr fun _ _ => by simp [ha]
    exact congrArg (pairUp outer a) hnil.symm
  | some k =>
    have hmatch : r.filter (fun b => (keyA a).isSome && keyB b = keyA a) = r.filter (keyB · = some k) :=
      List.filter_congr fun _ _ => by simp [ha]
    have hbucket := (lookup_buckets k).trans hmatch.symm
    have hne : (buckets keyB r).lookup k ≠ some [] := lookup_buckets_ne_nil k
    dsimp only
    rw [← hbucket]
    cases hlookup : (buckets keyB r).lookup k with
    | none => rfl
    | some bs =>
      cases bs with
      | nil => exact absurd hlookup hne
      | cons b bs => rfl

end

end Reiver
