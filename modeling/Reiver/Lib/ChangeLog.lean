import Reiver.Lib.Dict

/-! Logs of keyed changes. Replaying a log applies its changes one after another; applying it in bulk looks every change
    up in the rows as they were before the log. The two agree exactly key by key (`bulk_perm_replay_iff`). -/

namespace Reiver

inductive Change (κ ν : Type) where
  | insert (k : κ) (v : ν)
  | update (k : κ) (v : ν)
  | delete (k : κ)
deriving DecidableEq

namespace Change
variable {κ ν ρ : Type}

def key : Change κ ν → κ
  | insert k _ | update k _ | delete k => k

def inserted : Change κ ν → Option ν
  | insert _ v => some v
  | _ => none

def updated : Change κ ν → Option ν
  | update _ v => some v
  | _ => none

/-- Whether the row of the key is replaced or removed. -/
def removes : Change κ ν → Bool
  | insert _ _ => false
  | _ => true

def IsUpdate (c : Change κ ν) : Prop := ∃ k v, c = update k v

end Change

section Replay
variable {κ ν ρ : Type} [DecidableEq κ] (keyOf : ρ → κ) (row : ν → ρ)

def replayStep (rows : List ρ) : Change κ ν → List ρ
  | .insert _ v => rows ++ [row v]
  | .update k v => rows.map fun r => if keyOf r = k then row v else r
  | .delete k => rows.filter (keyOf · ≠ k)

def replay (rows : List ρ) (changes : List (Change κ ν)) : List ρ := changes.foldl (replayStep keyOf row) rows

/-- Absent keys are inserted, present ones updated and deleted, and a row keeps its key. -/
def PossibleStep (rows : List ρ) : Change κ ν → Prop
  | .insert k v => k ∉ rows.map keyOf ∧ keyOf (row v) = k
  | .update k v => k ∈ rows.map keyOf ∧ keyOf (row v) = k
  | .delete k => k ∈ rows.map keyOf

def Possible (rows : List ρ) : List (Change κ ν) → Prop
  | [] => True
  | c :: changes => PossibleStep keyOf row rows c ∧ Possible (replayStep keyOf row rows c) changes

/-! ### One key -/

def rowStep (r : Option ρ) : Change κ ν → Option ρ
  | .insert _ v | .update _ v => some (row v)
  | .delete _ => r.bind fun _ => none

def rowReplay (r : Option ρ) (changes : List (Change κ ν)) : Option ρ := changes.foldl (rowStep row) r

def PossibleRow (r : Option ρ) : List (Change κ ν) → Prop
  | [] => True
  | c :: changes => (c.removes = r.isSome) ∧ PossibleRow (rowStep row r c) changes

/-! ### In bulk -/

variable (seen : κ → Bool) (built : ν → ρ)

/-- The values of the updates whose row is found. -/
def foundUpdates (rows : List ρ) (changes : List (Change κ ν)) : List ν :=
  (changes.filter fun c => seen c.key ∧ c.key ∈ rows.map keyOf).filterMap Change.updated

def writtenValues (rows : List ρ) (changes : List (Change κ ν)) : List ν :=
  foundUpdates keyOf seen rows changes ++ changes.filterMap Change.inserted

def bulk (rows : List ρ) (changes : List (Change κ ν)) : List ρ :=
  rows.filter (fun r => ¬∃ c ∈ changes, c.removes = true ∧ c.key = keyOf r ∧ seen (keyOf r) = true) ++
    (writtenValues keyOf seen rows changes).map built

/-- The changes of a key for which both ways agree: a row that is found is left alone, or changed once, or deleted and
    inserted again; and what later changes make of any other row is what it was first. -/
def RowAgrees (r : Option ρ) (found : Bool) (changes : List (Change κ ν)) : Prop :=
  match r, found with
  | some _, true =>
    changes = [] ∨ (∃ k v, changes = [.update k v] ∧ built v = row v) ∨ (∃ k, changes = [.delete k]) ∨
      ∃ k k' v, changes = [.delete k, .insert k' v] ∧ built v = row v
  | some r, false => (∀ c ∈ changes, c.IsUpdate) ∧ rowReplay row (some r) changes = some r
  | none, _ =>
    changes = [] ∨ ∃ k v later, changes = .insert k v :: later ∧ (∀ c ∈ later, c.IsUpdate) ∧
      rowReplay row (some (row v)) later = some (built v)

variable {keyOf row seen built} {rows : List ρ} {c : Change κ ν} {changes : List (Change κ ν)} {k : κ} {r : Option ρ}

/-! ### Replaying, key by key -/

/-- A step changes the row of its key only. -/
theorem filter_replayStep (hstep : PossibleStep keyOf row rows c) (hrow : rows.filter (keyOf · = k) = r.toList) :
    (replayStep keyOf row rows c).filter (keyOf · = k) = (if c.key = k then rowStep row r c else r).toList ∧
      (c.key = k → c.removes = r.isSome) := by
  have hpresent : k ∈ rows.map keyOf ↔ r.isSome = true := by
    have hmem : k ∈ rows.map keyOf ↔ rows.filter (keyOf · = k) ≠ [] := by
      rw [Ne, List.filter_eq_nil_iff]
      simp
    rw [hmem, hrow]
    cases r <;> simp
  cases c with
  | insert k' v =>
    obtain ⟨habsent, hkey⟩ := hstep
    rw [replayStep, List.filter_append, hrow]
    by_cases hk : k' = k
    · subst hk
      have hnone : r = none := by
        rw [hpresent] at habsent
        simpa using habsent
      subst hnone
      exact ⟨by simp [Change.key, rowStep, hkey], fun _ => rfl⟩
    · exact ⟨by simp [Change.key, hkey, hk], fun h => absurd h hk⟩
  | update k' v =>
    obtain ⟨hmem, hkey⟩ := hstep
    have hmap : (rows.map fun r => if keyOf r = k' then row v else r).filter (keyOf · = k) =
        (rows.filter (keyOf · = k)).map fun r => if keyOf r = k' then row v else r := by
      rw [List.filter_map]
      congr 1
      refine List.filter_congr fun r _ => ?_
      by_cases hr : keyOf r = k' <;> simp [hr, hkey]
    rw [replayStep, hmap, hrow]
    by_cases hk : k' = k
    · subst hk
      have hsome := hpresent.mp hmem
      obtain ⟨r, rfl⟩ := Option.isSome_iff_exists.mp hsome
      have hr : keyOf r = k' := by
        have hmem : r ∈ rows.filter (keyOf · = k') := by
          rw [hrow]
          exact List.mem_singleton_self r
        simpa using (List.mem_filter.mp hmem).2
      exact ⟨by simp [Change.key, rowStep, hr], fun _ => rfl⟩
    · refine ⟨?_, fun h => absurd h hk⟩
      have hsame : ∀ r' ∈ r.toList, (if keyOf r' = k' then row v else r') = r' := by
        intro r' hr'
        have hr' := hrow ▸ hr'
        have hkr : keyOf r' = k := by simpa using (List.mem_filter.mp hr').2
        exact if_neg fun h => hk (h.symm.trans hkr)
      rw [if_neg (by exact hk), List.map_congr_left hsame, List.map_id']
  | delete k' =>
    rw [replayStep, List.filter_filter]
    by_cases hk : k' = k
    · subst hk
      refine ⟨?_, fun _ => (hpresent.mp hstep).symm⟩
      have hnone : ∀ r' ∈ rows, ¬(decide (keyOf r' = k') && decide (keyOf r' ≠ k')) = true := by
        intro r' _
        simp
      rw [List.filter_eq_nil_iff.mpr hnone, if_pos (by rfl)]
      cases r <;> rfl
    · refine ⟨?_, fun h => absurd h hk⟩
      rw [if_neg (by exact hk), ← hrow]
      refine List.filter_congr fun r' _ => ?_
      by_cases hr : keyOf r' = k <;> simp [hr, Ne.symm hk]

theorem filter_replay (hpossible : Possible keyOf row rows changes) (hrow : rows.filter (keyOf · = k) = r.toList) :
    (replay keyOf row rows changes).filter (keyOf · = k) = (rowReplay row r (changes.filter (·.key = k))).toList ∧
      PossibleRow row r (changes.filter (·.key = k)) := by
  induction changes generalizing rows r with
  | nil => exact ⟨hrow, trivial⟩
  | cons c changes ih =>
    obtain ⟨hstep, hpossible⟩ := hpossible
    obtain ⟨hfilter, hremoves⟩ := filter_replayStep hstep hrow
    obtain ⟨hreplay, hrest⟩ := ih hpossible hfilter
    rw [replay, List.foldl_cons]
    by_cases hk : c.key = k
    · rw [if_pos hk] at hreplay hrest
      rw [List.filter_cons_of_pos (by simpa using hk)]
      exact ⟨hreplay, hremoves hk, hrest⟩
    · rw [if_neg hk] at hreplay hrest
      rw [List.filter_cons_of_neg (by simpa using hk)]
      exact ⟨hreplay, hrest⟩

/-! ### In bulk, key by key -/

def rowBulk (built : ν → ρ) (r : Option ρ) (found : Bool) (changes : List (Change κ ν)) : List ρ :=
  (if found && changes.any Change.removes then [] else r.toList) ++
    ((if found && r.isSome then changes.filterMap Change.updated else []) ++
      changes.filterMap Change.inserted).map built

omit [DecidableEq κ] in
theorem rowAgrees_nil (r : Option ρ) (found : Bool) : RowAgrees row built r found ([] : List (Change κ ν)) := by
  cases r with
  | none => exact .inl rfl
  | some r =>
    cases found with
    | true => exact .inl rfl
    | false => exact ⟨fun c hc => absurd hc List.not_mem_nil, rfl⟩

omit [DecidableEq κ] in
theorem isUpdate_of_possible {r : ρ} (hpossible : PossibleRow row (some r) changes)
    (hinserted : changes.filterMap Change.inserted = []) (hleft : (rowReplay row (some r) changes).isSome = true) :
    ∀ c ∈ changes, c.IsUpdate := by
  induction changes generalizing r with
  | nil => exact fun c hc => absurd hc List.not_mem_nil
  | cons c changes ih =>
    cases c with
    | insert k v =>
      have hno : (false : Bool) = true := hpossible.1
      cases hno
    | update k v =>
      have hrest := ih hpossible.2 hinserted hleft
      rintro c (_ | ⟨_, hc⟩)
      · exact ⟨k, v, rfl⟩
      · exact hrest c hc
    | delete k =>
      cases changes with
      | nil => cases hleft
      | cons c changes =>
        cases c with
        | insert k' v => cases hinserted
        | update k' v =>
          have hno : (true : Bool) = false := hpossible.2.1
          cases hno
        | delete k' =>
          have hno : (true : Bool) = false := hpossible.2.1
          cases hno

omit [DecidableEq κ] in
theorem filterMap_inserted_nil (h : ∀ c ∈ changes, c.IsUpdate) : changes.filterMap Change.inserted = [] := by
  rw [List.filterMap_eq_nil_iff]
  intro c hc
  obtain ⟨k, v, rfl⟩ := h c hc
  rfl

omit [DecidableEq κ] in
theorem toList_eq_cons {o : Option ρ} {a : ρ} {l : List ρ} (h : a :: l = o.toList) : o = some a ∧ l = [] := by
  cases o with
  | none => cases h
  | some b =>
    obtain ⟨rfl, rfl⟩ := List.cons.inj h
    exact ⟨rfl, rfl⟩

omit [DecidableEq κ] in
theorem rowBulk_unseen_iff {r : ρ} (hpossible : PossibleRow row (some r) changes) :
    rowBulk built (some r) false changes = (rowReplay row (some r) changes).toList ↔
      RowAgrees row built (some r) false changes := by
  have hbulk : rowBulk built (some r) false changes = r :: (changes.filterMap Change.inserted).map built := rfl
  rw [hbulk]
  constructor
  · intro h
    obtain ⟨hleft, hinserted⟩ := toList_eq_cons h
    rw [List.map_eq_nil_iff] at hinserted
    exact ⟨isUpdate_of_possible hpossible hinserted (by rw [hleft]; rfl), hleft⟩
  · rintro ⟨hupdates, hleft⟩
    rw [hleft, filterMap_inserted_nil hupdates]
    rfl

omit [DecidableEq κ] in
theorem rowBulk_absent_iff {found : Bool} (hpossible : PossibleRow row none changes) :
    rowBulk built none found changes = (rowReplay row none changes).toList ↔
      RowAgrees row built none found changes := by
  have hbulk : rowBulk built none found changes = (changes.filterMap Change.inserted).map built := by
    simp [rowBulk]
  rw [hbulk]
  cases changes with
  | nil => exact iff_of_true rfl (.inl rfl)
  | cons c changes =>
    cases c with
    | insert k v =>
      constructor
      · intro h
        obtain ⟨hleft, hinserted⟩ := toList_eq_cons h
        rw [List.map_eq_nil_iff] at hinserted
        have hleft' : rowReplay row (some (row v)) changes = some (built v) := hleft
        exact .inr ⟨k, v, changes, rfl, isUpdate_of_possible hpossible.2 hinserted (by rw [hleft']; rfl), hleft'⟩
      · rintro (hnil | ⟨k', v', later, hlater, hupdates, hleft⟩)
        · cases hnil
        · obtain ⟨hfirst, rfl⟩ := List.cons.inj hlater
          obtain ⟨-, rfl⟩ := Change.insert.inj hfirst
          have hreplay : rowReplay row none (.insert k v :: changes) = some (built v) := hleft
          rw [hreplay, List.filterMap_cons_some (by rfl), filterMap_inserted_nil hupdates]
          rfl
    | update k v =>
      have hno : (true : Bool) = false := hpossible.1
      cases hno
    | delete k =>
      have hno : (true : Bool) = false := hpossible.1
      cases hno

omit [DecidableEq κ] in
theorem nil_of_possible {r : ρ} (hpossible : PossibleRow row (some r) changes)
    (hinserted : changes.filterMap Change.inserted = []) (hupdated : changes.filterMap Change.updated = [])
    (hleft : (rowReplay row (some r) changes).isSome = true) : changes = [] := by
  have hupdates := isUpdate_of_possible hpossible hinserted hleft
  cases changes with
  | nil => rfl
  | cons c changes =>
    obtain ⟨k, v, rfl⟩ := hupdates c List.mem_cons_self
    cases hupdated

omit [DecidableEq κ] in
theorem rowBulk_found_iff {r : ρ} (hpossible : PossibleRow row (some r) changes) :
    rowBulk built (some r) true changes = (rowReplay row (some r) changes).toList ↔
      RowAgrees row built (some r) true changes := by
  cases changes with
  | nil => exact iff_of_true rfl (.inl rfl)
  | cons c changes =>
    cases c with
    | insert k v =>
      have hno : (false : Bool) = true := hpossible.1
      cases hno
    | update k v =>
      have hbulk : rowBulk built (some r) true (.update k v :: changes) =
          built v :: (changes.filterMap Change.updated ++ changes.filterMap Change.inserted).map built := rfl
      rw [hbulk]
      constructor
      · intro h
        obtain ⟨hleft, hrest⟩ := toList_eq_cons h
        obtain ⟨hupdated, hinserted⟩ := List.append_eq_nil_iff.mp (List.map_eq_nil_iff.mp hrest)
        have hleft' : rowReplay row (some (row v)) changes = some (built v) := hleft
        obtain rfl := nil_of_possible hpossible.2 hinserted hupdated (by rw [hleft']; rfl)
        exact .inr (.inl ⟨k, v, rfl, (Option.some.inj hleft').symm⟩)
      · rintro (hnil | ⟨k', v', hone, hbuilt⟩ | ⟨k', hone⟩ | ⟨k', k'', v', htwo, -⟩)
        · cases hnil
        · obtain ⟨hfirst, rfl⟩ := List.cons.inj hone
          obtain ⟨-, rfl⟩ := Change.update.inj hfirst
          rw [hbuilt]
          rfl
        · cases hone
        · cases htwo
    | delete k =>
      have hbulk : rowBulk built (some r) true (.delete k :: changes) =
          (changes.filterMap Change.updated ++ changes.filterMap Change.inserted).map built := rfl
      rw [hbulk]
      cases changes with
      | nil => exact iff_of_true rfl (.inr (.inr (.inl ⟨k, rfl⟩)))
      | cons c changes =>
        cases c with
        | insert k' v =>
          constructor
          · intro h
            have hperm :
              (built v :: (changes.filterMap Change.updated ++ changes.filterMap Change.inserted).map built).Perm
                (rowReplay row (some (row v)) changes).toList := by
              have hleft : (rowReplay row (some r) (.delete k :: .insert k' v :: changes)).toList =
                  (rowReplay row (some (row v)) changes).toList := rfl
              rw [← hleft, ← h, List.map_append, List.map_append]
              exact (List.perm_middle (a := built v)).symm
            cases hleft : rowReplay row (some (row v)) changes with
            | none =>
              rw [hleft] at hperm
              exact absurd hperm.eq_nil (List.cons_ne_nil _ _)
            | some r' =>
              rw [hleft] at hperm
              obtain ⟨rfl, hrest⟩ := List.cons.inj (List.perm_singleton.mp hperm)
              obtain ⟨hupdated, hinserted⟩ := List.append_eq_nil_iff.mp (List.map_eq_nil_iff.mp hrest)
              obtain rfl := nil_of_possible hpossible.2.2 hinserted hupdated (by rw [hleft]; rfl)
              exact .inr (.inr (.inr ⟨k, k', v, rfl, (Option.some.inj hleft).symm⟩))
          · rintro (hnil | ⟨k'', v', hone, -⟩ | ⟨k'', hone⟩ | ⟨j, j', v', htwo, hbuilt⟩)
            · cases hnil
            · cases hone
            · cases hone
            · obtain ⟨-, htwo⟩ := List.cons.inj htwo
              obtain ⟨hsecond, rfl⟩ := List.cons.inj htwo
              obtain ⟨-, rfl⟩ := Change.insert.inj hsecond
              have hleft : rowReplay row (some r) [.delete k, .insert k' v] = some (row v) := rfl
              rw [hleft, ← hbuilt]
              rfl
        | update k' v =>
          have hno : (true : Bool) = false := hpossible.2.1
          cases hno
        | delete k' =>
          have hno : (true : Bool) = false := hpossible.2.1
          cases hno

omit [DecidableEq κ] in
theorem rowBulk_iff {found : Bool} (hpossible : PossibleRow row r changes) :
    rowBulk built r found changes = (rowReplay row r changes).toList ↔ RowAgrees row built r found changes := by
  cases r with
  | none => exact rowBulk_absent_iff hpossible
  | some r =>
    cases found with
    | false => exact rowBulk_unseen_iff hpossible
    | true => exact rowBulk_found_iff hpossible

/-! ### All keys -/

theorem filter_of_nodup (hnodup : (rows.map keyOf).Nodup) (k : κ) :
    rows.filter (keyOf · = k) = (rows.find? (keyOf · = k)).toList := by
  induction rows with
  | nil => rfl
  | cons r rows ih =>
    rw [List.map_cons, List.nodup_cons] at hnodup
    by_cases hk : keyOf r = k
    · have hrest : rows.filter (keyOf · = k) = [] := by
        rw [List.filter_eq_nil_iff]
        intro r' hr' hk'
        exact hnodup.1 (List.mem_map.mpr ⟨r', hr', (by simpa using hk' : keyOf r' = k).trans hk.symm⟩)
      rw [List.filter_cons_of_pos (by simpa using hk), hrest, List.find?_cons_of_pos (by simpa using hk)]
      rfl
    · rw [List.filter_cons_of_neg (by simpa using hk), ih hnodup.2, List.find?_cons_of_neg (by simpa using hk)]

/-- What is written has the key of its change. -/
def KeysKept (keyOf : ρ → κ) (seen : κ → Bool) (built : ν → ρ) (rows : List ρ) (changes : List (Change κ ν)) : Prop :=
  ∀ c ∈ changes, ∀ v, (c.inserted = some v ∨ c.updated = some v ∧ seen c.key = true ∧ c.key ∈ rows.map keyOf) →
    keyOf (built v) = c.key

theorem filter_map_filterMap {p : Change κ ν → Bool} {f : Change κ ν → Option ν}
    (hkeys : ∀ c ∈ changes, ∀ v, p c = true → f c = some v → keyOf (built v) = c.key) (k : κ) :
    (((changes.filter p).filterMap f).map built).filter (keyOf · = k) =
      (((changes.filter (·.key = k)).filter p).filterMap f).map built := by
  induction changes with
  | nil => rfl
  | cons c changes ih =>
    have hrest := ih fun c hc => hkeys c (List.mem_cons_of_mem _ hc)
    have hkey := hkeys c List.mem_cons_self
    cases hp : p c with
    | false => by_cases hk : c.key = k <;> simp [hp, hk, hrest]
    | true =>
      cases hf : f c with
      | none => by_cases hk : c.key = k <;> simp [hp, hf, hk, hrest]
      | some v =>
        have hv := hkey v hp hf
        by_cases hk : c.key = k <;> simp [hp, hf, hk, hv, hrest]

theorem filter_bulk (hkeys : KeysKept keyOf seen built rows changes) (hrow : rows.filter (keyOf · = k) = r.toList) :
    (bulk keyOf seen built rows changes).filter (keyOf · = k) =
      rowBulk built r (seen k) (changes.filter (·.key = k)) := by
  have hmem : ∀ r' ∈ rows, keyOf r' = k → r.isSome = true := by
    intro r' hr' hk
    have hr' : r' ∈ rows.filter (keyOf · = k) := List.mem_filter.mpr ⟨hr', by simpa using hk⟩
    rw [hrow, Option.mem_toList] at hr'
    rw [hr']
    rfl
  have hpresent : k ∈ rows.map keyOf ↔ r.isSome = true := by
    refine ⟨fun h => ?_, fun h => ?_⟩
    · obtain ⟨r', hr', hk⟩ := List.mem_map.mp h
      exact hmem r' hr' hk
    · obtain ⟨r', rfl⟩ := Option.isSome_iff_exists.mp h
      have hr' : r' ∈ rows.filter (keyOf · = k) := by
        rw [hrow]
        exact List.mem_singleton_self r'
      obtain ⟨hr', hk⟩ := List.mem_filter.mp hr'
      exact List.mem_map.mpr ⟨r', hr', by simpa using hk⟩
  rw [bulk, List.filter_append, rowBulk, writtenValues, foundUpdates, List.map_append, List.filter_append]
  congr 1
  · -- The rows of one key are kept or dropped together.
    have hkept :
      (rows.filter fun r' => ¬∃ c ∈ changes, c.removes = true ∧ c.key = keyOf r' ∧ seen (keyOf r') = true).filter
        (keyOf · = k) = (rows.filter (keyOf · = k)).filter
          fun _ => !(seen k && (changes.filter (·.key = k)).any Change.removes) := by
      rw [List.filter_filter, List.filter_filter]
      refine List.filter_congr fun r' _ => ?_
      by_cases hk : keyOf r' = k
      · have hiff : (¬∃ c ∈ changes, c.removes = true ∧ c.key = k ∧ seen k = true) ↔
            (!(seen k && (changes.filter (·.key = k)).any Change.removes)) = true := by
          simp only [Bool.not_eq_true', ← Bool.not_eq_true, Bool.and_eq_true, List.any_eq_true, List.mem_filter,
            decide_eq_true_eq]
          refine not_congr ⟨fun ⟨c, hc, hremoves, hkey, hseen⟩ => ⟨hseen, c, ⟨hc, hkey⟩, hremoves⟩,
            fun ⟨hseen, c, ⟨hc, hkey⟩, hremoves⟩ => ⟨c, hc, hremoves, hkey, hseen⟩⟩
        simp only [hk, hiff, decide_true, Bool.true_and, Bool.and_true, Bool.decide_eq_true]
      · simp [hk]
    rw [hkept, hrow]
    cases seen k && (changes.filter (·.key = k)).any Change.removes <;> simp
  · rw [List.map_append]
    congr 1
    · rw [filter_map_filterMap (fun c hc v hp hv => ?_)]
      · congr 1
        have hsame : ∀ c ∈ changes.filter (·.key = k),
            decide (seen c.key = true ∧ c.key ∈ rows.map keyOf) = (seen k && r.isSome) := by
          intro c hc
          have hk : c.key = k := by simpa using (List.mem_filter.mp hc).2
          simp only [hk, hpresent]
          cases seen k <;> cases r.isSome <;> rfl
        rw [List.filter_congr hsame]
        cases seen k && r.isSome <;> simp
      · simp only [decide_eq_true_eq] at hp
        exact hkeys c hc v (.inr ⟨hv, hp⟩)
    · have hinserted := filter_map_filterMap (p := fun _ => true) (f := Change.inserted)
        (fun c hc v _ hv => hkeys c hc v (.inl hv)) k
      simpa only [List.filter_true] using hinserted

theorem keyOf_of_possible (hpossible : Possible keyOf row rows changes) (hc : c ∈ changes) {v : ν}
    (hv : c.inserted = some v ∨ c.updated = some v) : keyOf (row v) = c.key := by
  induction changes generalizing rows with
  | nil => cases hc
  | cons c' changes ih =>
    rcases List.mem_cons.mp hc with rfl | hc
    · cases c with
      | insert k v' =>
        obtain rfl : v' = v := by simpa [Change.inserted, Change.updated] using hv
        exact hpossible.1.2
      | update k v' =>
        obtain rfl : v' = v := by simpa [Change.inserted, Change.updated] using hv
        exact hpossible.1.2
      | delete k => rcases hv with hv | hv <;> cases hv
    · exact ih hpossible.2 hc

theorem exists_keyOf (hpossible : Possible keyOf row rows changes) (hc : c ∈ changes) : ∃ r, keyOf r = c.key := by
  induction changes generalizing rows with
  | nil => cases hc
  | cons c' changes ih =>
    rcases List.mem_cons.mp hc with rfl | hc
    · cases c with
      | insert k v => exact ⟨row v, hpossible.1.2⟩
      | update k v => exact ⟨row v, hpossible.1.2⟩
      | delete k =>
        obtain ⟨r, -, hr⟩ := List.mem_map.mp hpossible.1
        exact ⟨r, hr⟩
    · exact ih hpossible.2 hc

theorem mem_replay {r : ρ} (h : r ∈ replay keyOf row rows changes) :
    r ∈ rows ∨ ∃ c ∈ changes, ∃ v, (c.inserted = some v ∨ c.updated = some v) ∧ row v = r := by
  induction changes generalizing rows with
  | nil => exact .inl h
  | cons c changes ih =>
    rcases ih (show r ∈ replay keyOf row (replayStep keyOf row rows c) changes from h) with hr | ⟨c', hc', hv⟩
    · cases c with
      | insert k v =>
        rcases List.mem_append.mp hr with hr | hr
        · exact .inl hr
        · exact .inr ⟨_, List.mem_cons_self, v, .inl rfl, (List.mem_singleton.mp hr).symm⟩
      | update k v =>
        obtain ⟨r', hr', rfl⟩ := List.mem_map.mp hr
        split
        · exact .inr ⟨_, List.mem_cons_self, v, .inr rfl, rfl⟩
        · exact .inl hr'
      | delete k => exact .inl (List.mem_filter.mp hr).1
    · exact .inr ⟨c', List.mem_cons_of_mem _ hc', hv⟩

theorem nodup_replay (hnodup : (rows.map keyOf).Nodup) (hpossible : Possible keyOf row rows changes) :
    ((replay keyOf row rows changes).map keyOf).Nodup := by
  rw [List.nodup_iff_count_le_one]
  intro k
  have hcount : ((replay keyOf row rows changes).map keyOf).count k =
      ((replay keyOf row rows changes).filter (keyOf · = k)).length := by
    rw [List.count_eq_countP, List.countP_map, List.countP_eq_length_filter]
    congr 1
  rw [hcount, (filter_replay hpossible (filter_of_nodup hnodup k)).1]
  cases rowReplay row (rows.find? (keyOf · = k)) (changes.filter (·.key = k)) <;> simp

theorem foundUpdates_cons : foundUpdates keyOf seen rows (c :: changes) =
    foundUpdates keyOf seen rows [c] ++ foundUpdates keyOf seen rows changes := by
  rw [← List.singleton_append, foundUpdates, List.filter_append, List.filterMap_append]
  rfl

theorem foundUpdates_of_none (h : c.updated = none) : foundUpdates keyOf seen rows [c] = [] := by
  rw [foundUpdates, List.filterMap_eq_nil_iff]
  intro c' hc'
  rw [List.mem_singleton.mp (List.mem_filter.mp hc').1, h]

theorem foundUpdates_update {v : ν} : foundUpdates keyOf seen rows [.update k v] =
    if seen k = true ∧ k ∈ rows.map keyOf then [v] else [] := by
  by_cases h : seen k = true ∧ k ∈ rows.map keyOf
  · rw [foundUpdates, if_pos h, List.filter_cons_of_pos (by simpa [Change.key] using h)]
    rfl
  · rw [foundUpdates, if_neg h, List.filter_cons_of_neg (by simpa [Change.key] using h)]
    rfl

theorem mem_writtenValues (hc : c ∈ changes) {v : ν}
    (hv : c.inserted = some v ∨ c.updated = some v ∧ seen c.key = true ∧ c.key ∈ rows.map keyOf) :
    v ∈ writtenValues keyOf seen rows changes := by
  rcases hv with hv | ⟨hv, hfound⟩
  · exact List.mem_append_right _ (List.mem_filterMap.mpr ⟨c, hc, hv⟩)
  · exact List.mem_append_left _ (List.mem_filterMap.mpr ⟨c, List.mem_filter.mpr ⟨hc, by simpa using hfound⟩, hv⟩)

omit [DecidableEq κ] in
theorem rowReplay_updates (hupdates : ∀ c ∈ changes, c.IsUpdate) (v : ν) :
    ∃ w, rowReplay row (some (row v)) changes = some (row w) ∧ (w = v ∨ ∃ c ∈ changes, c.updated = some w) := by
  induction changes generalizing v with
  | nil => exact ⟨v, rfl, .inl rfl⟩
  | cons c changes ih =>
    obtain ⟨k, v', rfl⟩ := hupdates c List.mem_cons_self
    obtain ⟨w, hw, hfrom⟩ := ih (fun c hc => hupdates c (List.mem_cons_of_mem _ hc)) v'
    refine ⟨w, hw, .inr ?_⟩
    rcases hfrom with rfl | ⟨c, hc, hcw⟩
    · exact ⟨_, List.mem_cons_self, rfl⟩
    · exact ⟨c, List.mem_cons_of_mem _ hc, hcw⟩

/-- Where both ways agree, what is written has its key. -/
theorem keysKept_of_agrees (hpossible : Possible keyOf row rows changes)
    (h : ∀ k, RowAgrees row built (rows.find? (keyOf · = k)) (seen k) (changes.filter (·.key = k))) :
    KeysKept keyOf seen built rows changes := by
  intro c hc v hwritten
  have hkey : keyOf (row v) = c.key := keyOf_of_possible hpossible hc (hwritten.imp_right And.left)
  have hmem : c ∈ changes.filter (·.key = c.key) := List.mem_filter.mpr ⟨hc, by simp⟩
  have hagrees := h c.key
  cases hr : rows.find? (keyOf · = c.key) with
  | none =>
    rw [hr] at hagrees
    rcases hagrees with hnil | ⟨k, v', later, hlater, hupdates, hleft⟩
    · rw [hnil] at hmem
      cases hmem
    · rcases hwritten with hv | ⟨-, -, hpresent⟩
      · rw [hlater] at hmem
        rcases List.mem_cons.mp hmem with hfirst | hmem
        · obtain rfl : v' = v := by simpa [hfirst, Change.inserted] using hv
          obtain ⟨w, hw, hfrom⟩ := rowReplay_updates hupdates v'
          have hbuilt : built v' = row w := Option.some.inj (hleft.symm.trans hw)
          rw [hbuilt]
          rcases hfrom with rfl | ⟨c', hc', hcw⟩
          · exact hkey
          · have hc' : c' ∈ changes.filter (·.key = c.key) := hlater ▸ List.mem_cons_of_mem _ hc'
            obtain ⟨hc', hk⟩ := List.mem_filter.mp hc'
            exact (keyOf_of_possible hpossible hc' (.inr hcw)).trans (by simpa using hk)
        · obtain ⟨k', v'', rfl⟩ := hupdates c hmem
          cases hv
      · obtain ⟨r, hmemr, hk⟩ := List.mem_map.mp hpresent
        exact absurd (by simpa using hk) (List.find?_eq_none.mp hr r hmemr)
  | some r =>
    rw [hr] at hagrees
    cases hs : seen c.key with
    | false =>
      rw [hs] at hagrees
      obtain ⟨k', v', rfl⟩ := hagrees.1 c hmem
      rcases hwritten with hv | ⟨-, hseen, -⟩
      · cases hv
      · rw [hs] at hseen
        cases hseen
    | true =>
      rw [hs] at hagrees
      rcases hagrees with hnil | ⟨k', v', hone, hbuilt⟩ | ⟨k', hone⟩ | ⟨k', k'', v', htwo, hbuilt⟩
      · rw [hnil] at hmem
        cases hmem
      · rw [hone, List.mem_singleton] at hmem
        obtain rfl : v' = v := by simpa [hmem, Change.inserted, Change.updated] using hwritten.imp_right And.left
        rw [hbuilt, hkey]
      · rw [hone, List.mem_singleton] at hmem
        rw [hmem] at hwritten
        rcases hwritten with hv | ⟨hv, -⟩ <;> cases hv
      · rw [htwo] at hmem
        rcases List.mem_pair.mp hmem with hfirst | hsecond
        · rw [hfirst] at hwritten
          rcases hwritten with hv | ⟨hv, -⟩ <;> cases hv
        · obtain rfl : v' = v := by simpa [hsecond, Change.inserted, Change.updated] using hwritten.imp_right And.left
          rw [hbuilt, hkey]

theorem bulk_perm_replay_iff (hnodup : (rows.map keyOf).Nodup) (hpossible : Possible keyOf row rows changes)
    (hkeys : KeysKept keyOf seen built rows changes) :
    (bulk keyOf seen built rows changes).Perm (replay keyOf row rows changes) ↔
      ∀ k, RowAgrees row built (rows.find? (keyOf · = k)) (seen k) (changes.filter (·.key = k)) := by
  have hrow : ∀ k, rows.filter (keyOf · = k) = (rows.find? (keyOf · = k)).toList :=
    fun k => filter_of_nodup hnodup k
  have hagrees : ∀ k, RowAgrees row built (rows.find? (keyOf · = k)) (seen k) (changes.filter (·.key = k)) ↔
      ((bulk keyOf seen built rows changes).filter (keyOf · = k)).Perm
        ((replay keyOf row rows changes).filter (keyOf · = k)) := by
    intro k
    obtain ⟨hreplay, hone⟩ := filter_replay hpossible (hrow k)
    rw [hreplay, filter_bulk hkeys (hrow k), ← rowBulk_iff hone]
    refine ⟨fun h => h ▸ List.Perm.refl _, fun h => ?_⟩
    cases hleft : rowReplay row (rows.find? (keyOf · = k)) (changes.filter (·.key = k)) with
    | none =>
      rw [hleft] at h
      exact h.eq_nil
    | some r =>
      rw [hleft] at h
      exact List.perm_singleton.mp h
  simp only [hagrees]
  exact ⟨fun h k => h.filter _, fun h => perm_of_filter keyOf h⟩

end Replay

end Reiver
