import Reiver.Lib.Run
import Reiver.Pond.Indexes.SkipIndexCache

/-! # Readers and writers of the skip index cache

Any number of readers get an index, load it from the store on a miss and put it; any number of writers update
the store and then invalidate a table or a project. Every step below is one critical section, so the runs are
the interleavings. An index is known by the store state it was loaded from.

Nothing ties a put to the load before it: the entry carries the generation current at the put, and an
invalidation that falls between load and put finds no entry to remove. A run serves no stale index when no
put inserts an index older than an update whose invalidation has completed (`noStaleGet_of_freshInsert`). -/

namespace Reiver.Pond

/-- The number of updates the store has seen. -/
abbrev StoreState := Nat

/-- What an invalidation is about. -/
inductive Target where
  | table (projectId : Uuid) (tableName : String)
  | project (projectId : Uuid)
deriving DecidableEq

def Target.Covers : Target → Uuid → String → Prop
  | .table p t, p', t' => p' = p ∧ t' = t
  | .project p, p', _ => p' = p

instance : ∀ target p t, Decidable (Target.Covers target p t)
  | .table p t, p', t' => inferInstanceAs (Decidable (p' = p ∧ t' = t))
  | .project p, p', _ => inferInstanceAs (Decidable (p' = p))

def SkipIndexCache.invalidate {α : Type} (c : SkipIndexCache α) : Target → SkipIndexCache α
  | .table p t => c.invalidateTable p t
  | .project p => c.invalidateProject p

/-- Where a reader stands. `since` is the newest update whose invalidation of the table had completed when the
    get started. -/
inductive Reader where
  | idle
  | getting (p : Uuid) (t : String) (generation : Nat) (since : StoreState)
  | missed (p : Uuid) (t : String)
  | loaded (p : Uuid) (t : String) (index : StoreState)
  | tagged (p : Uuid) (t : String) (index : StoreState) (generation : Nat)
  | putting (p : Uuid) (t : String) (entry : CachedIndex StoreState)
  | evicting
  | returned (p : Uuid) (t : String) (index since : StoreState)

inductive Writer where
  | idle
  | updated (target : Target) (update : StoreState)

structure CacheSystem where
  cache : SkipIndexCache StoreState
  clock : Nat
  store : StoreState
  /-- The newest update whose invalidation of the table has completed. -/
  floor : Uuid → String → StoreState
  readers : Nat → Reader
  writers : Nat → Writer

inductive CacheAction where
  | beginGet (r : Nat) (p : Uuid) (t : String)
  | finishGet (r : Nat)
  | load (r : Nat)
  | loadGeneration (r : Nat)
  | newEntry (r size : Nat)
  | insert (r : Nat)
  | evict (r : Nat) (p : Uuid) (t : String) (size : Nat)
  | evictProject (r : Nat) (p : Uuid)
  | finish (r : Nat)
  | update (w : Nat) (target : Target)
  | invalidate (w : Nat)
  | tick (nanos : Nat)

namespace CacheSystem

def init : CacheSystem :=
  { cache := .new, clock := 0, store := 0, floor := fun _ _ => 0, readers := fun _ => .idle, writers := fun _ => .idle }

def setReader (s : CacheSystem) (r : Nat) (v : Reader) : CacheSystem :=
  { s with readers := Function.update s.readers r v }

def step (cfg : SkipIndexCacheConfig) (s : CacheSystem) : CacheAction → Option CacheSystem
  | .beginGet r p t =>
    match s.readers r with
    | .idle => some (s.setReader r (.getting p t s.cache.generation (s.floor p t)))
    | _ => none
  | .finishGet r =>
    match s.readers r with
    | .getting p t generation since =>
      match s.cache.getWith cfg generation s.clock p t with
      | some index => some (s.setReader r (.returned p t index since))
      | none => some (s.setReader r (.missed p t))
    | _ => none
  | .load r =>
    match s.readers r with
    | .missed p t => some (s.setReader r (.loaded p t s.store))
    | _ => none
  | .loadGeneration r =>
    match s.readers r with
    | .loaded p t index => some (s.setReader r (.tagged p t index s.cache.generation))
    | _ => none
  | .newEntry r size =>
    match s.readers r with
    | .tagged p t index generation => some (s.setReader r (.putting p t (.new s.clock index generation size)))
    | _ => none
  | .insert r =>
    match s.readers r with
    | .putting p t entry =>
      some { s.setReader r .evicting with cache := s.cache.insertEntry s.clock p t entry }
    | _ => none
  -- Eviction runs concurrently with everything else; which entries it takes is left open.
  | .evict r p t size =>
    match s.readers r with
    | .evicting => some { s with cache := s.cache.evictEntry p t size }
    | _ => none
  | .evictProject r p =>
    match s.readers r with
    | .evicting => some { s with cache := s.cache.evictProject p }
    | _ => none
  | .finish r =>
    match s.readers r with
    | .evicting | .returned .. => some (s.setReader r .idle)
    | _ => none
  | .update w target =>
    match s.writers w with
    | .idle =>
      some { s with store := s.store + 1, writers := Function.update s.writers w (.updated target (s.store + 1)) }
    | _ => none
  | .invalidate w =>
    match s.writers w with
    | .updated target update =>
      some { s with
        cache := s.cache.invalidate target
        floor := fun p t => if target.Covers p t then max (s.floor p t) update else s.floor p t
        writers := Function.update s.writers w .idle }
    | _ => none
  | .tick nanos => some { s with clock := s.clock + nanos }

/-- No get that returned served an index older than an update whose invalidation had completed before it. -/
def NoStaleGet (s : CacheSystem) : Prop :=
  ∀ r p t index since, s.readers r = .returned p t index since → since ≤ index

def inserting (s : CacheSystem) : CacheAction → Option (Uuid × String × CachedIndex StoreState)
  | .insert r =>
    match s.readers r with
    | .putting p t entry => some (p, t, entry)
    | _ => none
  | _ => none

/-- A put inserts no index older than an update whose invalidation of the table has completed. -/
def FreshInsert (s : CacheSystem) (a : CacheAction) : Prop :=
  ∀ x ∈ s.inserting a, s.floor x.1 x.2.1 ≤ x.2.2.index

instance (s : CacheSystem) (a : CacheAction) : Decidable (s.FreshInsert a) :=
  inferInstanceAs (Decidable (∀ x ∈ s.inserting a, s.floor x.1 x.2.1 ≤ x.2.2.index))

/-! ### Fresh entries -/

/-- What a reader has seen is no older than its floor. -/
def ReaderFresh (floor : Uuid → String → StoreState) : Reader → Prop
  | .getting p t _ since => since ≤ floor p t
  | .returned _ _ index since => since ≤ index
  | _ => True

structure Fresh (s : CacheSystem) : Prop where
  entries : ∀ p t e, s.cache.entry p t = some e → s.floor p t ≤ e.index
  readers : ∀ r, ReaderFresh s.floor (s.readers r)

theorem Fresh.noStaleGet {s : CacheSystem} (h : Fresh s) : NoStaleGet s := fun r p t index since hr => by
  have := h.readers r
  rwa [hr] at this

theorem fresh_init : Fresh init where
  entries p t e he := by cases he
  readers r := trivial

section Steps
variable {s : CacheSystem} {cfg : SkipIndexCacheConfig}

theorem Fresh.setReader (h : Fresh s) {r : Nat} {v : Reader} (hv : ReaderFresh s.floor v) :
    Fresh (s.setReader r v) where
  entries := h.entries
  readers r' := by
    show ReaderFresh s.floor (Function.update s.readers r v r')
    by_cases hr : r' = r
    · rw [hr, Function.update_self]
      exact hv
    · rw [Function.update_of_ne hr]
      exact h.readers r'

theorem Fresh.setCache (h : Fresh s) {c : SkipIndexCache StoreState}
    (hc : ∀ p t e, c.entry p t = some e → s.cache.entry p t = some e) : Fresh { s with cache := c } where
  entries p t e he := h.entries p t e (hc p t e he)
  readers := h.readers

theorem entry_invalidate {c : SkipIndexCache StoreState} {target : Target} {p : Uuid} {t : String} :
    (c.invalidate target).entry p t = if target.Covers p t then none else c.entry p t := by
  cases target with
  | table p' t' => exact SkipIndexCache.entry_invalidateTable
  | project p' => exact SkipIndexCache.entry_invalidateProject

theorem Fresh.invalidate (h : Fresh s) (target : Target) (update : StoreState) (writers : Nat → Writer) :
    Fresh { s with
      cache := s.cache.invalidate target
      floor := fun p t => if target.Covers p t then max (s.floor p t) update else s.floor p t
      writers } where
  entries p t e he := by
    dsimp only at he ⊢
    rw [entry_invalidate] at he
    split at he
    · cases he
    · next hcov =>
      rw [if_neg hcov]
      exact h.entries p t e he
  readers r := by
    have hr := h.readers r
    dsimp only
    cases hv : s.readers r with
    | getting p t generation since =>
      rw [hv] at hr
      show since ≤ if target.Covers p t then max (s.floor p t) update else s.floor p t
      split
      · exact le_trans hr (le_max_left _ _)
      · exact hr
    | returned p t index since =>
      rw [hv] at hr
      exact hr
    | _ => trivial

theorem entry_of_getWith {c : SkipIndexCache StoreState} {generation now : Nat} {p : Uuid} {t : String}
    {index : StoreState} (h : c.getWith cfg generation now p t = some index) :
    ∃ e, c.entry p t = some e ∧ e.index = index := by
  unfold SkipIndexCache.getWith at h
  split at h
  · next e he =>
    split at h
    · exact ⟨e, he, Option.some.inj h⟩
    · cases h
  · cases h

theorem Fresh.step (h : Fresh s) {a : CacheAction} {s' : CacheSystem} (ha : FreshInsert s a)
    (hs : CacheSystem.step cfg s a = some s') : Fresh s' := by
  cases a <;> simp only [CacheSystem.step] at hs
  case beginGet r p t =>
    split at hs <;> cases hs
    exact h.setReader (le_refl (s.floor p t))
  case finishGet r =>
    split at hs
    · next p t generation since hr =>
      have hsince : since ≤ s.floor p t := by
        have := h.readers r
        rwa [hr] at this
      split at hs <;> cases hs
      · next index hget =>
        obtain ⟨e, he, rfl⟩ := entry_of_getWith hget
        exact h.setReader (le_trans hsince (h.entries p t e he))
      · exact h.setReader trivial
    · cases hs
  case insert r =>
    split at hs <;> cases hs
    next p t entry hr =>
      have hfresh : s.floor p t ≤ entry.index := ha (p, t, entry) (by simp [inserting, hr])
      have hreader : Fresh (s.setReader r .evicting) := h.setReader trivial
      refine ⟨fun p' t' e he => ?_, hreader.readers⟩
      dsimp only at he
      rw [SkipIndexCache.entry_insertEntry] at he
      split at he
      · next hpt =>
        cases Option.some.inj he
        rw [hpt.1, hpt.2]
        exact hfresh
      · exact h.entries p' t' e he
  case evict r p t size =>
    split at hs <;> cases hs
    exact h.setCache fun p' t' e he => SkipIndexCache.entry_evictEntry he
  case evictProject r p =>
    split at hs <;> cases hs
    exact h.setCache fun p' t' e he => SkipIndexCache.entry_evictProject he
  case update w target =>
    split at hs <;> cases hs
    exact ⟨h.entries, h.readers⟩
  case invalidate w =>
    split at hs <;> cases hs
    exact h.invalidate _ _ _
  case tick nanos =>
    cases hs
    exact ⟨h.entries, h.readers⟩
  all_goals
    -- the remaining steps move one reader to where it holds nothing from the cache
    split at hs <;> cases hs <;> exact h.setReader trivial

end Steps

/-! ### Runs -/

/-- In a run whose puts are all fresh, no get serves an index older than an update invalidated before it. -/
theorem noStaleGet_of_freshInsert (cfg : SkipIndexCacheConfig) (run : List CacheAction) (s : CacheSystem)
    (hrun : exec (step cfg) init run = some s) (hfresh : Meets (step cfg) FreshInsert init run) : NoStaleGet s :=
  (invariant_of_step (fun _ _ _ h ha hs => h.step ha hs) fresh_init hfresh hrun).noStaleGet

/-- A reader misses, loads and puts after a writer is done, and the next get is served. -/
def freshRun : List CacheAction :=
  [.update 0 (.table 1 "orders"), .invalidate 0, .beginGet 0 1 "orders", .finishGet 0, .load 0, .loadGeneration 0,
   .newEntry 0 1024, .insert 0, .finish 0, .beginGet 1 1 "orders", .finishGet 1]

theorem freshRun_noStaleGet : ∃ s, exec (step .default) init freshRun = some s ∧ NoStaleGet s :=
  ⟨_, rfl, noStaleGet_of_freshInsert .default freshRun _ rfl (by decide)⟩

/-- A writer updates and invalidates between the load and the put of a reader. -/
def staleRun : List CacheAction :=
  [.beginGet 0 1 "orders", .finishGet 0, .load 0, .update 0 (.table 1 "orders"), .invalidate 0, .loadGeneration 0,
   .newEntry 0 1024, .insert 0, .finish 0, .beginGet 1 1 "orders", .finishGet 1]

/-- The get after the invalidation is served the index loaded before the update. -/
theorem staleRun_serves_stale : ∃ s, exec (step .default) init staleRun = some s ∧
    s.readers 1 = .returned 1 "orders" 0 1 ∧ ¬NoStaleGet s := by
  refine ⟨_, rfl, rfl, fun h => ?_⟩
  exact absurd (h 1 1 "orders" 0 1 rfl) (by decide)

theorem stale_insert_served {cfg : SkipIndexCacheConfig} {s : CacheSystem} {r r' : Nat} {p : Uuid} {t : String}
    {e : CachedIndex StoreState} (hr : s.readers r = .putting p t e) (hidle : s.readers r' = .idle)
    (hlive : e.isExpired s.clock cfg.ttl = false) (hgen : e.isStale s.cache.generation = false)
    (hstale : e.index < s.floor p t) :
    ∃ s', exec (step cfg) s [.insert r, .beginGet r' p t, .finishGet r'] = some s' ∧ ¬NoStaleGet s' := by
  have hne : r' ≠ r := fun h => by
    rw [h, hr] at hidle
    cases hidle
  have hget : (s.cache.insertEntry s.clock p t e).getWith cfg s.cache.generation s.clock p t = some e.index := by
    rw [SkipIndexCache.getWith, SkipIndexCache.entry_insertEntry, if_pos ⟨rfl, rfl⟩]
    simp [hlive, hgen]
  let s₁ : CacheSystem := { s.setReader r .evicting with cache := s.cache.insertEntry s.clock p t e }
  let s₂ := s₁.setReader r' (.getting p t s.cache.generation (s.floor p t))
  let s₃ := s₂.setReader r' (.returned p t e.index (s.floor p t))
  have h₁ : step cfg s (.insert r) = some s₁ := by simp only [step, hr]; rfl
  have hr₁ : s₁.readers r' = .idle := (Function.update_of_ne hne _ _).trans hidle
  have h₂ : step cfg s₁ (.beginGet r' p t) = some s₂ := by simp only [step, hr₁]; rfl
  have hr₂ : s₂.readers r' = .getting p t s.cache.generation (s.floor p t) := Function.update_self ..
  have hget₂ : s₂.cache.getWith cfg s.cache.generation s₂.clock p t = some e.index := hget
  have h₃ : step cfg s₂ (.finishGet r') = some s₃ := by simp only [step, hr₂, hget₂]; rfl
  refine ⟨s₃, ?_, fun h => ?_⟩
  · rw [exec, h₁, Option.bind_some, exec, h₂, Option.bind_some, exec, h₃]
    rfl
  · exact absurd (h r' p t e.index (s.floor p t) (Function.update_self ..)) (Nat.not_le.mpr hstale)

end CacheSystem

end Reiver.Pond
