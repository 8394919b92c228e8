import Reiver.Flow.Gateway.Cache
import Reiver.Lib.Run

/-! # Invalidation of the in-process cache

`GatewayCache` of `cache.rs` with its clock: an entry of the in-process cache expires after the TTL, and a project that
was invalidated carries a marker as long. Every step below is what a call does between two awaits, so calls may wait
for the service while others run, and the service may answer anything. -/

namespace Reiver.Flow

/-- An entry of the in-process cache. The number of the step that inserted it is history. -/
structure L1CacheEntry (α : Type) where
  value : α
  expiresAt : Nat
  inserted : Nat
deriving DecidableEq

/-- The in-process part of the cache. Times are in nanoseconds. -/
structure L1Cache (α : Type) where
  l1Cache : Dict String (L1CacheEntry α) := ∅
  invalidatedProjects : Dict String Nat := ∅

def ttl (ttlSeconds : Nat) : Nat := ttlSeconds * 1000000000

namespace L1Cache
variable {α : Type}

/-- The marker as a lookup meets it: a marker older than the TTL is removed. -/
def checkInvalidated (cache : L1Cache α) (ttlSeconds now : Nat) (projectId : String) : L1Cache α × Bool :=
  match (cache.invalidatedProjects.lookup projectId).map fun marked => decide (now - marked ≤ ttl ttlSeconds) with
  | some true => (cache, true)
  | some false => ({ cache with invalidatedProjects := cache.invalidatedProjects.erase projectId }, false)
  | none => (cache, false)

/-- A lookup up to the request to the service. The clock is read for the marker and, `elapsed` later, for the entry. -/
def get (cache : L1Cache α) (env : GatewayEnv) (ttlSeconds now elapsed : Nat) (projectId : String)
    (request : ChatCompletionRequest) : L1Cache α × Option (L1CacheEntry α) :=
  if env.cacheEnabled then
    let (cache, invalidated) := cache.checkInvalidated ttlSeconds now projectId
    if invalidated then (cache, none)
    else (cache, (cache.l1Cache.lookup (generateCacheKey env projectId request)).filter fun entry =>
      decide (now + elapsed < entry.expiresAt))
  else (cache, none)

/-- What the service found goes to the in-process cache. -/
def fill (cache : L1Cache α) (ttlSeconds now inserted : Nat) (cacheKey : String) (value : α) : L1Cache α :=
  { cache with l1Cache := cache.l1Cache.insert cacheKey ⟨value, now + ttl ttlSeconds, inserted⟩ }

/-- A store up to the request to the service. -/
def set (cache : L1Cache α) (env : GatewayEnv) (ttlSeconds now inserted : Nat) (projectId : String)
    (request : ChatCompletionRequest) (value : α) : L1Cache α :=
  if env.cacheEnabled then
    let cache := { cache with invalidatedProjects := cache.invalidatedProjects.erase projectId }
    cache.fill ttlSeconds now inserted (generateCacheKey env projectId request) value
  else cache

def invalidateProject (cache : L1Cache α) (now : Nat) (projectId : String) : L1Cache α :=
  { cache with invalidatedProjects := cache.invalidatedProjects.insert projectId now }

end L1Cache

/-! ### Calls -/

/-- The cache under its callers. The steps so far and the step of each project's last invalidation are history. -/
structure CacheCalls (α : Type) where
  cache : L1Cache α := {}
  now : Nat := 0
  steps : Nat := 1
  lastInvalidated : String → Nat := fun _ => 0
  /-- The key for which a lookup waits for the service. -/
  waiting : Nat → Option String := fun _ => none

inductive CacheCall (α : Type) where
  | get (c elapsed : Nat) (projectId : String) (request : ChatCompletionRequest)
  | answer (c : Nat) (value : Option α)
  | set (projectId : String) (request : ChatCompletionRequest) (value : α)
  | invalidateProject (projectId : String)
  | evict (cacheKey : String)
  | tick (nanos : Nat)

namespace CacheCalls
variable {α : Type}

def step (env : GatewayEnv) (ttlSeconds : Nat) (s : CacheCalls α) : CacheCall α → Option (CacheCalls α)
  | .get c elapsed projectId request =>
    match s.waiting c with
    | some _ => none
    | none =>
      let looked := s.cache.get env ttlSeconds s.now elapsed projectId request
      let asks := env.cacheEnabled && looked.2.isNone
      some { s with
        cache := looked.1
        now := s.now + elapsed
        steps := s.steps + 1
        waiting := Function.update s.waiting c (if asks then some (generateCacheKey env projectId request) else none) }
  | .answer c value =>
    match s.waiting c with
    | none => none
    | some cacheKey =>
      some { s with
        cache := value.elim s.cache (s.cache.fill ttlSeconds s.now s.steps cacheKey)
        steps := s.steps + 1
        waiting := Function.update s.waiting c none }
  | .set projectId request value =>
    some { s with
      cache := s.cache.set env ttlSeconds s.now s.steps projectId request value
      steps := s.steps + 1 }
  | .invalidateProject projectId =>
    some { s with
      cache := s.cache.invalidateProject s.now projectId
      steps := s.steps + 1
      lastInvalidated := Function.update s.lastInvalidated projectId s.steps }
  | .evict cacheKey =>
    some { s with
      cache := { s.cache with l1Cache := s.cache.l1Cache.erase cacheKey }
      steps := s.steps + 1 }
  | .tick nanos => some { s with now := s.now + nanos, steps := s.steps + 1 }

/-- No lookup for the project would return an entry inserted before its last invalidation. -/
def FinalFor (env : GatewayEnv) (ttlSeconds : Nat) (s : CacheCalls α) (projectId : String) : Prop :=
  ∀ elapsed request, ∀ entry ∈ (s.cache.get env ttlSeconds s.now elapsed projectId request).2,
    s.lastInvalidated projectId < entry.inserted

def Final (env : GatewayEnv) (ttlSeconds : Nat) (s : CacheCalls α) : Prop :=
  ∀ projectId, FinalFor env ttlSeconds s projectId

/-- A store finds no other live entry of its project from before the last invalidation. -/
def NothingOlder (env : GatewayEnv) (s : CacheCalls α) : CacheCall α → Prop
  | .set projectId request _ => env.cacheEnabled → ∀ request' entry,
      generateCacheKey env projectId request' ≠ generateCacheKey env projectId request →
      s.cache.l1Cache.lookup (generateCacheKey env projectId request') = some entry →
      s.now < entry.expiresAt → s.lastInvalidated projectId < entry.inserted
  | _ => True

/-! ### What the steps keep -/

/-- Every entry expires within the TTL, and an entry from before a marker no later than the TTL after it. -/
structure Timed (ttlSeconds : Nat) (s : CacheCalls α) : Prop where
  entries : ∀ cacheKey entry, s.cache.l1Cache.lookup cacheKey = some entry →
    entry.expiresAt ≤ s.now + ttl ttlSeconds ∧ entry.inserted < s.steps
  markers : ∀ projectId marked, s.cache.invalidatedProjects.lookup projectId = some marked → marked ≤ s.now ∧
    ∀ cacheKey entry, s.cache.l1Cache.lookup cacheKey = some entry →
      s.lastInvalidated projectId < entry.inserted ∨ entry.expiresAt ≤ marked + ttl ttlSeconds
  invalidated : ∀ projectId, s.lastInvalidated projectId < s.steps

/-- The project carries no marker, or an expired one. -/
def Unmarked (ttlSeconds : Nat) (s : CacheCalls α) (projectId : String) : Prop :=
  ∀ marked ∈ s.cache.invalidatedProjects.lookup projectId, ttl ttlSeconds < s.now - marked

section Steps
variable {env : GatewayEnv} {ttlSeconds : Nat} {s s' : CacheCalls α} {cache : L1Cache α} {now elapsed : Nat}
  {projectId : String} {request : ChatCompletionRequest}

theorem checkInvalidated_l1Cache :
    (cache.checkInvalidated ttlSeconds now projectId).1.l1Cache = cache.l1Cache := by
  rw [L1Cache.checkInvalidated]
  split <;> rfl

theorem get_l1Cache : (cache.get env ttlSeconds now elapsed projectId request).1.l1Cache = cache.l1Cache := by
  rw [L1Cache.get]
  split
  · dsimp only
    split
    all_goals exact checkInvalidated_l1Cache
  · rfl

theorem checkInvalidated_marker {other : String} {marked : Nat}
    (h : (cache.checkInvalidated ttlSeconds now projectId).1.invalidatedProjects.lookup other = some marked) :
    cache.invalidatedProjects.lookup other = some marked := by
  rw [L1Cache.checkInvalidated] at h
  split at h
  · exact h
  · dsimp only at h
    rw [Dict.lookup_erase'] at h
    split at h
    · cases h
    · exact h
  · exact h

theorem checkInvalidated_lost {other : String} {marked : Nat}
    (h : cache.invalidatedProjects.lookup other = some marked) :
    (cache.checkInvalidated ttlSeconds now projectId).1.invalidatedProjects.lookup other = some marked ∨
      ttl ttlSeconds < now - marked := by
  rw [L1Cache.checkInvalidated]
  split
  · exact .inl h
  · next hold =>
    dsimp only
    rw [Dict.lookup_erase']
    split
    · next heq =>
      rw [← heq, h, Option.map_some, Option.some.injEq, decide_eq_false_iff_not, Nat.not_le] at hold
      exact .inr hold
    · exact .inl h
  · exact .inl h

theorem checkInvalidated_invalidated : (cache.checkInvalidated ttlSeconds now projectId).2 = false ↔
    ∀ marked ∈ cache.invalidatedProjects.lookup projectId, ttl ttlSeconds < now - marked := by
  rw [L1Cache.checkInvalidated]
  cases cache.invalidatedProjects.lookup projectId with
  | none => exact iff_of_true rfl fun _ h => (nomatch h)
  | some marked =>
    rw [Option.map_some]
    by_cases hage : now - marked ≤ ttl ttlSeconds
    · rw [decide_eq_true hage]
      exact iff_of_false Bool.noConfusion fun h => Nat.not_lt.mpr hage (h marked rfl)
    · rw [decide_eq_false hage]
      refine iff_of_true rfl fun other hother => ?_
      cases hother
      exact Nat.not_le.mp hage

theorem finalFor_iff : FinalFor env ttlSeconds s projectId ↔ (env.cacheEnabled → Unmarked ttlSeconds s projectId →
    ∀ request entry, s.cache.l1Cache.lookup (generateCacheKey env projectId request) = some entry →
      s.now < entry.expiresAt → s.lastInvalidated projectId < entry.inserted) := by
  constructor
  · intro h henabled hunmarked request entry hlook hlive
    refine h 0 request entry ?_
    rw [L1Cache.get, if_pos henabled]
    dsimp only
    rw [checkInvalidated_invalidated.mpr hunmarked, if_neg Bool.false_ne_true, checkInvalidated_l1Cache, hlook]
    have hpos : decide (s.now + 0 < entry.expiresAt) = true := decide_eq_true hlive
    show Option.filter (fun entry => decide (s.now + 0 < entry.expiresAt)) (some entry) = some entry
    rw [Option.filter_some, if_pos hpos]
  · intro h elapsed request entry hget
    rw [L1Cache.get] at hget
    split at hget
    · next henabled =>
      dsimp only at hget
      split at hget
      · cases hget
      · next hmarker =>
        rw [checkInvalidated_l1Cache] at hget
        obtain ⟨hlook, hlive⟩ := Option.filter_eq_some_iff.mp hget
        have hlive := of_decide_eq_true hlive
        exact h henabled (checkInvalidated_invalidated.mp (Bool.eq_false_of_not_eq_true hmarker)) request entry hlook
          (Nat.lt_of_le_of_lt (Nat.le_add_right _ _) hlive)
    · cases hget

/-- A step that only lets time pass, drops entries, inserts new ones and takes away expired markers. -/
structure Passes (ttlSeconds : Nat) (s s' : CacheCalls α) (projectId : String) : Prop where
  entries : ∀ cacheKey entry, s'.cache.l1Cache.lookup cacheKey = some entry →
    s.cache.l1Cache.lookup cacheKey = some entry ∨ s.steps = entry.inserted
  now : s.now ≤ s'.now
  marker : ∀ marked, s.cache.invalidatedProjects.lookup projectId = some marked →
    s'.cache.invalidatedProjects.lookup projectId = some marked ∨ ttl ttlSeconds < s.now - marked
  lastInvalidated : s'.lastInvalidated projectId = s.lastInvalidated projectId

theorem FinalFor.passes (htimed : Timed ttlSeconds s) (h : FinalFor env ttlSeconds s projectId)
    (hpasses : Passes ttlSeconds s s' projectId) : FinalFor env ttlSeconds s' projectId := by
  rw [finalFor_iff] at h ⊢
  intro henabled hunmarked request entry hlook hlive
  rw [hpasses.lastInvalidated]
  rcases hpasses.entries _ _ hlook with hold | hnew
  · have hstill := Nat.lt_of_le_of_lt hpasses.now hlive
    by_cases hmarker : Unmarked ttlSeconds s projectId
    · exact h henabled hmarker request entry hold hstill
    · rw [Unmarked, not_forall₂] at hmarker
      obtain ⟨marked, hmarked, hrecent⟩ := hmarker
      -- The marker is still there and has expired since, and with it whatever it hid.
      have hexpired := hunmarked marked ((hpasses.marker marked hmarked).resolve_right hrecent)
      exact ((htimed.markers _ _ hmarked).2 _ _ hold).resolve_right (by omega)
  · exact hnew ▸ htimed.invalidated projectId

theorem fill_entries {cacheKey : String} {inserted : Nat} {value : α} {key : String} {entry : L1CacheEntry α}
    (h : (cache.fill ttlSeconds now inserted cacheKey value).l1Cache.lookup key = some entry) :
    cache.l1Cache.lookup key = some entry ∨ entry.inserted = inserted ∧ entry.expiresAt = now + ttl ttlSeconds := by
  rw [L1Cache.fill] at h
  dsimp only at h
  rw [Dict.lookup_insert'] at h
  split at h
  · cases h
    exact .inr ⟨rfl, rfl⟩
  · exact .inl h

/-- What every step does to entries, markers and the history, whatever it is. -/
structure Advances (ttlSeconds : Nat) (s s' : CacheCalls α) : Prop where
  now : s.now ≤ s'.now
  steps : s'.steps = s.steps + 1
  entries : ∀ cacheKey entry, s'.cache.l1Cache.lookup cacheKey = some entry →
    s.cache.l1Cache.lookup cacheKey = some entry ∨
      entry.inserted = s.steps ∧ entry.expiresAt = s.now + ttl ttlSeconds
  markers : ∀ projectId marked, s'.cache.invalidatedProjects.lookup projectId = some marked →
    s.cache.invalidatedProjects.lookup projectId = some marked ∧
        s'.lastInvalidated projectId = s.lastInvalidated projectId ∨
      marked = s.now ∧ ∀ cacheKey entry, s'.cache.l1Cache.lookup cacheKey = some entry →
        s.cache.l1Cache.lookup cacheKey = some entry
  invalidated : ∀ projectId, s'.lastInvalidated projectId = s.lastInvalidated projectId ∨
    s'.lastInvalidated projectId = s.steps

theorem Timed.advances (h : Timed ttlSeconds s) (ha : Advances ttlSeconds s s') : Timed ttlSeconds s' := by
  have hnow := ha.now
  have hsteps := ha.steps
  refine ⟨fun cacheKey entry hlook => ?_, fun projectId marked hmarked => ?_, fun projectId => ?_⟩
  · rcases ha.entries _ _ hlook with hold | ⟨hinserted, hexpires⟩
    · obtain ⟨hexpires, hinserted⟩ := h.entries _ _ hold
      omega
    · omega
  · rcases ha.markers _ _ hmarked with ⟨hold, hlast⟩ | ⟨hnew, hentries⟩
    · obtain ⟨hpast, hold⟩ := h.markers _ _ hold
      refine ⟨hpast.trans hnow, fun cacheKey entry hlook => ?_⟩
      rw [hlast]
      rcases ha.entries _ _ hlook with hlook | ⟨hinserted, -⟩
      · exact hold _ _ hlook
      · exact .inl (hinserted ▸ h.invalidated projectId)
    · refine ⟨hnew ▸ hnow, fun cacheKey entry hlook => .inr ?_⟩
      rw [hnew]
      exact (h.entries _ _ (hentries _ _ hlook)).1
  · have hlast := h.invalidated projectId
    rcases ha.invalidated projectId with heq | heq
    · omega
    · omega

theorem advances_step {call : CacheCall α} (hstep : step env ttlSeconds s call = some s') :
    Advances ttlSeconds s s' := by
  cases call with
  | get c elapsed projectId request =>
    rw [step] at hstep
    split at hstep
    · cases hstep
    · cases hstep
      refine ⟨Nat.le_add_right _ _, rfl, fun key entry hlook => .inl ?_, fun other marked hmarked => .inl ⟨?_, rfl⟩,
        fun _ => .inl rfl⟩
      · exact get_l1Cache ▸ hlook
      · rw [L1Cache.get] at hmarked
        split at hmarked
        · dsimp only at hmarked
          split at hmarked
          all_goals exact checkInvalidated_marker hmarked
        · exact hmarked
  | answer c value =>
    rw [step] at hstep
    split at hstep
    · cases hstep
    · next cacheKey hwaiting =>
      cases hstep
      cases value with
      | none => exact ⟨Nat.le_refl _, rfl, fun _ _ => .inl, fun _ _ h => .inl ⟨h, rfl⟩, fun _ => .inl rfl⟩
      | some value =>
        refine ⟨Nat.le_refl _, rfl, fun key entry hlook => ?_, fun _ _ h => .inl ⟨h, rfl⟩, fun _ => .inl rfl⟩
        exact fill_entries hlook
  | set projectId request value =>
    cases hstep
    refine ⟨Nat.le_refl _, rfl, fun key entry hlook => ?_, fun other marked hmarked => .inl ⟨?_, rfl⟩,
      fun _ => .inl rfl⟩
    · rw [L1Cache.set] at hlook
      split at hlook
      · exact fill_entries hlook
      · exact .inl hlook
    · rw [L1Cache.set] at hmarked
      split at hmarked
      · dsimp only [L1Cache.fill] at hmarked
        rw [Dict.lookup_erase'] at hmarked
        split at hmarked
        · cases hmarked
        · exact hmarked
      · exact hmarked
  | invalidateProject projectId =>
    cases hstep
    refine ⟨Nat.le_refl _, rfl, fun _ _ => .inl, fun other marked hmarked => ?_, fun other => ?_⟩
    · dsimp only [L1Cache.invalidateProject] at hmarked
      rw [Dict.lookup_insert'] at hmarked
      split at hmarked
      · exact .inr ⟨(Option.some.inj hmarked).symm, fun _ _ h => h⟩
      · next hne => exact .inl ⟨hmarked, Function.update_of_ne hne _ _⟩
    · by_cases heq : other = projectId
      · exact .inr (heq ▸ Function.update_self ..)
      · exact .inl (Function.update_of_ne heq _ _)
  | evict cacheKey =>
    cases hstep
    refine ⟨Nat.le_refl _, rfl, fun key entry hlook => .inl ?_, fun _ _ h => .inl ⟨h, rfl⟩, fun _ => .inl rfl⟩
    dsimp only at hlook
    rw [Dict.lookup_erase'] at hlook
    split at hlook
    · cases hlook
    · exact hlook
  | tick nanos =>
    cases hstep
    exact ⟨Nat.le_add_right _ _, rfl, fun _ _ => .inl, fun _ _ h => .inl ⟨h, rfl⟩, fun _ => .inl rfl⟩

theorem invalidated_unmarked {call : String} (h : s.cache.invalidatedProjects.lookup call = some s.now) :
    ¬Unmarked ttlSeconds s call := fun hunmarked => by
  have hold := hunmarked s.now h
  omega

theorem final_step {call : CacheCall α} (htimed : Timed ttlSeconds s) (h : Final env ttlSeconds s)
    (hstep : step env ttlSeconds s call = some s') : Final env ttlSeconds s' ↔ NothingOlder env s call := by
  have ha := advances_step hstep
  have hentries := fun key entry hlook => (ha.entries key entry hlook).imp_right fun hnew => hnew.1.symm
  cases call with
  | get c elapsed projectId request =>
    rw [step] at hstep
    split at hstep
    · cases hstep
    · cases hstep
      refine iff_of_true
        (fun other => (h other).passes htimed ⟨hentries, ha.now, fun marked hmarked => ?_, rfl⟩) trivial
      dsimp only
      rw [L1Cache.get]
      split
      · dsimp only
        split
        all_goals exact checkInvalidated_lost hmarked
      · exact .inl hmarked
  | answer c value =>
    rw [step] at hstep
    split at hstep
    · cases hstep
    · cases hstep
      refine iff_of_true
        (fun other => (h other).passes htimed ⟨hentries, ha.now, fun marked hmarked => ?_, rfl⟩) trivial
      cases value with
      | none => exact .inl hmarked
      | some value => exact .inl hmarked
  | set projectId request value =>
    cases hstep
    constructor
    · intro hfinal henabled request' entry hne hlook hlive
      refine finalFor_iff.mp (hfinal projectId) henabled (fun marked hmarked => ?_) request' entry ?_ hlive
      · rw [L1Cache.set, if_pos henabled, L1Cache.fill] at hmarked
        dsimp only at hmarked
        rw [AList.lookup_erase] at hmarked
        cases hmarked
      · rw [L1Cache.set, if_pos henabled, L1Cache.fill]
        dsimp only
        rw [AList.lookup_insert_ne hne, hlook]
    · intro hnothing other
      by_cases heq : other = projectId
      · subst heq
        rw [finalFor_iff]
        intro henabled _ request' entry hlook hlive
        rw [L1Cache.set, if_pos henabled, L1Cache.fill] at hlook
        dsimp only at hlook
        rw [Dict.lookup_insert'] at hlook
        split at hlook
        · cases hlook
          exact htimed.invalidated other
        · next hne => exact hnothing henabled request' entry hne hlook hlive
      · refine (h other).passes htimed ⟨hentries, ha.now, fun marked hmarked => .inl ?_, rfl⟩
        rw [L1Cache.set]
        split
        · dsimp only [L1Cache.fill]
          rw [AList.lookup_erase_ne heq, hmarked]
        · exact hmarked
  | invalidateProject projectId =>
    cases hstep
    refine iff_of_true (fun other => ?_) trivial
    by_cases heq : other = projectId
    · subst heq
      rw [finalFor_iff]
      exact fun _ hunmarked => absurd hunmarked (invalidated_unmarked (AList.lookup_insert _))
    · refine (h other).passes htimed ⟨hentries, ha.now, fun marked hmarked => .inl ?_, Function.update_of_ne heq _ _⟩
      exact (AList.lookup_insert_ne heq).trans hmarked
  | evict cacheKey =>
    cases hstep
    exact iff_of_true (fun other => (h other).passes htimed ⟨hentries, ha.now, fun _ => .inl, rfl⟩) trivial
  | tick nanos =>
    cases hstep
    exact iff_of_true (fun other => (h other).passes htimed ⟨hentries, ha.now, fun _ => .inl, rfl⟩) trivial

end Steps

theorem timed_init (ttlSeconds : Nat) : Timed ttlSeconds ({} : CacheCalls α) where
  entries _ _ h := by cases h
  markers _ _ h := by cases h
  invalidated _ := Nat.one_pos

theorem final_init (env : GatewayEnv) (ttlSeconds : Nat) : Final env ttlSeconds ({} : CacheCalls α) := fun _ =>
  finalFor_iff.mpr fun _ _ _ _ h => by cases h

/-- Whatever the calls, an invalidation is final exactly if no store meets another live entry of its project from
    before the project's last invalidation: the store clears the marker that hides it. -/
theorem invalidation_final_iff (env : GatewayEnv) (ttlSeconds : Nat) (calls : List (CacheCall α)) :
    Always (step env ttlSeconds) (Final env ttlSeconds) {} calls ↔
      Meets (step env ttlSeconds) (NothingOlder env) {} calls :=
  always_iff_meets_of_inv (fun _ _ _ htimed hstep => htimed.advances (advances_step hstep))
    (fun _ _ _ htimed h hstep => final_step htimed h hstep) (timed_init ttlSeconds) (final_init env ttlSeconds)

end CacheCalls

/-! ### A store after an invalidation -/

def unhashedEnv : GatewayEnv where
  filters := { toLowercase text := text, redactIfChanged _ := none, detectExfiltrationInText _ := none }
  sha256Hex text := text
  validateAgainstSchema _ _ := .ok ()

def emptyRequest (model : String) : ChatCompletionRequest where
  model := model
  messages := []

/-- The marker that hides the first answer goes when the second one is stored. -/
def storedAfter : List (CacheCall String) :=
  [.set "p" (emptyRequest "a") "old", .invalidateProject "p", .set "p" (emptyRequest "b") "new"]

theorem invalidation_not_final :
    ¬Always (CacheCalls.step unhashedEnv 3600) (CacheCalls.Final unhashedEnv 3600) {} storedAfter := fun h =>
  absurd ((h.of_exec rfl) "p" 0 (emptyRequest "a") ⟨"old", ttl 3600, 1⟩ (by decide)) (by decide)

end Reiver.Flow
