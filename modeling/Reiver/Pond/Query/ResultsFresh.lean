import Reiver.Pond.Query.ResultCache

/-! # No answer older than an invalidation

What a generation counts never changes (`newest_mono`). Every result stored, every generation kept and every generation
that a request holds is at least as new as it has to be (`Current`). -/

namespace Reiver.Pond
namespace QueryCache

variable {config : QueryCacheConfig} {s t : QueryCache}

/-- A generation that a request of the project may be answered from: it is not ahead of Redis and counts every change
    that was invalidated by `since`. -/
def Serves (s : QueryCache) (projectId : Uuid) (since generation : Nat) : Prop :=
  generation ≤ (s.increments projectId).length ∧ since ≤ s.newest projectId generation

/-- Where a call of `get_generation` has a generation, it serves. -/
def Held (s : QueryCache) (projectId : Uuid) (since : Nat) : GenerationCall ⊕ Nat → Prop
  | .inl (.fetched generation) | .inr generation => s.Serves projectId since generation
  | _ => True

def RequestCurrent (config : QueryCacheConfig) (s : QueryCache) (request : QueryRequest) : Prop :=
  match request.phase with
  | .getting call => config.enabled = true ∧ request.since ≤ s.invalidated request.projectId ∧
    s.Held request.projectId request.since (.inl call)
  | .looking gen => s.Serves request.projectId request.since gen
  | .setting _ _ call => config.enabled = true ∧ s.Held request.projectId 0 (.inl call)
  | _ => True

structure Current (config : QueryCacheConfig) (s : QueryCache) : Prop where
  counter : ∀ p, (s.generations.lookup p).getD 0 = (s.increments p).length
  entries : ∀ p gen sql entry, s.entries.lookup (p, gen, sql) = some entry →
    gen ≤ (s.increments p).length ∧ s.newest p gen ≤ entry.version
  memory :
    config.enabled = true → ∀ p gen ts, s.generationCache.lookup p = some (gen, ts) → s.Serves p (s.invalidated p) gen
  syncs : ∀ i sync, s.syncs i = some sync → sync.incremented = true →
    sync.version ≤ s.newest sync.projectId (s.increments sync.projectId).length
  invalidated : config.enabled = true → ∀ p, s.invalidated p ≤ s.newest p (s.increments p).length
  requests : ∀ i request, s.requests i = some request → RequestCurrent config s request
  fresh : s.Fresh

/-! ### What generations count -/

theorem foldr_max_append {increments : List Nat} {version : Nat} :
    (increments ++ [version]).foldr max 0 = max (increments.foldr max 0) version := by
  induction increments with
  | nil => exact (Nat.max_comm _ _)
  | cons v increments ih => rw [List.cons_append, List.foldr_cons, List.foldr_cons, ih, Nat.max_assoc]

/-- What the steps do to the generations of Redis. -/
structure Later (s t : QueryCache) : Prop where
  grown : ∀ p, ∃ more, t.increments p = s.increments p ++ more
  invalidated : ∀ p, s.invalidated p ≤ t.invalidated p

theorem Later.newest (h : s.Later t) {p : Uuid} {gen : Nat} (hgen : gen ≤ (s.increments p).length) :
    t.newest p gen = s.newest p gen := by
  obtain ⟨more, hmore⟩ := h.grown p
  rw [QueryCache.newest, QueryCache.newest, hmore, List.take_append_of_le_length hgen]

theorem Later.length (h : s.Later t) {p : Uuid} : (s.increments p).length ≤ (t.increments p).length := by
  obtain ⟨more, hmore⟩ := h.grown p
  rw [hmore, List.length_append]
  exact Nat.le_add_right _ _

theorem Later.serves (h : s.Later t) {p : Uuid} {since gen : Nat} (hserves : s.Serves p since gen) :
    t.Serves p since gen :=
  ⟨hserves.1.trans h.length, hserves.2.trans (h.newest hserves.1).ge⟩

theorem Later.held (h : s.Later t) {p : Uuid} {since : Nat} {call : GenerationCall ⊕ Nat}
    (hheld : s.Held p since call) :
    t.Held p since call := by
  unfold Held at hheld ⊢
  split at hheld
  · exact h.serves hheld
  · exact h.serves hheld
  · trivial

theorem Later.requestCurrent (h : s.Later t) {request : QueryRequest} (hrequest : RequestCurrent config s request) :
    RequestCurrent config t request := by
  unfold RequestCurrent at hrequest ⊢
  split at hrequest
  · obtain ⟨henabled, hsince, hheld⟩ := hrequest
    exact ⟨henabled, hsince.trans (h.invalidated _), h.held hheld⟩
  · exact h.serves hrequest
  · exact ⟨hrequest.1, h.held hrequest.2⟩
  · trivial

/-! ### Requests -/

theorem Current.setPhase {i : Nat} {request : QueryRequest} {phase : RequestPhase} (h : Current config s)
    (hnew : RequestCurrent config s { request with phase }) : Current config (s.setPhase i request phase) := by
  refine ⟨h.counter, h.entries, h.memory, h.syncs, h.invalidated, fun j r hr => ?_, h.fresh⟩
  have hr : Function.update s.requests i (some { request with phase }) j = some r := hr
  rw [Function.update_apply] at hr
  split_ifs at hr
  · cases hr
    exact hnew
  · exact h.requests j r hr

theorem getGeneration_current {p : Uuid} {call : GenerationCall} (h : Current config s)
    (hheld : s.Held p 0 (.inl call)) (hkeep : ∀ gen, call = .fetched gen → s.invalidated p ≤ s.newest p gen) :
    Current config (s.getGeneration p call).1 := by
  cases call with
  | started =>
    rw [getGeneration]
    split <;> exact h
  | absent => exact h
  | fetched gen =>
    refine ⟨h.counter, h.entries, fun henabled q g ts hq => ?_, h.syncs, h.invalidated, h.requests, h.fresh⟩
    have hkept : (s.generationCache.insert p (gen, s.now)).lookup q = some (g, ts) := hq
    rw [Dict.lookup_insert'] at hkept
    split_ifs at hkept with hqp
    · obtain ⟨rfl, -⟩ := Prod.mk.inj (Option.some.inj hkept)
      subst hqp
      exact ⟨hheld.1, hkeep gen rfl⟩
    · exact h.memory henabled q g ts hkept

theorem getGeneration_held {p : Uuid} {call : GenerationCall} {since : Nat} (h : Current config s)
    (henabled : config.enabled = true) (hsince : since ≤ s.invalidated p)
    (hnewest : since ≤ s.newest p (s.increments p).length) (hheld : s.Held p since (.inl call)) :
    s.Held p since (s.getGeneration p call).2 := by
  cases call with
  | started =>
    rw [getGeneration]
    split
    · next hmemory =>
      obtain ⟨hreached, hcovered⟩ := h.memory henabled _ _ _ hmemory
      dsimp only
      split_ifs
      · exact ⟨hreached, hsince.trans hcovered⟩
      · trivial
    · trivial
  | absent =>
    have hcurrent : (s.generations.lookup p).getD 0 = (s.increments p).length := h.counter p
    exact ⟨hcurrent.le, hcurrent ▸ hnewest⟩
  | fetched gen => exact hheld

theorem Later.refl : s.Later s := ⟨fun _ => ⟨[], (List.append_nil _).symm⟩, fun _ => le_rfl⟩

theorem getGeneration_later {p : Uuid} {call : GenerationCall} : s.Later (s.getGeneration p call).1 := by
  cases call with
  | started =>
    rw [getGeneration]
    split <;> exact .refl
  | absent => exact .refl
  | fetched gen =>
    have hrefl : s.Later s := .refl
    exact ⟨hrefl.grown, hrefl.invalidated⟩

theorem Serves.weaken {p : Uuid} {since gen : Nat} (h : s.Serves p since gen) : s.Serves p 0 gen :=
  ⟨h.1, Nat.zero_le _⟩

theorem Held.weaken {p : Uuid} {since : Nat} {call : GenerationCall ⊕ Nat} (h : s.Held p since call) :
    s.Held p 0 call := by
  unfold Held at h ⊢
  split at h
  · exact h.weaken
  · exact h.weaken
  · trivial

theorem current_generation {i : Nat} {request : QueryRequest} (h : Current config s)
    (hi : s.requests i = some request) (horderly : s.Orderly (.generation i))
    (hstep : s.stepRequest config i request (.generation i) = some t) : Current config t := by
  have hrequest := h.requests i request hi
  have hkeep := horderly request hi
  rw [stepRequest] at hstep
  unfold RequestCurrent at hrequest
  split at hstep
  · next call hphase =>
    rw [hphase] at hrequest hkeep
    obtain ⟨henabled, hsince, hheld⟩ := hrequest
    have hheld' := getGeneration_held h henabled hsince (hsince.trans (h.invalidated henabled _)) hheld
    have hs' := getGeneration_current h hheld.weaken fun gen hgen => hkeep gen (by rw [hgen]; rfl)
    have hlater : s.Later (s.getGeneration request.projectId call).1 := getGeneration_later
    cases hstep
    refine hs'.setPhase ?_
    cases hnext : (s.getGeneration request.projectId call).2 with
    | inl next =>
      rw [hnext] at hheld'
      exact ⟨henabled, hsince.trans (hlater.invalidated _), hlater.held hheld'⟩
    | inr gen =>
      rw [hnext] at hheld'
      exact hlater.serves hheld'
  · next version size call hphase =>
    rw [hphase] at hrequest hkeep
    obtain ⟨henabled, hheld⟩ := hrequest
    have hheld' := getGeneration_held h henabled (Nat.zero_le _) (Nat.zero_le _) hheld
    have hs' := getGeneration_current h hheld fun gen hgen => hkeep gen (by rw [hgen]; rfl)
    have hlater : s.Later (s.getGeneration request.projectId call).1 := getGeneration_later
    cases hstep
    refine hs'.setPhase ?_
    cases hnext : (s.getGeneration request.projectId call).2 with
    | inl next =>
      rw [hnext] at hheld'
      exact ⟨henabled, hlater.held hheld'⟩
    | inr gen =>
      simp only [Sum.elim_inr]
      split_ifs <;> trivial
  · cases hstep

theorem current_lookup {i gen : Nat} {request : QueryRequest} (h : Current config s)
    (hserves : s.Serves request.projectId request.since gen) : Current config (s.lookup i request gen) := by
  rw [lookup]
  split
  · next entry hentry =>
    split_ifs
    · have hs' : Current config (s.setPhase i request .finished) := h.setPhase trivial
      refine ⟨hs'.counter, hs'.entries, hs'.memory, hs'.syncs, hs'.invalidated, hs'.requests, fun a ha => ?_⟩
      rcases List.mem_append.mp ha with ha | ha
      · exact h.fresh a ha
      · cases List.mem_singleton.mp ha
        exact hserves.2.trans (h.entries _ _ _ _ hentry).2
    · exact h.setPhase trivial
  · exact h.setPhase trivial

theorem current_write {i version expectedGen : Nat} {request : QueryRequest} (h : Current config s)
    (horderly : (s.generations.lookup request.projectId).getD 0 = expectedGen →
      s.newest request.projectId expectedGen ≤ version) :
    Current config (s.write config i request version expectedGen) := by
  rw [write]
  dsimp only
  split_ifs with hgen
  · have hs' : Current config (s.setPhase i request .finished) := h.setPhase trivial
    refine ⟨hs'.counter, fun p gen sql entry hp => ?_, hs'.memory, hs'.syncs, hs'.invalidated, hs'.requests, hs'.fresh⟩
    have hp' : (s.entries.insert (request.projectId, (s.generations.lookup request.projectId).getD 0, request.sql)
      ⟨version, s.now + config.ttlSecs * 1000⟩).lookup (p, gen, sql) = some entry := hp
    rw [Dict.lookup_insert'] at hp'
    split_ifs at hp' with hkey
    · simp only [Prod.mk.injEq] at hkey
      obtain ⟨rfl, rfl, -⟩ := hkey
      cases hp'
      refine ⟨(h.counter _).le, ?_⟩
      have hseen := horderly hgen
      rwa [← hgen] at hseen
    · exact h.entries p gen sql entry hp'
  · exact h.setPhase trivial

theorem current_stepRequest {i : Nat} {request : QueryRequest} {action : ResultCacheAction} (h : Current config s)
    (hi : s.requests i = some request)
    (haction : action = .generation i ∨ action = .lookup i ∨ action = .fail i ∨ (∃ size, action = .execute i size) ∨
      (∃ preserialized, action = .set i preserialized) ∨ action = .write i)
    (horderly : s.Orderly action) (hstep : s.stepRequest config i request action = some t) : Current config t := by
  have hrequest := h.requests i request hi
  rcases haction with rfl | rfl | rfl | ⟨size, rfl⟩ | ⟨preserialized, rfl⟩ | rfl
  · exact current_generation h hi horderly hstep
  · simp only [stepRequest] at hstep
    unfold RequestCurrent at hrequest
    split at hstep
    · next gen hphase =>
      rw [hphase] at hrequest
      exact Option.some.inj hstep ▸ current_lookup h hrequest
    · cases hstep
  · simp only [stepRequest] at hstep
    split at hstep
    · exact Option.some.inj hstep ▸ h.setPhase trivial
    · exact Option.some.inj hstep ▸ h.setPhase trivial
    · exact Option.some.inj hstep ▸ h.setPhase trivial
    · exact Option.some.inj hstep ▸ h.setPhase trivial
    · cases hstep
  · simp only [stepRequest] at hstep
    split at hstep
    · exact Option.some.inj hstep ▸ h.setPhase trivial
    · cases hstep
  · simp only [stepRequest] at hstep
    split at hstep
    · rw [set] at hstep
      split_ifs at hstep with hskipped
      · exact Option.some.inj hstep ▸ h.setPhase trivial
      · have henabled : config.enabled = true := by
          cases henabled : config.enabled with
          | true => rfl
          | false => exact absurd (by rw [henabled]; rfl) hskipped
        exact Option.some.inj hstep ▸ h.setPhase ⟨henabled, trivial⟩
    · cases hstep
  · simp only [stepRequest] at hstep
    split at hstep
    · next version expectedGen hphase =>
      refine Option.some.inj hstep ▸ current_write h fun hgen => ?_
      exact horderly request hi (version, expectedGen) (by rw [hphase]; rfl) hgen
    · cases hstep

theorem current_get {i : Nat} {p : Uuid} {sql : String} (h : Current config s) :
    Current config (s.get config i p sql) := by
  refine h.setPhase ?_
  split_ifs with henabled
  · exact ⟨henabled, le_rfl, trivial⟩
  · trivial

/-! ### Syncs -/

theorem current_change {i : Nat} {p : Uuid} (h : Current config s) : Current config (s.change i p) := by
  refine ⟨h.counter, h.entries, h.memory, fun j sync hj hincremented => ?_, h.invalidated, h.requests, h.fresh⟩
  have hj' : Function.update s.syncs i (some { projectId := p, version := s.data p + 1, incremented := false }) j =
    some sync := hj
  rw [Function.update_apply] at hj'
  split_ifs at hj'
  · cases hj'
    cases hincremented
  · exact h.syncs j sync hj' hincremented

theorem later_increment {i : Nat} {sync : ProjectSync} : s.Later (s.increment i sync) := by
  refine ⟨fun p => ?_, fun _ => le_rfl⟩
  rw [increment]
  dsimp only
  rw [Function.update_apply]
  split_ifs with hp
  · exact ⟨[sync.version], hp ▸ rfl⟩
  · exact ⟨[], (List.append_nil _).symm⟩

theorem newest_length {p : Uuid} : s.newest p (s.increments p).length = (s.increments p).foldr max 0 := by
  rw [newest, List.take_length]

theorem newest_increment {i : Nat} {sync : ProjectSync} {p : Uuid} :
    s.newest p (s.increments p).length ≤ (s.increment i sync).newest p ((s.increment i sync).increments p).length ∧
      (p = sync.projectId → sync.version ≤
        (s.increment i sync).newest p ((s.increment i sync).increments p).length) := by
  rw [newest_length, newest_length, increment]
  dsimp only
  rw [Function.update_apply]
  split_ifs with hp
  · rw [foldr_max_append, hp]
    exact ⟨Nat.le_max_left _ _, fun _ => Nat.le_max_right _ _⟩
  · exact ⟨le_rfl, fun heq => absurd heq hp⟩

theorem current_increment {i : Nat} {sync : ProjectSync} (h : Current config s) :
    Current config (s.increment i sync) := by
  have hlater : s.Later (s.increment i sync) := later_increment
  refine ⟨fun p => ?_, fun p gen sql entry hp => ?_,
    fun henabled p gen ts hp => hlater.serves (h.memory henabled p gen ts hp), fun j sync' hj hincremented => ?_,
    fun henabled p => (h.invalidated henabled p).trans newest_increment.1, fun j request hj =>
    hlater.requestCurrent (h.requests j request hj), h.fresh⟩
  · rw [increment]
    dsimp only
    rw [Dict.lookup_insert', Function.update_apply]
    split_ifs with hp
    · rw [List.length_append, ← h.counter]
      rfl
    · exact h.counter p
  · obtain ⟨hreached, hcovered⟩ := h.entries p gen sql entry hp
    exact ⟨hreached.trans hlater.length, (hlater.newest hreached).le.trans hcovered⟩
  · have hj' : Function.update s.syncs i (some { sync with incremented := true }) j = some sync' := hj
    rw [Function.update_apply] at hj'
    split_ifs at hj'
    · cases hj'
      exact newest_increment.2 rfl
    · exact (h.syncs j sync' hj' hincremented).trans newest_increment.1

theorem later_complete {i : Nat} {sync : ProjectSync} : s.Later (s.complete i sync) := by
  refine ⟨fun _ => ⟨[], (List.append_nil _).symm⟩, fun p => ?_⟩
  rw [complete]
  dsimp only
  rw [Function.update_apply]
  split_ifs with hp
  · exact hp ▸ Nat.le_max_left _ _
  · exact le_rfl

theorem syncs_complete {i j : Nat} {sync sync' : ProjectSync} (h : (s.complete i sync).syncs j = some sync') :
    s.syncs j = some sync' := by
  have h' : Function.update s.syncs i none j = some sync' := h
  rw [Function.update_apply] at h'
  split_ifs at h'
  exact h'

theorem current_complete {i : Nat} {sync : ProjectSync} (h : Current config s) (hdisabled : ¬config.enabled = true) :
    Current config (s.complete i sync) :=
  ⟨h.counter, h.entries, fun henabled => absurd henabled hdisabled,
    fun j sync' hj => h.syncs j sync' (syncs_complete hj), fun henabled => absurd henabled hdisabled,
    fun j request hj => later_complete.requestCurrent (h.requests j request hj), h.fresh⟩

theorem current_remove {i : Nat} {sync : ProjectSync} (h : Current config s) (hi : s.syncs i = some sync)
    (hincremented : sync.incremented = true) : Current config (s.remove i sync) := by
  have hcomplete : s.Later (s.complete i sync) := later_complete
  have hlater : s.Later (s.remove i sync) := ⟨hcomplete.grown, hcomplete.invalidated⟩
  have hinvalidated : ∀ p, (s.remove i sync).invalidated p =
      if p = sync.projectId then max (s.invalidated sync.projectId) sync.version else s.invalidated p :=
    fun p => Function.update_apply ..
  have hsyncs : ∀ j sync', (s.remove i sync).syncs j = some sync' → s.syncs j = some sync' :=
    fun j sync' hj => @syncs_complete s i j sync sync' hj
  refine ⟨h.counter, h.entries, fun henabled p gen ts hp => ?_, fun j sync' hj => h.syncs j sync' (hsyncs j sync' hj),
    fun henabled p => ?_, fun j request hj => hlater.requestCurrent (h.requests j request hj), h.fresh⟩
  · have hp' : (s.generationCache.erase sync.projectId).lookup p = some (gen, ts) := hp
    rw [Dict.lookup_erase'] at hp'
    split_ifs at hp' with hother
    have hserves := h.memory henabled p gen ts hp'
    refine ⟨hserves.1, ?_⟩
    rw [hinvalidated, if_neg hother]
    exact hserves.2
  · rw [hinvalidated]
    split_ifs with hp
    · subst hp
      exact max_le (h.invalidated henabled _) (h.syncs i sync hi hincremented)
    · exact h.invalidated henabled p

theorem current_evict {p : Uuid} (h : Current config s) :
    Current config { s with generationCache := s.generationCache.erase p } := by
  refine ⟨h.counter, h.entries, fun henabled q gen ts hq => ?_, h.syncs, h.invalidated, h.requests, h.fresh⟩
  have hq' : (s.generationCache.erase p).lookup q = some (gen, ts) := hq
  rw [Dict.lookup_erase'] at hq'
  split_ifs at hq'
  exact h.memory henabled q gen ts hq'

/-! ### Runs -/

theorem current_step {action : ResultCacheAction} (h : Current config s) (horderly : s.Orderly action)
    (hstep : s.step config action = some t) : Current config t := by
  cases action with
  | wait milliseconds =>
    cases hstep
    exact ⟨h.counter, h.entries, h.memory, h.syncs, h.invalidated, h.requests, h.fresh⟩
  | evict p =>
    cases hstep
    exact current_evict h
  | get i p sql =>
    simp only [step] at hstep
    split_ifs at hstep
    exact Option.some.inj hstep ▸ current_get h
  | change i p =>
    simp only [step] at hstep
    split_ifs at hstep
    exact Option.some.inj hstep ▸ current_change h
  | generation i =>
    obtain ⟨request, hi, hstep⟩ := Option.bind_eq_some_iff.mp hstep
    exact current_stepRequest h hi (.inl rfl) horderly hstep
  | lookup i =>
    obtain ⟨request, hi, hstep⟩ := Option.bind_eq_some_iff.mp hstep
    exact current_stepRequest h hi (.inr (.inl rfl)) horderly hstep
  | fail i =>
    obtain ⟨request, hi, hstep⟩ := Option.bind_eq_some_iff.mp hstep
    exact current_stepRequest h hi (.inr (.inr (.inl rfl))) horderly hstep
  | execute i size =>
    obtain ⟨request, hi, hstep⟩ := Option.bind_eq_some_iff.mp hstep
    exact current_stepRequest h hi (.inr (.inr (.inr (.inl ⟨size, rfl⟩)))) horderly hstep
  | set i preserialized =>
    obtain ⟨request, hi, hstep⟩ := Option.bind_eq_some_iff.mp hstep
    exact current_stepRequest h hi (.inr (.inr (.inr (.inr (.inl ⟨preserialized, rfl⟩))))) horderly hstep
  | write i =>
    obtain ⟨request, hi, hstep⟩ := Option.bind_eq_some_iff.mp hstep
    exact current_stepRequest h hi (.inr (.inr (.inr (.inr (.inr rfl))))) horderly hstep
  | increment i =>
    obtain ⟨sync, hi, hstep⟩ := Option.bind_eq_some_iff.mp hstep
    simp only [stepSync] at hstep
    split_ifs at hstep with hincremented henabled
    · exact Option.some.inj hstep ▸ current_increment h
    · exact Option.some.inj hstep ▸ current_complete h henabled
  | remove i =>
    obtain ⟨sync, hi, hstep⟩ := Option.bind_eq_some_iff.mp hstep
    simp only [stepSync] at hstep
    split_ifs at hstep with hincremented
    exact Option.some.inj hstep ▸ current_remove h hi hincremented

theorem current_start : Current config {} :=
  ⟨fun _ => rfl, fun _ _ _ _ hp => (by cases hp), fun _ _ _ _ hp => (by cases hp), fun _ _ hi => (by cases hi),
    fun _ _ => le_rfl, fun _ _ hi => (by cases hi), fun _ ha => (by cases ha)⟩

/-- No answer is older than an invalidation as long as no result is written under a generation that counts a change
    which its query did not see, and no generation is kept that a completed invalidation has left behind. -/
theorem answers_fresh (config : QueryCacheConfig) (run : List ResultCacheAction)
    (h : Meets (step config) Orderly {} run) : Always (step config) Fresh {} run :=
  (Always.of_step (fun _ _ _ => current_step) current_start h).imp fun _ h => h.fresh

/-- A result that is written in time and served, and one whose write a sync has made void. -/
def servedAndVoid : List ResultCacheAction :=
  [.get 0 7 "q", .generation 0, .generation 0, .generation 0, .lookup 0, .execute 0 5, .set 0 true, .generation 0,
    .write 0, .get 1 7 "q", .generation 1, .lookup 1, .get 2 7 "p", .generation 2, .lookup 2, .execute 2 6, .set 2 true,
    .generation 2, .change 0 7, .increment 0, .write 2, .remove 0, .get 3 7 "q", .generation 3, .generation 3,
    .generation 3, .lookup 3]

theorem answers_fresh_sync :
    Always (step {}) Fresh {} servedAndVoid ∧ (exec (step {}) {} servedAndVoid).map (·.answers) = some [⟨0, 0⟩] :=
  ⟨answers_fresh {} _ (by decide +kernel), by decide +kernel⟩

theorem not_fresh_of_answers {run : List ResultCacheAction} {a : CacheAnswer}
    (hrun : (exec (step config) {} run).map (·.answers) = some [a]) (hold : a.version < a.since) :
    ¬Always (step config) Fresh {} run := by
  intro h
  obtain ⟨t, ht, hanswers⟩ := Option.map_eq_some_iff.mp hrun
  exact Nat.not_le.mpr hold (h.of_exec ht a (hanswers ▸ List.mem_singleton_self a))

/-- A sync completes between the query and the call of `set`, which then reads the new generation; or between the two
    halves of `get_generation`, which then keeps the old one. -/
theorem not_fresh :
    ¬Always (step {}) Fresh {}
      [.get 0 7 "q", .generation 0, .generation 0, .generation 0, .lookup 0, .execute 0 5, .change 0 7, .increment 0,
        .remove 0, .set 0 true, .generation 0, .generation 0, .generation 0, .write 0, .get 1 7 "q", .generation 1,
        .lookup 1] ∧
    ¬Always (step {}) Fresh {}
      [.get 0 7 "q", .generation 0, .generation 0, .get 1 7 "q", .generation 1, .generation 1, .generation 0, .lookup 0,
        .execute 0 5, .set 0 true, .generation 0, .write 0, .change 0 7, .increment 0, .remove 0, .generation 1,
        .get 2 7 "q", .generation 2, .lookup 2] :=
  ⟨not_fresh_of_answers (a := ⟨1, 0⟩) (by decide +kernel) (by decide),
    not_fresh_of_answers (a := ⟨1, 0⟩) (by decide +kernel) (by decide)⟩

end QueryCache
end Reiver.Pond
