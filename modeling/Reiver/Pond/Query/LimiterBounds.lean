import Reiver.Pond.Query.LimiterSteps

/-! # Query limits

The bounds of a project hold for the callers at its own limiter. A caller whose limiter was dropped from the map before
it got its guard counts at a limiter that its project no longer has, next to the callers of the new one: the limits hold
throughout a run exactly if no step makes such a caller (`limitsHold_iff`). -/

namespace Reiver.Pond

theorem Stage.counted_of_permits (stage : Stage) (h : stage.permits = true) : stage.counted = true := by
  rw [counted, h, Bool.or_true]

theorem Stage.holdsProject_of_permits (stage : Stage) (h : stage.permits = true) : stage.holdsProject = true := by
  cases stage with
  | running => rfl
  | _ => cases h

theorem Stage.counted_of_next (stage : Stage) : ∀ after ∈ stage.next, after ≠ some .queued →
    after.any Stage.counted = true → stage.counted = true := by
  cases stage <;> decide

namespace QueryLimiter

def liveGuards (s : QueryLimiter) (project : Uuid) : Nat := s.count (·.project = project) Stage.guards

def livePermits (s : QueryLimiter) (project : Uuid) : Nat := s.count (·.project = project) Stage.permits

def queueCounter (s : QueryLimiter) (project : Uuid) : Nat :=
  (s.projectLimiters.lookup project).elim 0 fun l => (s.limiters l).queueSize

structure LimitsHold (config : QueryLimiterConfig) (s : QueryLimiter) : Prop where
  permits : ∀ project, s.livePermits project ≤ config.maxConcurrentPerProject
  queued : ∀ project, s.liveGuards project + s.livePermits project ≤ config.maxQueuePerProject
  counter : ∀ project, s.queueCounter project = s.liveGuards project + s.livePermits project
  noUnderflow : ∀ c ∈ s.callers, c.stage.counted = true → 0 < (s.limiters c.limiter).queueSize

/-- The project whose limiter a cleanup removes next. -/
def removes (s : QueryLimiter) (task : Nat) : Option Uuid :=
  match s.cleanupAt task with
  | some (.removing (project :: _), _) => some project
  | _ => none

/-- A caller that gets its guard finds the limiter of its project still there, and a limiter that is removed because it
    was found idle has nobody in its queue. -/
def OnCurrent (s : QueryLimiter) : LimiterAction → Prop
  | .tryGuard task => ∀ c ∈ s.callerAt task .found,
    (s.limiters c.limiter).queueSize < (s.limiters c.limiter).configMaxQueue →
      s.projectLimiters.lookup c.project = some c.limiter
  | .remove task => ∀ project ∈ s.removes task, s.queueCounter project = 0
  | _ => True

/-- Who is counted is counted at the limiter of the project. -/
def Attached (s : QueryLimiter) : Prop :=
  ∀ c ∈ s.callers, c.stage.counted = true → s.projectLimiters.lookup c.project = some c.limiter

section Limits
variable {config : QueryLimiterConfig} {s s' : QueryLimiter} {task : Nat} {c : Caller}

theorem count_counted (p : Caller → Prop) [DecidablePred p] :
    s.count p Stage.counted = s.count p Stage.guards + s.count p Stage.permits :=
  count_add p fun stage => by cases stage <;> rfl

theorem Sound.attached (h : s.Sound config) (hlimits : s.LimitsHold config) : s.Attached := by
  intro c hc hcounted
  have hcounter := hlimits.counter c.project
  have hpos : 0 < s.count (·.project = c.project) Stage.counted := Multiset.countP_pos.mpr ⟨c, hc, rfl, hcounted⟩
  rw [liveGuards, livePermits, ← count_counted, queueCounter] at hcounter
  cases hlookup : s.projectLimiters.lookup c.project with
  | none =>
    rw [hlookup, Option.elim_none] at hcounter
    omega
  | some l =>
    rw [hlookup, Option.elim_some, h.balanced.queue] at hcounter
    -- The callers that the limiter counts are all those of the project.
    have hl := imp_of_countP_le (fun x hx hxl => ⟨h.placed.owned _ l hlookup x hx hxl.1, hxl.2⟩) hcounter.ge c hc
      ⟨rfl, hcounted⟩
    rw [hl.1]

theorem Attached.count_eq (h : s.Attached) (hplaced : s.Placed) {project : Uuid} {stages : Stage → Bool}
    (hstages : ∀ stage, stages stage = true → stage.counted = true) :
    s.count (·.project = project) stages =
      (s.projectLimiters.lookup project).elim 0 fun l => s.count (·.limiter = l) stages := by
  cases hlookup : s.projectLimiters.lookup project with
  | none =>
    refine Multiset.countP_eq_zero.mpr fun c hc hcp => ?_
    have hown := h c hc (hstages _ hcp.2)
    rw [hcp.1, hlookup] at hown
    cases hown
  | some l =>
    refine countP_iff fun c hc => and_congr_left fun hstage => ⟨fun hp => ?_, hplaced.owned _ l hlookup c hc⟩
    have hown := h c hc (hstages _ hstage)
    rw [hp, hlookup] at hown
    exact (Option.some.inj hown).symm

theorem Sound.limitsHold (h : s.Sound config) (hattached : s.Attached) : s.LimitsHold config := by
  have hcounter : ∀ project, s.queueCounter project = s.liveGuards project + s.livePermits project := by
    intro project
    rw [liveGuards, livePermits, ← count_counted, hattached.count_eq h.placed fun _ h => h, queueCounter]
    exact congrArg _ (funext h.balanced.queue)
  refine ⟨fun project => ?_, fun project => ?_, hcounter, fun c hc hcounted => ?_⟩
  · rw [livePermits, hattached.count_eq h.placed Stage.counted_of_permits]
    cases s.projectLimiters.lookup project with
    | none => exact Nat.zero_le _
    | some l =>
      have hheld : s.count (·.limiter = l) Stage.permits ≤ s.count (·.limiter = l) Stage.holdsProject :=
        countP_mono fun c _ => And.imp_right (Stage.holdsProject_of_permits c.stage)
      have hproject := h.balanced.project l
      exact hheld.trans (by omega)
  · rw [← hcounter, queueCounter]
    cases s.projectLimiters.lookup project with
    | none => exact Nat.zero_le _
    | some l => exact h.balanced.bounded l
  · rw [h.balanced.queue]
    exact Multiset.countP_pos.mpr ⟨c, hc, rfl, hcounted⟩

theorem Sound.limits_iff (h : s.Sound config) : s.LimitsHold config ↔ s.Attached := ⟨h.attached, h.limitsHold⟩

/-! ### Who stays attached -/

theorem Attached.move_iff (h : s.Attached) (hc : s.tasks[task]? = some (.holding c)) {stage : Option Stage}
    {limiter : ProjectLimiter} {globalAvailable : Nat} :
    (s.move task c stage limiter globalAvailable).Attached ↔
      (stage.any Stage.counted = true → s.projectLimiters.lookup c.project = some c.limiter) := by
  obtain ⟨rest, hs, hs'⟩ := callers_move hc stage limiter globalAvailable
  have hrest : ∀ x ∈ rest, x.stage.counted = true → s.projectLimiters.lookup x.project = some x.limiter := by
    intro x hx
    exact h x (hs ▸ Multiset.mem_cons_of_mem hx)
  cases stage with
  | none =>
    refine iff_of_true (fun x hx => hrest x ?_) nofun
    rw [hs'] at hx
    exact hx
  | some stage =>
    rw [Option.elim_some] at hs'
    constructor
    · intro h' hcounted
      exact h' { c with stage } (hs' ▸ Multiset.mem_cons_self ..) hcounted
    · intro hown x hx hcounted
      rcases Multiset.mem_cons.mp (hs' ▸ hx) with rfl | hx
      · exact hown hcounted
      · exact hrest x hx hcounted

theorem Attached.step (h : s.Attached) (hbalanced : s.Balanced config) {a : LimiterAction}
    (ht : Transition config s s' a) (hguard : ∀ task, a ≠ .tryGuard task) (hremove : ∀ task, a ≠ .remove task) :
    s'.Attached := by
  cases ht with
  | rest callers limiters overall next kept idle =>
    intro c hc hcounted
    have hc : c ∈ s.callers := callers ▸ hc
    have hpos : 0 < (s.limiters c.limiter).queueSize := by
      rw [hbalanced.queue]
      exact Multiset.countP_pos.mpr ⟨c, hc, rfl, hcounted⟩
    exact (idle hremove _ _ (h c hc hcounted)).resolve_right hpos.ne'
  | find c callers stage lookup limiters overall next map =>
    intro x hx hcounted
    rw [callers] at hx
    rw [map]
    rcases Multiset.mem_cons.mp hx with rfl | hx
    · exact lookup
    · exact h x hx hcounted
  | create c callers stage lookup limiter limiters overall next map =>
    intro x hx hcounted
    rw [callers] at hx
    rw [map, Dict.lookup_insert']
    rcases Multiset.mem_cons.mp hx with rfl | hx
    · rw [stage] at hcounted
      cases hcounted
    · have hown := h x hx hcounted
      by_cases heq : x.project = c.project
      · rw [heq, lookup] at hown
        cases hown
      · rw [if_neg heq]
        exact hown
  | move task c stage limiter globalAvailable eq caller queue project overall bounded maxQueue follows guards =>
    obtain ⟨rest, hs, -⟩ := callers_move caller stage limiter globalAvailable
    have hnot : stage ≠ some .queued := fun heq => (guards heq).elim hguard
    rw [eq, h.move_iff caller]
    exact fun hcounted => h c (hs ▸ Multiset.mem_cons_self ..) (c.stage.counted_of_next stage follows hnot hcounted)

theorem Attached.erase_iff (h : s.Attached) (hsound : s.Sound config) {project : Uuid}
    (hcallers : s'.callers = s.callers) (hmap : s'.projectLimiters = s.projectLimiters.erase project) :
    s'.Attached ↔ s.queueCounter project = 0 := by
  rw [(hsound.limitsHold h).counter, liveGuards, livePermits, ← count_counted, count, Multiset.countP_eq_zero]
  constructor
  · rintro h' c hc ⟨rfl, hcounted⟩
    have hown := h' c (hcallers ▸ hc) hcounted
    rw [hmap, Dict.lookup_erase', if_pos rfl] at hown
    cases hown
  · intro hnone c hc hcounted
    rw [hcallers] at hc
    rw [hmap, Dict.lookup_erase', if_neg fun heq => hnone c hc ⟨heq, hcounted⟩]
    exact h c hc hcounted

theorem limitsHold_step {a : LimiterAction} (h : s.Sound config) (hlimits : s.LimitsHold config)
    (hs : s.step config a = some s') : s'.LimitsHold config ↔ s.OnCurrent a := by
  have hattached := h.attached hlimits
  have ht := step_cases h.balanced hs
  rw [(h.step hs).limits_iff]
  cases a with
  | tryGuard task =>
    obtain ⟨c, hc, rfl⟩ := Option.map_eq_some_iff.mp hs
    have hcaller := (tasks_of_callerAt hc).1
    have honly : s.OnCurrent (.tryGuard task) ↔
        ((s.limiters c.limiter).queueSize < (s.limiters c.limiter).configMaxQueue →
          s.projectLimiters.lookup c.project = some c.limiter) := by
      rw [OnCurrent, hc]
      simp
    rw [honly, tryGuard]
    split_ifs with hfull
    · rw [hattached.move_iff hcaller]
      refine iff_of_true ?_ fun hroom => absurd hfull (Nat.not_le.mpr hroom)
      intro hcounted
      cases hcounted
    · rw [hattached.move_iff hcaller]
      exact imp_congr_left (iff_of_true rfl (Nat.not_le.mp hfull))
  | remove task =>
    rw [step] at hs
    split at hs
    · next project ids next hc =>
      cases hs
      rw [hattached.erase_iff h (callers_erase hc) rfl, OnCurrent, removes, hc]
      simp
    · next next hc =>
      cases hs
      have hrest : Transition config s (s.setTask task (.resume next)) .cleanupIdle :=
        .of_setTask (tasks_of_cleanupAt hc) rfl (by cases next <;> rfl)
      refine iff_of_true (hattached.step h.balanced hrest ?_ ?_) ?_
      · intro task' heq
        cases heq
      · intro task' heq
        cases heq
      · rw [OnCurrent, removes, hc]
        simp
    · cases hs
  | _ =>
    refine iff_of_true (hattached.step h.balanced ht ?_ ?_) trivial
    · intro task' heq
      cases heq
    · intro task' heq
      cases heq

end Limits

/-- In every run, the limits hold throughout exactly if all its steps keep the counted callers at the limiters of their
    projects. -/
theorem limitsHold_iff (config : QueryLimiterConfig) (run : List LimiterAction) :
    Always (step config) (LimitsHold config) (start config) run ↔ Meets (step config) OnCurrent (start config) run :=
  have hkept : ∀ s a s', Sound config s → step config s a = some s' → Sound config s' := fun _ _ _ h => h.step
  always_iff_meets_of_inv hkept (fun _ _ _ => limitsHold_step) (sound_start config)
    ((sound_start config).limitsHold nofun)

/-! ### A limiter that is dropped too early -/

def oneAtATime : QueryLimiterConfig := { maxConcurrentPerProject := 1, maxCachedProjects := 1 }

/-- The limiter of project 0 is removed between the lookup and the guard of its first query. The second one gets a new
    limiter. -/
def removedBeforeGuard : List LimiterAction :=
  [.acquire 0, .insert 0, .acquire 1, .retain 1 [0], .checkCapacity 1, .insert 1,
    .cleanupIdle, .retain 2 [0, 1], .checkCapacity 2, .collect 2 [0, 1], .select 2, .remove 2, .remove 2,
    .tryGuard 0, .takeGlobal 0, .takeProject 0,
    .acquire 0, .insert 3, .tryGuard 3, .takeGlobal 3, .takeProject 3]

theorem limits_not_held :
    ¬Always (step oneAtATime) (LimitsHold oneAtATime) (start oneAtATime) removedBeforeGuard := by
  intro h
  have hrun : (exec (step oneAtATime) (start oneAtATime) removedBeforeGuard).map (·.livePermits 0) = some 2 := by
    decide +kernel
  obtain ⟨s, hs, hpermits⟩ := Option.map_eq_some_iff.mp hrun
  have hlimit := (h.of_exec hs).permits 0
  rw [hpermits] at hlimit
  exact absurd hlimit (by decide)

end QueryLimiter
end Reiver.Pond
