import Reiver.Pond.Query.LimiterSteps

/-! # Global capacity

The global permit is taken before the permit of the project, so a caller may hold global capacity while it waits for its
own project. No caller does so exactly if global permits go only to callers for whom their limiter has a permit left
(`capacityKept_iff`). -/

namespace Reiver.Pond

namespace Stage

/-- With a global permit and without one of the project. -/
def waits : Stage → Bool
  | admitted => true
  | _ => false

def executes (stage : Stage) : Bool := stage.holdsGlobal && stage.holdsProject

theorem wants_of_next (stage : Stage) : ∀ after ∈ stage.next, after ≠ some .admitted →
    (after.any waits).toNat + (after.any holdsProject).toNat ≤ stage.waits.toNat + stage.holdsProject.toNat := by
  cases stage <;> decide

theorem queued_of_next (stage : Stage) (h : some admitted ∈ stage.next) : stage = queued := by
  revert h
  cases stage <;> decide

end Stage

namespace QueryLimiter

def waiting (s : QueryLimiter) (limiter : Nat) : Nat := s.count (·.limiter = limiter) Stage.waits

def executing (s : QueryLimiter) : Nat := s.count (fun _ => True) Stage.executes

/-- Who holds a global permit only is about to take a free permit of the project. So where no global permit is left and
    capacity is unused, a caller that goes on is the one to use it. -/
structure CapacityKept (config : QueryLimiterConfig) (s : QueryLimiter) : Prop where
  free : ∀ l, s.waiting l ≤ (s.limiters l).available
  served : s.globalAvailable = 0 → s.executing < config.maxConcurrentGlobal →
    ∃ c ∈ s.callers, c.stage = .admitted ∧ 0 < (s.limiters c.limiter).available

/-- A global permit goes to a caller only if its limiter has more permits than callers that wait for them. -/
def ForFree (s : QueryLimiter) : LimiterAction → Prop
  | .takeGlobal task => ∀ c ∈ s.callerAt task .queued, s.waiting c.limiter < (s.limiters c.limiter).available
  | _ => True

section Capacity
variable {config : QueryLimiterConfig} {s s' : QueryLimiter} {task : Nat} {c : Caller}

def Free (s : QueryLimiter) : Prop := ∀ l, s.waiting l ≤ (s.limiters l).available

theorem count_holdsGlobal (p : Caller → Prop) [DecidablePred p] :
    s.count p Stage.holdsGlobal = s.count p Stage.executes + s.count p Stage.waits :=
  count_add p fun stage => by cases stage <;> rfl

theorem Sound.capacity_iff (h : s.Sound config) : s.CapacityKept config ↔ s.Free := by
  refine ⟨fun hkept => hkept.free, fun hfree => ⟨hfree, fun hnone hunused => ?_⟩⟩
  have hoverall := h.balanced.overall
  rw [hnone, count_holdsGlobal] at hoverall
  have hwaits : 0 < s.count (fun _ => True) Stage.waits := by
    rw [executing] at hunused
    omega
  obtain ⟨c, hc, -, hstage⟩ := Multiset.countP_pos.mp hwaits
  have hadmitted : c.stage = .admitted := by
    cases hc : c.stage with
    | admitted => rfl
    | _ =>
      rw [hc] at hstage
      cases hstage
  have hwaiting : 0 < s.waiting c.limiter := Multiset.countP_pos.mpr ⟨c, hc, rfl, hstage⟩
  exact ⟨c, hc, hadmitted, hwaiting.trans_le (hfree c.limiter)⟩

/-- Of all moves only the one to a global permit makes a caller wait for its project. -/
theorem Free.move_iff (h : s.Free) (hc : s.tasks[task]? = some (.holding c)) {stage : Option Stage}
    {limiter : ProjectLimiter} {globalAvailable : Nat} (hfollows : stage ∈ c.stage.next)
    (hproject : limiter.available + (stage.any Stage.holdsProject).toNat =
      (s.limiters c.limiter).available + c.stage.holdsProject.toNat) :
    (s.move task c stage limiter globalAvailable).Free ↔
      (stage = some .admitted → s.waiting c.limiter < (s.limiters c.limiter).available) := by
  have hcount :=
    fun l => count_move hc stage limiter globalAvailable (p := (·.limiter = l)) (fun _ => Iff.rfl) Stage.waits
  have hothers : ∀ l, c.limiter ≠ l → (s.move task c stage limiter globalAvailable).waiting l ≤
      ((s.move task c stage limiter globalAvailable).limiters l).available := by
    intro l hne
    have hl := hcount l
    have hold := h l
    rw [if_neg hne, if_neg hne] at hl
    rw [limiters_move, if_neg hne]
    exact hl.trans_le hold
  have hown := hcount c.limiter
  rw [if_pos rfl, if_pos rfl] at hown
  have hold := h c.limiter
  have hmoved : (s.move task c stage limiter globalAvailable).Free ↔
      (s.move task c stage limiter globalAvailable).waiting c.limiter ≤ limiter.available := by
    constructor
    · intro hfree
      have hl := hfree c.limiter
      rwa [limiters_move, if_pos rfl] at hl
    · intro hl l
      by_cases hne : c.limiter = l
      · rw [← hne, limiters_move, if_pos rfl]
        exact hl
      · exact hothers l hne
  rw [hmoved]
  by_cases hadmitted : stage = some .admitted
  · subst hadmitted
    have hqueued := c.stage.queued_of_next hfollows
    rw [hqueued] at hown hproject
    have hwaits :
      (s.move task c (some .admitted) limiter globalAvailable).waiting c.limiter = s.waiting c.limiter + 1 :=
      hown
    have havailable : limiter.available = (s.limiters c.limiter).available := hproject
    rw [hwaits, havailable]
    exact ⟨fun h _ => h, fun h => h rfl⟩
  · have hwants := c.stage.wants_of_next stage hfollows hadmitted
    refine iff_of_true ?_ fun heq => absurd heq hadmitted
    rw [waiting] at hold ⊢
    omega

theorem Free.of_count (h : s.Free) (hbalanced : s.Balanced config) (hbalanced' : s'.Balanced config)
    (hcount : ∀ l stages, stages .found = false → s'.count (·.limiter = l) stages = s.count (·.limiter = l) stages) :
    s'.Free := by
  intro l
  have hwaiting := hcount l Stage.waits rfl
  have hheld := hcount l Stage.holdsProject rfl
  have hproject := hbalanced.project l
  have hproject' := hbalanced'.project l
  have hold := h l
  rw [waiting] at hold ⊢
  omega

theorem Free.step (h : s.Free) (hbalanced : s.Balanced config) (hbalanced' : s'.Balanced config) {a : LimiterAction}
    (ht : Transition config s s' a) (hglobal : ∀ task, a ≠ .takeGlobal task) : s'.Free := by
  cases ht with
  | rest callers => exact h.of_count hbalanced hbalanced' fun l stages _ => count_congr callers
  | find c callers stage =>
    exact h.of_count hbalanced hbalanced' fun l stages hfound => count_cons callers (stage ▸ hfound)
  | create c callers stage =>
    exact h.of_count hbalanced hbalanced' fun l stages hfound => count_cons callers (stage ▸ hfound)
  | move task c stage limiter globalAvailable eq caller queue project overall bounded maxQueue follows guards admits =>
    rw [eq, h.move_iff caller follows project]
    exact fun heq => (admits heq).elim fun task ha => absurd ha (hglobal task)

theorem capacityKept_step {a : LimiterAction} (h : s.Sound config) (hkept : s.CapacityKept config)
    (hs : s.step config a = some s') : s'.CapacityKept config ↔ s.ForFree a := by
  have hfree : s.Free := hkept.free
  have ht := step_cases h.balanced hs
  rw [(h.step hs).capacity_iff]
  cases a with
  | takeGlobal task =>
    obtain ⟨c, hc, hs⟩ := Option.bind_eq_some_iff.mp hs
    obtain ⟨hcaller, hstage⟩ := tasks_of_callerAt hc
    rw [takeGlobal] at hs
    split_ifs at hs
    cases hs
    rw [hfree.move_iff hcaller (hstage ▸ by decide) (hstage ▸ rfl), ForFree, hc]
    simp
  | _ =>
    refine iff_of_true (hfree.step h.balanced (h.step hs).balanced ht ?_) trivial
    intro task' heq
    cases heq

end Capacity

/-- In every run, no waiting caller keeps global capacity from others exactly if global permits only go to callers that
    get a permit of their project. -/
theorem capacityKept_iff (config : QueryLimiterConfig) (run : List LimiterAction) :
    Always (step config) (CapacityKept config) (start config) run ↔ Meets (step config) ForFree (start config) run :=
  have hkept : ∀ s a s', Sound config s → step config s a = some s' → Sound config s' := fun _ _ _ h => h.step
  always_iff_meets_of_inv hkept (fun _ _ _ => capacityKept_step) (sound_start config)
    ((sound_start config).capacity_iff.mpr fun _ => Nat.zero_le _)

/-! ### A second query of a busy project -/

def twoOverall : QueryLimiterConfig := { maxConcurrentPerProject := 1, maxConcurrentGlobal := 2 }

/-- The second query of project 0 takes the last global permit while the first one runs. -/
def secondQueued : List LimiterAction :=
  [.acquire 0, .insert 0, .tryGuard 0, .takeGlobal 0, .takeProject 0, .acquire 0, .tryGuard 1, .takeGlobal 1]

theorem capacity_not_kept : ¬Always (step twoOverall) (CapacityKept twoOverall) (start twoOverall) secondQueued := by
  intro h
  have hrun : (exec (step twoOverall) (start twoOverall) secondQueued).map
      (fun s => (s.waiting 0, (s.limiters 0).available)) = some (1, 0) := by
    decide +kernel
  obtain ⟨s, hs, hcounts⟩ := Option.map_eq_some_iff.mp hrun
  obtain ⟨hwaiting, havailable⟩ := Prod.mk.inj hcounts
  have hfree := (h.of_exec hs).free 0
  rw [hwaiting, havailable] at hfree
  exact absurd hfree (by decide)

end QueryLimiter
end Reiver.Pond
