import Reiver.Lib.Holders
import Reiver.Pond.Query.Limiter

/-! # What the steps of the query limiter keep

The semaphores and the queue counters agree with what the callers hold (`Balanced`), and the callers at a limiter of the
map are of its project (`Placed`). A step that is neither a new caller nor a loss of the map is the move of one caller
(`step_cases`). -/

namespace Reiver.Pond

def Stage.next : Stage → List (Option Stage)
  | found => [some queued, none]
  | queued => [some admitted, none]
  | admitted => [some running, some cancelling]
  | running => [some unqueued]
  | unqueued => [some releasing]
  | releasing => [none]
  | cancelling => [none]

/-! ### What the callers hold -/

namespace QueryLimiter

def callers (s : QueryLimiter) : Multiset Caller := held LimiterTask.caller s.tasks

/-- The callers of a kind at some of the stages. -/
def count (s : QueryLimiter) (p : Caller → Prop) [DecidablePred p] (stages : Stage → Bool) : Nat :=
  s.callers.countP fun c => p c ∧ stages c.stage = true

/-- The counters and the semaphores agree with what the callers hold. -/
structure Balanced (config : QueryLimiterConfig) (s : QueryLimiter) : Prop where
  queue : ∀ l, (s.limiters l).queueSize = s.count (·.limiter = l) Stage.counted
  project : ∀ l, (s.limiters l).available + s.count (·.limiter = l) Stage.holdsProject = config.maxConcurrentPerProject
  overall : s.globalAvailable + s.count (fun _ => True) Stage.holdsGlobal = config.maxConcurrentGlobal
  bounded : ∀ l, (s.limiters l).queueSize ≤ config.maxQueuePerProject
  maxQueue : ∀ l, (s.limiters l).configMaxQueue = config.maxQueuePerProject

structure Placed (s : QueryLimiter) : Prop where
  made : ∀ c ∈ s.callers, c.limiter < s.nextLimiter
  mapped : ∀ p l, s.projectLimiters.lookup p = some l → l < s.nextLimiter
  apart : ∀ p p' l, s.projectLimiters.lookup p = some l → s.projectLimiters.lookup p' = some l → p = p'
  owned : ∀ p l, s.projectLimiters.lookup p = some l → ∀ c ∈ s.callers, c.limiter = l → c.project = p

theorem countP_cons_stage {p : Caller → Prop} [DecidablePred p] {stages : Stage → Bool} (c : Caller)
    (rest : Multiset Caller) : (c ::ₘ rest).countP (fun c => p c ∧ stages c.stage = true) =
      rest.countP (fun c => p c ∧ stages c.stage = true) + if p c then (stages c.stage).toNat else 0 := by
  rw [Multiset.countP_cons]
  by_cases hp : p c <;> cases hstage : stages c.stage <;> simp [hp]

theorem count_add {s : QueryLimiter} (p : Caller → Prop) [DecidablePred p] {f g k : Stage → Bool}
    (h : ∀ stage, (f stage).toNat = (g stage).toNat + (k stage).toNat) : s.count p f = s.count p g + s.count p k := by
  rw [count, count, count]
  induction s.callers using Multiset.induction with
  | empty => rfl
  | cons c rest ih =>
    rw [countP_cons_stage, countP_cons_stage, countP_cons_stage, ih, h]
    split_ifs <;> omega

section Moves
variable {config : QueryLimiterConfig} {s : QueryLimiter} {task : Nat} {c : Caller} {stage : Option Stage}
  {limiter : ProjectLimiter} {globalAvailable : Nat}

theorem callers_move (hc : s.tasks[task]? = some (.holding c)) (stage : Option Stage) (limiter : ProjectLimiter)
    (globalAvailable : Nat) : ∃ rest, s.callers = c ::ₘ rest ∧
    (s.move task c stage limiter globalAvailable).callers =
      stage.elim rest fun stage => { c with stage } ::ₘ rest := by
  obtain ⟨rest, hs, hset⟩ := held_set (f := LimiterTask.caller) hc
  refine ⟨rest, hs, (hset _).trans ?_⟩
  cases stage with
  | none => exact zero_add rest
  | some stage => rfl

theorem count_move (hc : s.tasks[task]? = some (.holding c)) (stage : Option Stage) (limiter : ProjectLimiter)
    (globalAvailable : Nat) {p : Caller → Prop} [DecidablePred p] (hp : ∀ stage, p { c with stage } ↔ p c)
    (stages : Stage → Bool) :
    (s.move task c stage limiter globalAvailable).count p stages + (if p c then (stages c.stage).toNat else 0) =
      s.count p stages + if p c then (stage.any stages).toNat else 0 := by
  obtain ⟨rest, hs, hs'⟩ := callers_move hc stage limiter globalAvailable
  rw [count, count, hs, hs', countP_cons_stage]
  cases stage with
  | none => simp
  | some stage =>
    rw [Option.elim_some, countP_cons_stage]
    simp only [hp, Option.any_some]
    omega

theorem limiters_move (l : Nat) : (s.move task c stage limiter globalAvailable).limiters l =
    if c.limiter = l then limiter else s.limiters l := by
  by_cases heq : c.limiter = l
  · rw [if_pos heq, ← heq]
    exact Function.update_self c.limiter limiter s.limiters
  · rw [if_neg heq]
    exact Function.update_of_ne (Ne.symm heq) limiter s.limiters

theorem Balanced.move (h : s.Balanced config) (hc : s.tasks[task]? = some (.holding c))
    (hqueue : limiter.queueSize + c.stage.counted.toNat =
      (s.limiters c.limiter).queueSize + (stage.any Stage.counted).toNat)
    (hproject : limiter.available + (stage.any Stage.holdsProject).toNat =
      (s.limiters c.limiter).available + c.stage.holdsProject.toNat)
    (hoverall : globalAvailable + (stage.any Stage.holdsGlobal).toNat =
      s.globalAvailable + c.stage.holdsGlobal.toNat)
    (hbounded : limiter.queueSize ≤ config.maxQueuePerProject)
    (hmaxQueue : limiter.configMaxQueue = config.maxQueuePerProject) :
    (s.move task c stage limiter globalAvailable).Balanced config := by
  have hcount := fun l => count_move hc stage limiter globalAvailable (p := (·.limiter = l)) fun _ => Iff.rfl
  have htotal := count_move hc stage limiter globalAvailable (p := fun _ => True) (fun _ => Iff.rfl) Stage.holdsGlobal
  refine ⟨fun l => ?_, fun l => ?_, ?_, fun l => ?_, fun l => ?_⟩
  · have hl := hcount l Stage.counted
    have hold := h.queue l
    rw [limiters_move]
    split_ifs at hl ⊢ with heq
    · subst heq
      omega
    · omega
  · have hl := hcount l Stage.holdsProject
    have hold := h.project l
    rw [limiters_move]
    split_ifs at hl ⊢ with heq
    · subst heq
      omega
    · omega
  · have hold := h.overall
    rw [if_pos trivial, if_pos trivial] at htotal
    exact (show globalAvailable + _ = _ by omega)
  · rw [limiters_move]
    split_ifs
    · exact hbounded
    · exact h.bounded l
  · rw [limiters_move]
    split_ifs
    · exact hmaxQueue
    · exact h.maxQueue l

theorem Placed.move (h : s.Placed) (hc : s.tasks[task]? = some (.holding c)) :
    (s.move task c stage limiter globalAvailable).Placed := by
  obtain ⟨rest, hs, hs'⟩ := callers_move hc stage limiter globalAvailable
  have hmem : ∀ x ∈ (s.move task c stage limiter globalAvailable).callers,
      ∃ y ∈ s.callers, y.project = x.project ∧ y.limiter = x.limiter := by
    intro x hx
    rw [hs'] at hx
    rw [hs]
    cases stage with
    | none => exact ⟨x, Multiset.mem_cons_of_mem hx, rfl, rfl⟩
    | some stage =>
      rcases Multiset.mem_cons.mp hx with rfl | hx
      · exact ⟨c, Multiset.mem_cons_self c rest, rfl, rfl⟩
      · exact ⟨x, Multiset.mem_cons_of_mem hx, rfl, rfl⟩
  refine ⟨fun x hx => ?_, h.mapped, h.apart, fun p l hlookup x hx hl => ?_⟩
  · obtain ⟨y, hy, -, hlimiter⟩ := hmem x hx
    exact hlimiter ▸ h.made y hy
  · obtain ⟨y, hy, hproject, hlimiter⟩ := hmem x hx
    exact hproject ▸ h.owned p l hlookup y hy (hlimiter.trans hl)

end Moves

/-! ### What a step can do -/

inductive Transition (config : QueryLimiterConfig) (s s' : QueryLimiter) (a : LimiterAction) : Prop where
  /-- The map may lose limiters. -/
  | rest (callers : s'.callers = s.callers) (limiters : s'.limiters = s.limiters)
      (overall : s'.globalAvailable = s.globalAvailable) (next : s'.nextLimiter = s.nextLimiter)
      (kept : ∀ p l, s'.projectLimiters.lookup p = some l → s.projectLimiters.lookup p = some l)
      (idle : (∀ task, a ≠ .remove task) → ∀ p l, s.projectLimiters.lookup p = some l →
        s'.projectLimiters.lookup p = some l ∨ (s.limiters l).queueSize = 0)
  | find (c : Caller) (callers : s'.callers = c ::ₘ s.callers) (stage : c.stage = .found)
      (lookup : s.projectLimiters.lookup c.project = some c.limiter)
      (limiters : s'.limiters = (s.touch c.limiter).limiters) (overall : s'.globalAvailable = s.globalAvailable)
      (next : s'.nextLimiter = s.nextLimiter) (map : s'.projectLimiters = s.projectLimiters)
  | create (c : Caller) (callers : s'.callers = c ::ₘ s.callers) (stage : c.stage = .found)
      (lookup : s.projectLimiters.lookup c.project = none) (limiter : c.limiter = s.nextLimiter)
      (limiters : s'.limiters = Function.update s.limiters s.nextLimiter
        (ProjectLimiter.new config.maxConcurrentPerProject config.maxQueuePerProject s.now))
      (overall : s'.globalAvailable = s.globalAvailable) (next : s'.nextLimiter = s.nextLimiter + 1)
      (map : s'.projectLimiters = s.projectLimiters.insert c.project s.nextLimiter)
  | move (task : Nat) (c : Caller) (stage : Option Stage) (limiter : ProjectLimiter) (globalAvailable : Nat)
      (eq : s' = s.move task c stage limiter globalAvailable) (caller : s.tasks[task]? = some (.holding c))
      (queue : limiter.queueSize + c.stage.counted.toNat =
        (s.limiters c.limiter).queueSize + (stage.any Stage.counted).toNat)
      (project : limiter.available + (stage.any Stage.holdsProject).toNat =
        (s.limiters c.limiter).available + c.stage.holdsProject.toNat)
      (overall : globalAvailable + (stage.any Stage.holdsGlobal).toNat =
        s.globalAvailable + c.stage.holdsGlobal.toNat)
      (bounded : limiter.queueSize ≤ config.maxQueuePerProject)
      (maxQueue : limiter.configMaxQueue = config.maxQueuePerProject)
      (follows : stage ∈ c.stage.next) (guards : stage = some .queued → ∃ task, a = .tryGuard task)
      (admits : stage = some .admitted → ∃ task, a = .takeGlobal task)

section Steps
variable {config : QueryLimiterConfig} {s s' : QueryLimiter} {task : Nat} {c : Caller} {a : LimiterAction}

theorem tasks_of_callerAt {stage : Stage} (h : s.callerAt task stage = some c) :
    s.tasks[task]? = some (.holding c) ∧ c.stage = stage := by
  obtain ⟨t, ht, hc⟩ := Option.bind_eq_some_iff.mp h
  obtain ⟨hc, hstage⟩ := Option.filter_eq_some_iff.mp hc
  cases t with
  | holding c' =>
    cases hc
    exact ⟨ht, of_decide_eq_true hstage⟩
  | _ => cases hc

theorem tasks_of_caller (h : s.tasks[task]?.bind (·.caller) = some c) : s.tasks[task]? = some (.holding c) := by
  obtain ⟨t, ht, hc⟩ := Option.bind_eq_some_iff.mp h
  cases t with
  | holding c' =>
    cases hc
    exact ht
  | _ => cases hc

theorem tasks_of_cleanupAt {cleanup : Cleanup} {next : Option Uuid} (h : s.cleanupAt task = some (cleanup, next)) :
    s.tasks[task]? = some (.cleaning cleanup next) := by
  obtain ⟨t, ht, hc⟩ := Option.bind_eq_some_iff.mp h
  cases t with
  | cleaning cleanup' next' =>
    cases hc
    exact ht
  | _ => cases hc

theorem callers_setTask {t t' : LimiterTask} (ht : s.tasks[task]? = some t) (hnone : t.caller = none) :
    (s.setTask task t').callers = Multiset.ofList t'.caller.toList + s.callers := by
  obtain ⟨rest, hs, hset⟩ := held_set (f := LimiterTask.caller) ht
  rw [hnone] at hs
  have hrest : s.callers = rest := hs.trans (zero_add rest)
  exact hrest ▸ hset t'

theorem callers_spawn (t : LimiterTask) : (s.spawn t).callers = Multiset.ofList t.caller.toList + s.callers :=
  held_append

theorem Transition.of_setTask {t t' : LimiterTask} (ht : s.tasks[task]? = some t) (hnone : t.caller = none)
    (hnone' : t'.caller = none) : Transition config s (s.setTask task t') a := by
  refine .rest ?_ rfl rfl rfl (fun _ _ h => h) fun _ _ _ h => .inl h
  rw [callers_setTask ht hnone, hnone']
  exact zero_add _

theorem Transition.of_spawn {t : LimiterTask} (hnone : t.caller = none) : Transition config s (s.spawn t) a := by
  refine .rest ?_ rfl rfl rfl (fun _ _ h => h) fun _ _ _ h => .inl h
  rw [callers_spawn, hnone]
  exact zero_add _

theorem Transition.of_insertLimiter {project : Uuid} (ht : s.tasks[task]? = some (.inserting project)) :
    Transition config s (s.insertLimiter config task project) a := by
  rw [insertLimiter]
  cases hlookup : s.projectLimiters.lookup project with
  | some limiter =>
    exact .find { project, limiter, stage := .found } (callers_setTask (s := s.touch limiter) ht rfl) rfl hlookup rfl
      rfl rfl rfl
  | none =>
    exact .create { project, limiter := s.nextLimiter, stage := .found } (callers_setTask ht rfl) rfl hlookup rfl rfl
      rfl rfl rfl

theorem Transition.of_acquire {project : Uuid} : Transition config s (s.acquire config project) a := by
  rw [acquire]
  cases hlookup : s.projectLimiters.lookup project with
  | some limiter =>
    exact .find { project, limiter, stage := .found } (callers_spawn (s := s.touch limiter) _) rfl hlookup rfl rfl rfl
      rfl
  | none =>
    dsimp only
    split_ifs
    · exact .of_spawn rfl
    · exact .of_spawn rfl

theorem queue_pos (h : s.Balanced config) (hc : s.tasks[task]? = some (.holding c))
    (hcounted : c.stage.counted = true) : 0 < (s.limiters c.limiter).queueSize := by
  obtain ⟨rest, hs, -⟩ := held_set (f := LimiterTask.caller) hc
  rw [h.queue, count, Multiset.countP_pos]
  refine ⟨c, ?_, rfl, hcounted⟩
  rw [callers, hs]
  exact Multiset.mem_add.mpr (.inl (List.mem_singleton_self c))

theorem Transition.of_leaveQueue (h : s.Balanced config) (hc : s.tasks[task]? = some (.holding c))
    {stage : Option Stage} (hcounted : c.stage.counted = true) (hleft : stage.any Stage.counted = false)
    (hproject : stage.any Stage.holdsProject = c.stage.holdsProject)
    (hoverall : stage.any Stage.holdsGlobal = c.stage.holdsGlobal) (hfollows : stage ∈ c.stage.next) :
    Transition config s (s.leaveQueue task c stage) a := by
  have hpos := queue_pos h hc hcounted
  have hbounded := h.bounded c.limiter
  have hleave : (s.limiters c.limiter).leave.queueSize = (s.limiters c.limiter).queueSize - 1 := if_neg hpos.ne'
  refine .move task c stage _ _ rfl hc ?_ ?_ ?_ ?_ (h.maxQueue c.limiter) hfollows ?_ ?_
  · rw [hleave, hcounted, hleft, Bool.toNat_true, Bool.toNat_false]
    omega
  · rw [hproject]
    rfl
  · rw [hoverall]
  · omega
  · rintro rfl
    cases hleft
  · rintro rfl
    cases hleft

theorem Transition.of_move {before : Stage} {stage : Option Stage} {limiter : ProjectLimiter} {globalAvailable : Nat}
    (hc : s.tasks[task]? = some (.holding c)) (hstage : c.stage = before)
    (queue : limiter.queueSize + before.counted.toNat =
      (s.limiters c.limiter).queueSize + (stage.any Stage.counted).toNat)
    (project : limiter.available + (stage.any Stage.holdsProject).toNat =
      (s.limiters c.limiter).available + before.holdsProject.toNat)
    (overall : globalAvailable + (stage.any Stage.holdsGlobal).toNat = s.globalAvailable + before.holdsGlobal.toNat)
    (bounded : limiter.queueSize ≤ config.maxQueuePerProject)
    (maxQueue : limiter.configMaxQueue = config.maxQueuePerProject) (follows : stage ∈ before.next)
    (guards : stage = some .queued → ∃ task, a = .tryGuard task)
    (admits : stage = some .admitted → ∃ task, a = .takeGlobal task) :
    Transition config s (s.move task c stage limiter globalAvailable) a := by
  subst hstage
  exact .move task c stage limiter globalAvailable rfl hc queue project overall bounded maxQueue follows guards admits

theorem Transition.of_tryGuard (h : s.Balanced config) (hc : s.callerAt task .found = some c) :
    Transition config s (s.tryGuard task c) (.tryGuard task) := by
  obtain ⟨ht, hstage⟩ := tasks_of_callerAt hc
  have hmax := h.maxQueue c.limiter
  rw [tryGuard]
  split_ifs with hfull
  · exact .of_move ht hstage rfl rfl rfl (h.bounded _) hmax (by decide) nofun nofun
  · have hroom : (s.limiters c.limiter).enter.queueSize ≤ config.maxQueuePerProject :=
      hmax ▸ Nat.succ_le_of_lt (Nat.not_le.mp hfull)
    exact .of_move ht hstage rfl rfl rfl hroom hmax (by decide) (fun _ => ⟨task, rfl⟩) nofun

theorem Transition.of_takeGlobal (h : s.Balanced config) (hc : s.callerAt task .queued = some c)
    (hs : s.takeGlobal task c = some s') : Transition config s s' (.takeGlobal task) := by
  obtain ⟨ht, hstage⟩ := tasks_of_callerAt hc
  rw [takeGlobal] at hs
  split_ifs at hs with hfree
  cases hs
  exact .of_move ht hstage rfl rfl (Nat.sub_add_cancel (Nat.pos_of_ne_zero hfree)) (h.bounded _) (h.maxQueue _)
    (by decide) nofun fun _ => ⟨task, rfl⟩

theorem Transition.of_takeProject (h : s.Balanced config) (hc : s.callerAt task .admitted = some c)
    (hs : s.takeProject task c = some s') : Transition config s s' a := by
  obtain ⟨ht, hstage⟩ := tasks_of_callerAt hc
  rw [takeProject] at hs
  split_ifs at hs with hfree
  cases hs
  exact .of_move ht hstage rfl (Nat.sub_add_cancel (Nat.pos_of_ne_zero hfree)) rfl (h.bounded _) (h.maxQueue _)
    (by decide) nofun nofun

theorem Transition.of_cancel (h : s.Balanced config) (hc : s.tasks[task]? = some (.holding c))
    (hs : s.cancel task c = some s') : Transition config s s' a := by
  rw [cancel] at hs
  cases hstage : c.stage with
  | found =>
    rw [hstage] at hs
    cases hs
    exact .of_move hc hstage rfl rfl rfl (h.bounded _) (h.maxQueue _) (by decide) nofun nofun
  | queued =>
    rw [hstage] at hs
    cases hs
    exact .of_leaveQueue h hc (hstage ▸ rfl) rfl (hstage ▸ rfl) (hstage ▸ rfl) (hstage ▸ by decide)
  | admitted =>
    rw [hstage] at hs
    cases hs
    exact .of_move hc hstage rfl rfl rfl (h.bounded _) (h.maxQueue _) (by decide) nofun nofun
  | _ =>
    rw [hstage] at hs
    cases hs

theorem Transition.of_release (h : s.Balanced config) (hc : s.tasks[task]? = some (.holding c))
    (hs : s.release task c = some s') : Transition config s s' a := by
  rw [release] at hs
  cases hstage : c.stage with
  | unqueued =>
    rw [hstage] at hs
    cases hs
    exact .of_move hc hstage rfl rfl rfl (h.bounded _) (h.maxQueue _) (by decide) nofun nofun
  | releasing =>
    rw [hstage] at hs
    cases hs
    exact .of_move hc hstage rfl rfl rfl (h.bounded _) (h.maxQueue _) (by decide) nofun nofun
  | cancelling =>
    rw [hstage] at hs
    cases hs
    exact .of_leaveQueue h hc (hstage ▸ rfl) rfl (hstage ▸ rfl) (hstage ▸ rfl) (hstage ▸ by decide)
  | _ =>
    rw [hstage] at hs
    cases hs

theorem Transition.of_retain {shard : List Uuid} : Transition config s (s.retain config shard) a := by
  refine .rest rfl rfl rfl rfl (fun p l hlookup => ?_) fun _ p l hlookup => ?_
  · rw [retain, Dict.lookup_filter] at hlookup
    exact (Option.filter_eq_some_iff.mp hlookup).1
  · rw [retain, Dict.lookup_filter, hlookup, Option.filter_some]
    split_ifs with hkept
    · exact .inl rfl
    · refine .inr ?_
      rw [Bool.not_eq_true', Bool.not_eq_false, Bool.and_eq_true, ProjectLimiter.shouldEvict, Bool.and_eq_true,
        ProjectLimiter.isIdle, Bool.and_eq_true, beq_iff_eq, beq_iff_eq] at hkept
      exact hkept.2.1.2

theorem callers_erase {project : Uuid} {cleanup cleanup' : Cleanup} {next : Option Uuid}
    (h : s.cleanupAt task = some (cleanup, next)) :
    ({ s with projectLimiters := s.projectLimiters.erase project }.setTask task
      (.cleaning cleanup' next)).callers = s.callers :=
  (callers_setTask (s := { s with projectLimiters := s.projectLimiters.erase project }) (tasks_of_cleanupAt h)
    rfl).trans (zero_add _)

theorem step_cases (h : s.Balanced config) (hs : s.step config a = some s') :
    Transition config s s' a := by
  cases a with
  | acquire project =>
    cases hs
    exact .of_acquire
  | insert task =>
    rw [step] at hs
    split at hs
    · next hc =>
      cases hs
      exact .of_insertLimiter hc
    · cases hs
  | tryGuard task =>
    obtain ⟨c, hc, rfl⟩ := Option.map_eq_some_iff.mp hs
    exact .of_tryGuard h hc
  | takeGlobal task =>
    obtain ⟨c, hc, hs⟩ := Option.bind_eq_some_iff.mp hs
    exact .of_takeGlobal h hc hs
  | takeProject task =>
    obtain ⟨c, hc, hs⟩ := Option.bind_eq_some_iff.mp hs
    exact .of_takeProject h hc hs
  | cancel task =>
    obtain ⟨c, hc, hs⟩ := Option.bind_eq_some_iff.mp hs
    exact .of_cancel h (tasks_of_caller hc) hs
  | dropPermit task =>
    obtain ⟨c, hc, rfl⟩ := Option.map_eq_some_iff.mp hs
    obtain ⟨ht, hstage⟩ := tasks_of_callerAt hc
    exact .of_leaveQueue h ht (hstage ▸ rfl) rfl (hstage ▸ rfl) (hstage ▸ rfl) (hstage ▸ by decide)
  | release task =>
    obtain ⟨c, hc, hs⟩ := Option.bind_eq_some_iff.mp hs
    exact .of_release h (tasks_of_caller hc) hs
  | cleanupIdle =>
    cases hs
    exact .of_spawn rfl
  | retain task shard =>
    rw [step] at hs
    split at hs
    · cases hs
      exact .of_retain
    · cases hs
  | checkCapacity task =>
    rw [step] at hs
    split at hs
    · next next hc =>
      cases hs
      refine .of_setTask (tasks_of_cleanupAt hc) rfl ?_
      rw [checkCapacity]
      split_ifs
      · rfl
      · cases next <;> rfl
    · cases hs
  | collect task shard =>
    rw [step] at hs
    split at hs
    · next hc =>
      cases hs
      exact .of_setTask (tasks_of_cleanupAt hc) rfl rfl
    · cases hs
  | select task =>
    rw [step] at hs
    split at hs
    · next hc =>
      cases hs
      exact .of_setTask (tasks_of_cleanupAt hc) rfl rfl
    · cases hs
  | remove task =>
    rw [step] at hs
    split at hs
    · next hc =>
      cases hs
      refine .rest (callers_erase hc) rfl rfl rfl (fun p l hlookup => ?_) fun h => absurd rfl (h task)
      rw [setTask, Dict.lookup_erase'] at hlookup
      split_ifs at hlookup
      exact hlookup
    · next next hc =>
      cases hs
      exact .of_setTask (tasks_of_cleanupAt hc) rfl (by cases next <;> rfl)
    · cases hs
  | tick nanos =>
    cases hs
    exact .rest rfl rfl rfl rfl (fun _ _ h => h) fun _ _ _ h => .inl h

theorem count_cons {c : Caller} {p : Caller → Prop} [DecidablePred p] {stages : Stage → Bool}
    (hs : s'.callers = c ::ₘ s.callers) (hstage : stages c.stage = false) : s'.count p stages = s.count p stages := by
  rw [count, hs, countP_cons_stage, hstage]
  split_ifs <;> rfl

theorem count_congr {p : Caller → Prop} [DecidablePred p] {stages : Stage → Bool} (hs : s'.callers = s.callers) :
    s'.count p stages = s.count p stages := by rw [count, hs, count]

theorem Balanced.step (h : s.Balanced config) (hplaced : s.Placed) (ht : Transition config s s' a) :
    s'.Balanced config := by
  cases ht with
  | rest callers limiters overall =>
    refine ⟨fun l => ?_, fun l => ?_, ?_, fun l => limiters ▸ h.bounded l, fun l => limiters ▸ h.maxQueue l⟩
    · rw [limiters, count_congr callers, h.queue]
    · rw [limiters, count_congr callers, h.project]
    · rw [overall, count_congr callers, h.overall]
  | find c callers stage lookup limiters overall =>
    have htouch : ∀ l, ∃ now, s'.limiters l = (s.limiters l).touch now := by
      intro l
      rw [limiters]
      by_cases heq : l = c.limiter
      · subst heq
        exact ⟨s.now, Function.update_self ..⟩
      · exact ⟨(s.limiters l).lastAccessedNanos, Function.update_of_ne heq ..⟩
    refine ⟨fun l => ?_, fun l => ?_, ?_, fun l => ?_, fun l => ?_⟩
    · obtain ⟨now, hl⟩ := htouch l
      rw [count_cons callers (stage ▸ rfl), ← h.queue, hl]
      rfl
    · obtain ⟨now, hl⟩ := htouch l
      rw [count_cons callers (stage ▸ rfl), ← h.project l, hl]
      rfl
    · rw [overall, count_cons callers (stage ▸ rfl), h.overall]
    · obtain ⟨now, hl⟩ := htouch l
      exact hl ▸ h.bounded l
    · obtain ⟨now, hl⟩ := htouch l
      exact hl ▸ h.maxQueue l
  | create c callers stage lookup limiter limiters overall =>
    -- Nobody works with a limiter that was not made before.
    have hfresh : ∀ stages, s.count (·.limiter = s.nextLimiter) stages = 0 := by
      intro stages
      refine Multiset.countP_eq_zero.mpr fun x hx hl => ?_
      exact (hplaced.made x hx).ne hl.1
    have hlimiters : ∀ l, s'.limiters l = if l = s.nextLimiter then
        ProjectLimiter.new config.maxConcurrentPerProject config.maxQueuePerProject s.now else s.limiters l :=
      fun l => (congrFun limiters l).trans (Function.update_apply ..)
    refine ⟨fun l => ?_, fun l => ?_, ?_, fun l => ?_, fun l => ?_⟩
    · rw [count_cons callers (stage ▸ rfl), hlimiters]
      split_ifs with heq
      · rw [heq, hfresh]
        rfl
      · exact h.queue l
    · rw [count_cons callers (stage ▸ rfl), hlimiters]
      split_ifs with heq
      · rw [heq, hfresh]
        rfl
      · exact h.project l
    · rw [overall, count_cons callers (stage ▸ rfl), h.overall]
    · rw [hlimiters]
      split_ifs
      · exact Nat.zero_le _
      · exact h.bounded l
    · rw [hlimiters]
      split_ifs
      · rfl
      · exact h.maxQueue l
  | move task c stage limiter globalAvailable eq caller queue project overall bounded maxQueue =>
    exact eq ▸ h.move caller queue project overall bounded maxQueue

theorem Placed.step (h : s.Placed) (ht : Transition config s s' a) : s'.Placed := by
  cases ht with
  | rest callers limiters overall next kept =>
    refine ⟨fun c hc => ?_, fun p l hl => next ▸ h.mapped p l (kept p l hl),
      fun p p' l hl hl' => h.apart p p' l (kept p l hl) (kept p' l hl'), fun p l hl c hc => ?_⟩
    · exact next ▸ h.made c (callers ▸ hc)
    · exact h.owned p l (kept p l hl) c (callers ▸ hc)
  | find c callers stage lookup limiters overall next map =>
    refine ⟨fun x hx => ?_, fun p l hl => next ▸ h.mapped p l (map ▸ hl),
      fun p p' l hl hl' => h.apart p p' l (map ▸ hl) (map ▸ hl'), fun p l hl x hx hxl => ?_⟩
    · rw [callers] at hx
      rw [next]
      rcases Multiset.mem_cons.mp hx with rfl | hx
      · exact h.mapped _ _ lookup
      · exact h.made x hx
    · rw [map] at hl
      rw [callers] at hx
      rcases Multiset.mem_cons.mp hx with rfl | hx
      · exact h.apart _ _ _ lookup (hxl ▸ hl)
      · exact h.owned p l hl x hx hxl
  | create c callers stage lookup limiter limiters overall next map =>
    have hlookup : ∀ p l, s'.projectLimiters.lookup p = some l →
        p = c.project ∧ l = s.nextLimiter ∨ s.projectLimiters.lookup p = some l ∧ l < s.nextLimiter := by
      intro p l hl
      rw [map, Dict.lookup_insert'] at hl
      split_ifs at hl with heq
      · exact .inl ⟨heq, (Option.some.inj hl).symm⟩
      · exact .inr ⟨hl, h.mapped p l hl⟩
    refine ⟨fun x hx => ?_, fun p l hl => ?_, fun p p' l hl hl' => ?_, fun p l hl x hx hxl => ?_⟩
    · rw [callers] at hx
      rw [next]
      rcases Multiset.mem_cons.mp hx with rfl | hx
      · omega
      · exact Nat.lt_succ_of_lt (h.made x hx)
    · rw [next]
      rcases hlookup p l hl with ⟨-, rfl⟩ | ⟨-, hlt⟩
      · exact Nat.lt_succ_self _
      · exact Nat.lt_succ_of_lt hlt
    · rcases hlookup p l hl with ⟨rfl, rfl⟩ | ⟨hold, hlt⟩ <;> rcases hlookup p' _ hl' with ⟨rfl, heq⟩ | ⟨hold', hlt'⟩
      · rfl
      · exact absurd hlt' (Nat.lt_irrefl _)
      · exact absurd (heq ▸ hlt) (Nat.lt_irrefl _)
      · exact h.apart p p' l hold hold'
    · rw [callers] at hx
      rcases Multiset.mem_cons.mp hx with rfl | hx
      · rcases hlookup p l hl with ⟨rfl, -⟩ | ⟨-, hlt⟩
        · rfl
        · omega
      · rcases hlookup p l hl with ⟨-, rfl⟩ | ⟨hold, -⟩
        · exact absurd hxl (h.made x hx).ne
        · exact h.owned p l hold x hx hxl
  | move task c stage limiter globalAvailable eq caller => exact eq ▸ h.move caller

structure Sound (config : QueryLimiterConfig) (s : QueryLimiter) : Prop where
  balanced : s.Balanced config
  placed : s.Placed

theorem sound_start (config : QueryLimiterConfig) : (start config).Sound config where
  balanced := ⟨fun _ => rfl, fun _ => rfl, rfl, fun _ => Nat.zero_le _, fun _ => rfl⟩
  placed := ⟨nofun, nofun, nofun, nofun⟩

theorem Sound.step (h : s.Sound config) (hs : s.step config a = some s') : s'.Sound config :=
  have ht := step_cases h.balanced hs
  ⟨h.balanced.step h.placed ht, h.placed.step ht⟩

end Steps

end QueryLimiter

end Reiver.Pond
