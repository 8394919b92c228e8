import Reiver.Pond.Sync.JobQueue

/-! # Fencing and retries of jobs

A worker that has lost its job must not touch it, a job is completed once, and a job with retries left is run again.
Nothing checks the lock when a job is finished, and the recovery of stale jobs looks at the time a job was first
scheduled; a run keeps the promises exactly if neither matters (`promised_iff`). -/

namespace Reiver.Pond
namespace JobSystem

/-! ### The promises -/

def outcome (row : JobRow) : JobStatus × Option String × Int := (row.status, row.error, row.retryCount)

/-- The job was recovered, claimed by another worker or finished while the worker was executing it. -/
def Lost (s : JobSystem) (worker : WorkerId) (id : Uuid) : Prop :=
  ∀ row ∈ s.jobs.lookup id, row.lockedBy ≠ some worker

/-- A worker leaves a job it has lost as it is. -/
def Fenced (s : JobSystem) (a : JobAction) (s' : JobSystem) : Prop :=
  ∀ worker result id, a = .complete worker result → s.executing.lookup worker = some id → s.Lost worker id →
    (s'.jobs.lookup id).map outcome = (s.jobs.lookup id).map outcome

/-- No job is completed twice, and a job that failed less often than it may has not failed for good: it is running,
    done, or ready to be claimed. -/
structure JobsKept (s : JobSystem) : Prop where
  once : ∀ id row, s.jobs.lookup id = some row → row.completions ≤ 1
  retried : ∀ id row, s.jobs.lookup id = some row → row.startedAt ≠ none → (row.failures : Int) < row.maxRetries →
    row.status ≠ .failed ∧ (row.status = .pending → row.scheduledAt ≤ s.now)

def Promised (s : JobSystem) (a : JobAction) : Prop := ∀ s' ∈ s.step a, Fenced s a s' ∧ JobsKept s'

/-- A worker that finishes a job still has its lock, and a job found stale was never picked up. -/
def Disciplined (s : JobSystem) : JobAction → Prop
  | .complete worker _ => ∀ id ∈ s.executing.lookup worker, ∀ row ∈ s.jobs.lookup id, row.lockedBy = some worker
  | .recoverStale => ∀ id row, s.jobs.lookup id = some row → row.status = .pending →
      row.scheduledAt < s.now - JobRow.oneHour → row.startedAt = none
  | _ => True

/-! ### Rows -/

/-- What holds of every row in a disciplined run. -/
structure RowInv (now : Int) (row : JobRow) : Prop where
  completions : row.completions = if row.status = .completed then 1 else 0
  failures : (row.failures : Int) = row.retryCount
  retries : row.status = .pending ∨ row.status = .running → row.retryCount < row.maxRetries
  failed : row.status = .failed → row.startedAt = none ∨ row.maxRetries ≤ row.retryCount
  locked : row.lockedBy ≠ none → row.status = .running
  scheduled : row.scheduledAt ≤ now

namespace RowInv
variable {now expires : Int} {row : JobRow} {worker : WorkerId}

theorem claim (h : RowInv now row) (hpending : row.status = .pending) : RowInv now (row.claim worker now expires) where
  completions := by simpa [JobRow.claim, hpending] using h.completions
  failures := h.failures
  retries _ := h.retries (Or.inl hpending)
  failed hf := by cases hf
  locked _ := rfl
  scheduled := h.scheduled

theorem heartbeat (h : RowInv now row) : RowInv now (row.heartbeat expires) := by
  unfold JobRow.heartbeat
  split
  · exact ⟨h.completions, h.failures, h.retries, h.failed, h.locked, h.scheduled⟩
  · exact h

theorem attempt (h : RowInv now row) (hrunning : row.status = .running) {row' : JobRow}
    (hstatus : row'.status = if row.retryCount + 1 < row.maxRetries then .pending else .failed)
    (hcount : row'.retryCount = row.retryCount + 1 ∧ row'.failures = row.failures + 1 ∧
      row'.completions = row.completions)
    (hmax : row'.maxRetries = row.maxRetries) (hlock : row'.lockedBy = none)
    (hscheduled : row'.scheduledAt = row.scheduledAt) : RowInv now row' := by
  obtain ⟨hretry, hfailures, hcompletions⟩ := hcount
  have hold := h.failures
  have hzero := h.completions
  rw [if_neg (by simp [hrunning])] at hzero
  refine ⟨?_, by omega, fun hs => ?_, fun hs => Or.inr ?_, fun hl => (hl hlock).elim, hscheduled ▸ h.scheduled⟩
  · rw [hcompletions, hzero, if_neg]
    rw [hstatus]
    split <;> simp
  · rw [hstatus] at hs
    split at hs
    · omega
    · simp at hs
  · rw [hstatus] at hs
    split at hs
    · cases hs
    · omega

theorem finish (h : RowInv now row) (hrunning : row.status = .running) (result : Except String Unit) :
    RowInv now (row.finish now result) := by
  cases result with
  | ok _ =>
    have hzero := h.completions
    rw [if_neg (by simp [hrunning])] at hzero
    refine ⟨?_, h.failures, fun hs => ?_, fun hs => (nomatch hs), fun hl => (hl rfl).elim, h.scheduled⟩
    · simp [JobRow.finish, JobRow.complete, hzero]
    · simp [JobRow.finish, JobRow.complete] at hs
  | error error => exact h.attempt hrunning rfl ⟨rfl, rfl, rfl⟩ rfl rfl rfl

theorem recoverRunning (h : RowInv now row) : RowInv now (row.recoverRunning now) := by
  unfold JobRow.recoverRunning
  split
  · next hcond => exact h.attempt hcond.1 rfl ⟨rfl, rfl, rfl⟩ rfl rfl rfl
  · exact h

theorem recoverStale (h : RowInv now row)
    (hnew : row.status = .pending → row.scheduledAt < now - JobRow.oneHour → row.startedAt = none) :
    RowInv now (row.recoverStale now) := by
  unfold JobRow.recoverStale
  split
  · next hcond =>
    have hzero := h.completions
    rw [if_neg (by simp [hcond.1])] at hzero
    refine ⟨by simpa using hzero, h.failures, fun hs => by simp at hs, fun _ => Or.inl (hnew hcond.1 hcond.2.1),
      fun hl => (hl hcond.2.2).elim, h.scheduled⟩
  · exact h

theorem finish_ne (h : RowInv now row) {result : Except String Unit}
    (honce : (row.finish now result).completions ≤ 1) : outcome (row.finish now result) ≠ outcome row := by
  intro hsame
  cases result with
  | ok _ =>
    have hstatus : JobStatus.completed = row.status := congrArg Prod.fst hsame
    have hone := h.completions
    rw [if_pos hstatus.symm] at hone
    have htwo : row.completions + 1 ≤ 1 := honce
    omega
  | error error =>
    have hretry : row.retryCount + 1 = row.retryCount := congrArg (·.2.2) hsame
    omega

end RowInv

/-! ### Steps -/

structure JobInv (s : JobSystem) : Prop where
  rows : ∀ id row, s.jobs.lookup id = some row → RowInv s.now row

section Steps
variable {s s' : JobSystem} {a : JobAction} {worker : WorkerId} {id : Uuid} {f : JobRow → JobRow}

theorem JobInv.update (h : JobInv s) (hf : ∀ row, s.jobs.lookup id = some row → RowInv s.now (f row)) :
    JobInv (s.update id f) := by
  refine ⟨fun id' row' hrow' => ?_⟩
  rw [update_now]
  rw [lookup_update] at hrow'
  split at hrow'
  · next heq =>
    subst heq
    obtain ⟨row, hrow, rfl⟩ := Option.map_eq_some_iff.mp hrow'
    exact hf row hrow
  · exact h.rows id' row' hrow'

theorem JobInv.mapValues (hf : ∀ id row, s.jobs.lookup id = some row → RowInv s.now (f row)) :
    JobInv { s with jobs := s.jobs.mapValues fun _ => f } := by
  refine ⟨fun id row' hrow' => ?_⟩
  rw [Dict.lookup_mapValues] at hrow'
  obtain ⟨row, hrow, rfl⟩ := Option.map_eq_some_iff.mp hrow'
  exact hf id row hrow

theorem JobInv.step (h : JobInv s) (hcond : Disciplined s a) (hstep : s.step a = some s') : JobInv s' := by
  cases a with
  | tick seconds =>
    cases hstep
    refine ⟨fun id row hrow => ?_⟩
    have hinv := h.rows id row hrow
    exact { hinv with scheduled := hinv.scheduled.trans (Int.le_add_of_nonneg_right (Int.natCast_nonneg _)) }
  | insert id =>
    obtain ⟨-, rfl⟩ := step_insert hstep
    refine ⟨fun id' row hrow => ?_⟩
    rw [Dict.lookup_insert'] at hrow
    split at hrow
    · cases hrow
      exact ⟨rfl, rfl, fun _ => show (0 : Int) < 3 by decide, fun hs => (nomatch hs), fun hl => (hl rfl).elim, le_rfl⟩
    · exact h.rows id' row hrow
  | claim worker id expires =>
    obtain ⟨row, hrow, -, hpending, -, rfl⟩ := step_claim hstep
    refine ⟨fun id' row' hrow' => ?_⟩
    rw [Dict.lookup_insert'] at hrow'
    split at hrow'
    · cases hrow'
      exact (h.rows id row hrow).claim hpending
    · exact h.rows id' row' hrow'
  | heartbeat id expires =>
    cases hstep
    exact h.update fun row hrow => (h.rows id row hrow).heartbeat
  | complete worker result =>
    obtain ⟨id, hexec, rfl⟩ := step_complete hstep
    have hupdated : JobInv (s.update id (·.finish s.now result)) := h.update fun row hrow =>
      have hinv := h.rows id row hrow
      hinv.finish (hinv.locked (by simp [hcond id hexec row hrow])) result
    exact ⟨hupdated.rows⟩
  | abandon worker =>
    cases hstep
    exact ⟨h.rows⟩
  | recoverRunning =>
    cases hstep
    exact JobInv.mapValues fun id row hrow => (h.rows id row hrow).recoverRunning
  | recoverStale =>
    cases hstep
    exact JobInv.mapValues fun id row hrow => (h.rows id row hrow).recoverStale (hcond id row hrow)

theorem JobInv.kept (h : JobInv s) : JobsKept s := by
  refine ⟨fun id row hrow => ?_, fun id row hrow hstarted hfew => ?_⟩
  · rw [(h.rows id row hrow).completions]
    split <;> omega
  · have hinv := h.rows id row hrow
    refine ⟨fun hfailed => ?_, fun _ => hinv.scheduled⟩
    have hcount := hinv.failures
    rcases hinv.failed hfailed with hnone | hmax
    · exact hstarted hnone
    · omega

/-- A step from a state of a disciplined run keeps the promises exactly if it is disciplined. -/
theorem promised_step (h : JobInv s) (hstep : s.step a = some s') :
    (Fenced s a s' ∧ JobsKept s') ↔ Disciplined s a := by
  constructor
  · rintro ⟨hfenced, hkept⟩
    cases a with
    | complete worker result =>
      obtain ⟨id, hexec, rfl⟩ := step_complete hstep
      intro id' hexec' row hrow
      cases hexec.symm.trans hexec'
      by_contra hlock
      have hlook : (s.update id (·.finish s.now result)).jobs.lookup id = some (row.finish s.now result) := by
        rw [lookup_update, if_pos rfl, hrow, Option.map_some]
      have hlost : s.Lost worker id := fun row' hrow' => by
        cases hrow.symm.trans hrow'
        exact hlock
      have hsame := hfenced worker result id rfl hexec hlost
      rw [hlook, hrow, Option.map_some, Option.map_some, Option.some_inj] at hsame
      have honce : (row.finish s.now result).completions ≤ 1 := hkept.once id _ hlook
      exact absurd hsame ((h.rows id row hrow).finish_ne honce)
    | recoverStale =>
      cases hstep
      intro id row hrow hpending hold
      by_contra hstarted
      have hinv := h.rows id row hrow
      have hfree : row.lockedBy = none := by
        by_contra hlock
        rw [hinv.locked hlock] at hpending
        cases hpending
      have hrecovered : row.recoverStale s.now =
          { row with status := .failed, error := some "Stale pending job recovered by orphan recovery" } :=
        if_pos ⟨hpending, hold, hfree⟩
      have hlook : (s.jobs.mapValues fun _ => JobRow.recoverStale s.now).lookup id = some (row.recoverStale s.now) := by
        rw [Dict.lookup_mapValues, hrow, Option.map_some]
      rw [hrecovered] at hlook
      have hfew : (row.failures : Int) < row.maxRetries := hinv.failures ▸ hinv.retries (Or.inl hpending)
      exact (hkept.retried id _ hlook hstarted hfew).1 rfl
    | _ => trivial
  · intro hcond
    refine ⟨?_, (h.step hcond hstep).kept⟩
    rintro worker result id rfl hexec hlost
    cases hrow : s.jobs.lookup id with
    | none =>
      obtain ⟨id', hexec', rfl⟩ := step_complete hstep
      cases hexec.symm.trans hexec'
      show ((s.update id _).jobs.lookup id).map outcome = none
      rw [lookup_update, if_pos rfl, hrow]
      rfl
    | some row => exact absurd (hcond id hexec row hrow) (hlost row hrow)

end Steps

/-- A run of the queue keeps its promises exactly if it is disciplined. -/
theorem promised_iff (run : List JobAction) : Meets step Promised {} run ↔ Meets step Disciplined {} run := by
  have hinit : JobInv {} := ⟨fun id row hrow => (nomatch hrow)⟩
  refine meets_iff_of_inv (fun s a s' => JobInv.step) (fun s a s' h hstep => ?_) hinit
  rw [Promised, hstep, ← promised_step h hstep]
  simp

/-! ### Two undisciplined runs -/

/-- A worker stalls past its lock; another one runs the job to its end; the first one reports a failure. -/
def staleWorker : List JobAction :=
  [.insert 0, .claim "w1" 0 600, .tick 601, .recoverRunning, .claim "w2" 0 1201, .complete "w2" (.ok ())]

/-- An attempt of more than an hour, kept alive by its heartbeat, fails. -/
def longAttempt : List JobAction :=
  [.insert 0, .claim "w1" 0 600, .heartbeat 0 4600, .tick 4000, .complete "w1" (.error "connection lost")]

/-- The completed job is pending again, with the error of the worker that had lost it; the job with two retries left
    has failed for good. -/
theorem undisciplined_not_promised :
    ¬ Meets step Promised {} (staleWorker ++ [.complete "w1" (.error "connection lost")]) ∧
      ¬ Meets step Promised {} (longAttempt ++ [.recoverStale]) := by
  constructor
  · intro h
    have hrun : exec step {} staleWorker = some _ := rfl
    obtain ⟨hfenced, -⟩ := (((meets_append hrun).mp h).2 _ rfl).1 _ rfl
    have hsame := hfenced "w1" _ 0 rfl rfl fun row hrow => by
      cases hrow
      decide
    exact absurd hsame (by decide)
  · intro h
    have hrun : exec step {} longAttempt = some _ := rfl
    obtain ⟨-, hkept⟩ := (((meets_append hrun).mp h).2 _ rfl).1 _ rfl
    exact (hkept.retried 0 _ rfl (by decide) (by decide)).1 rfl

end JobSystem
end Reiver.Pond
