import Mathlib.Algebra.Group.Nat.Defs
import Mathlib.Data.List.Basic
import Mathlib.Order.Basic
import Reiver.Lib.Run

/-! # The lockout of verification codes

The model of `check_mfa_lockout`, `record_mfa_failure` and `clear_mfa_failures` in `mfa.rs`, as the requests of one user
run them around the comparison of a code. Every step is one Redis command or one comparison, so that requests may take
turns between any two of them. What was evaluated, announced and computed is kept along with the state. -/

namespace Reiver.Website

def mfaMaxFailures : Nat := 5

def mfaLockoutBaseSeconds : Nat := 30

def mfaLockoutMaxSeconds : Nat := 1800

def mfaFailureTtlSeconds : Nat := 3600

/-- A result of `i64` arithmetic that is not negative, if it does not overflow. -/
def checkedI64 (n : Nat) : Option Nat := if n < 2 ^ 63 then some n else none

/-- The duration that a check computes, for a counter that has reached the limit. -/
def lockoutSeconds (failures : Nat) : Option Nat := do
  let factor ← checkedI64 (2 ^ (failures - mfaMaxFailures))
  let seconds ← checkedI64 (mfaLockoutBaseSeconds * factor)
  some (min seconds mfaLockoutMaxSeconds)

inductive MfaRequest where
  /-- No lockout was found. -/
  | arrived (time : Nat)
  | locking (seconds : Nat)
  /-- The check passed: the code is to be compared. -/
  | checked
  | failed
  | counted
  | succeeded
  | done
deriving DecidableEq

/-- What happened. -/
inductive MfaFact where
  /-- A wrong code was evaluated, after so many others since the last success; since the last of them there were these
      lockouts. -/
  | wrong (before : Nat) (lockouts : List Nat)
  /-- A request was refused that came at this time, when a wait until `announced` had been announced. -/
  | refused (arrived : Nat) (announced : Option Nat)
  /-- A duration was computed. -/
  | computed (failures : Nat)
deriving DecidableEq

structure Mfa where
  now : Nat
  /-- `mfa:failures`, with the time it expires. -/
  failures : Option (Nat × Option Nat)
  /-- `mfa:lockout`, by the time it expires. -/
  lockout : Option Nat
  requests : List MfaRequest
  -- What happened, and what counts since the last success or wrong code.
  wrong : Nat
  lockouts : List Nat
  announced : Option Nat
  facts : List MfaFact

namespace Mfa

def start : Mfa := ⟨0, none, none, [], 0, [], none, []⟩

def failuresKey (s : Mfa) : Option (Nat × Option Nat) := s.failures.filter fun key => key.2.all (s.now < ·)

/-- `GET`, with a value that is no `i32` read as zero. -/
def readFailures (s : Mfa) : Nat :=
  match s.failuresKey with
  | some (value, _) => if value < 2 ^ 31 then value else 0
  | none => 0

def announce (s : Mfa) (time : Nat) : Mfa := { s with announced := some (max time (s.announced.getD 0)) }

def setRequest (s : Mfa) (i : Nat) (request : MfaRequest) : Mfa := { s with requests := s.requests.set i request }

def note (s : Mfa) (fact : MfaFact) : Mfa := { s with facts := s.facts ++ [fact] }

/-- `TTL` of the lockout. -/
def arrive (s : Mfa) : Mfa :=
  match s.lockout.filter (s.now < ·) with
  | some expires =>
    { (s.note (.refused s.now s.announced)).announce expires with requests := s.requests ++ [.done] }
  | none => { s with requests := s.requests ++ [.arrived s.now] }

def checkFailures (s : Mfa) (i : Nat) (arrived : Nat) : Mfa :=
  let failures := s.readFailures
  if failures < mfaMaxFailures then s.setRequest i .checked
  else
    let s := (s.note (.computed failures)).note (.refused arrived s.announced)
    match lockoutSeconds failures with
    | some seconds => s.setRequest i (.locking seconds)
    | none => s.setRequest i .done

/-- `SETEX` of the lockout; the request is answered. -/
def setLockout (s : Mfa) (i seconds : Nat) : Mfa :=
  let s := { s with lockout := some (s.now + seconds), lockouts := seconds :: s.lockouts }
  (s.announce (s.now + seconds)).setRequest i .done

def compareCode (s : Mfa) (i : Nat) (right : Bool) : Mfa :=
  if right then { s.setRequest i .succeeded with wrong := 0, lockouts := [], announced := none }
  else
    { (s.note (.wrong s.wrong s.lockouts)).setRequest i .failed with
      wrong := s.wrong + 1, lockouts := [], announced := none }

/-- `INCR`, which keeps the time of expiry. -/
def incrFailures (s : Mfa) : Mfa :=
  match s.failuresKey with
  | some (value, expires) => { s with failures := some (value + 1, expires) }
  | none => { s with failures := some (1, none) }

def expireFailures (s : Mfa) : Mfa :=
  { s with failures := s.failuresKey.map fun key => (key.1, some (s.now + mfaFailureTtlSeconds)) }

def clearMfaFailures (s : Mfa) : Mfa := { s with failures := none, lockout := none }

end Mfa

/-! ### Steps -/

inductive MfaCall where
  | tick (seconds : Nat)
  | arrive
  | checkFailures (i : Nat)
  | setLockout (i : Nat)
  | compareCode (i : Nat) (right : Bool)
  | incrFailures (i : Nat)
  | expireFailures (i : Nat)
  | clearMfaFailures (i : Nat)

def mfaStep (s : Mfa) : MfaCall → Option Mfa
  | .tick seconds => some { s with now := s.now + seconds }
  | .arrive => some s.arrive
  | .checkFailures i =>
    match s.requests[i]? with
    | some (.arrived time) => some (s.checkFailures i time)
    | _ => none
  | .setLockout i =>
    match s.requests[i]? with
    | some (.locking seconds) => some (s.setLockout i seconds)
    | _ => none
  | .compareCode i right => if s.requests[i]? = some .checked then some (s.compareCode i right) else none
  | .incrFailures i => if s.requests[i]? = some .failed then some (s.incrFailures.setRequest i .counted) else none
  | .expireFailures i => if s.requests[i]? = some .counted then some (s.expireFailures.setRequest i .done) else none
  | .clearMfaFailures i =>
    if s.requests[i]? = some .succeeded then some (s.clearMfaFailures.setRequest i .done) else none

/-! ### What is asked for -/

/-- The lockout that is due after so many wrong codes. -/
def dueLockout (wrong : Nat) : Nat := min (mfaLockoutBaseSeconds * 2 ^ (wrong - mfaMaxFailures)) mfaLockoutMaxSeconds

/-- Up to the limit wrong codes may be evaluated, and then one after each lockout that is due; nobody is refused who
    waited as long as was announced; and no duration overflows. -/
def MfaFact.Fine : MfaFact → Prop
  | .wrong before lockouts => before < mfaMaxFailures ∨ dueLockout before ∈ lockouts
  | .refused arrived announced => ∀ time ∈ announced, arrived < time
  | .computed failures => lockoutSeconds failures ≠ none

instance : DecidablePred MfaFact.Fine
  | .wrong before lockouts => inferInstanceAs (Decidable (before < mfaMaxFailures ∨ dueLockout before ∈ lockouts))
  | .refused arrived announced => inferInstanceAs (Decidable (∀ time ∈ announced, arrived < time))
  | .computed failures => inferInstanceAs (Decidable (lockoutSeconds failures ≠ none))

def Mfa.Bounded (s : Mfa) : Prop := ∀ fact ∈ s.facts, fact.Fine

/-- However the codes that wait for their comparison come out, what happened is fine. -/
def Mfa.Guarded (s : Mfa) : Prop :=
  ∀ codes : List (Nat × Bool), ∀ t ∈ exec mfaStep s (codes.map fun e => .compareCode e.1 e.2), t.Bounded

/-- The requests whose code waits for its comparison. -/
def Mfa.inFlight (s : Mfa) : Nat := s.requests.countP (· = .checked)

/-- When a check does right: it lets a request pass only if wrong codes are left for it and for all in flight, or the
    lockout that is due is over and none is in flight; it refuses nobody who waited as long as was announced; and it
    computes no duration for a counter of 64 or more. -/
def Mfa.Careful (s : Mfa) : MfaCall → Prop
  | .checkFailures i =>
    ∀ time, s.requests[i]? = some (.arrived time) →
      if s.readFailures < mfaMaxFailures then
        s.wrong + s.inFlight < mfaMaxFailures ∨ s.inFlight = 0 ∧ dueLockout s.wrong ∈ s.lockouts
      else (∀ u ∈ s.announced, time < u) ∧ s.readFailures < 64
  | _ => True

/-! ### Durations -/

theorem lockoutSeconds_ne_none_iff (failures : Nat) : lockoutSeconds failures ≠ none ↔ failures < 64 := by
  have hiff : lockoutSeconds failures ≠ none ↔ 2 ^ (failures - 5) < 2 ^ 63 ∧ 30 * 2 ^ (failures - 5) < 2 ^ 63 := by
    rw [lockoutSeconds, checkedI64, mfaMaxFailures, mfaLockoutBaseSeconds]
    by_cases hpow : 2 ^ (failures - 5) < 2 ^ 63
    · rw [if_pos hpow]
      show ((checkedI64 (30 * 2 ^ (failures - 5))).bind fun seconds => some (min seconds mfaLockoutMaxSeconds)) ≠ none ↔
        _
      rw [checkedI64]
      by_cases hproduct : 30 * 2 ^ (failures - 5) < 2 ^ 63
      · rw [if_pos hproduct]
        exact iff_of_true (Option.some_ne_none _) ⟨hpow, hproduct⟩
      · rw [if_neg hproduct]
        exact iff_of_false (not_not.mpr rfl) fun h => hproduct h.2
    · rw [if_neg hpow]
      exact iff_of_false (not_not.mpr rfl) fun h => hpow h.1
  rw [hiff]
  constructor
  · rintro ⟨-, hproduct⟩
    by_contra hge
    have hpow : 2 ^ 59 ≤ 2 ^ (failures - 5) := Nat.pow_le_pow_right (by decide) (by omega)
    omega
  · intro hlt
    have hpow : 2 ^ (failures - 5) ≤ 2 ^ 58 := Nat.pow_le_pow_right (by decide) (by omega)
    omega

namespace Mfa
variable {s s' : Mfa} {call : MfaCall} {i : Nat} {run : List MfaCall}

/-! ### What is kept -/

def Announced (s : Mfa) : Prop := ∀ time ∈ s.announced, ∀ expires ∈ s.lockout, expires ≤ time

structure Strong (s : Mfa) : Prop where
  bounded : s.Bounded
  exposed : s.wrong + s.inFlight ≤ mfaMaxFailures ∨ s.inFlight = 0 ∨
    s.inFlight = 1 ∧ dueLockout s.wrong ∈ s.lockouts

theorem bounded_note {fact : MfaFact} : (s.note fact).Bounded ↔ s.Bounded ∧ fact.Fine := by
  rw [Bounded, note, List.forall_mem_append, List.forall_mem_singleton]
  rfl

theorem inFlight_append (request : MfaRequest) :
    ({ s with requests := s.requests ++ [request] } : Mfa).inFlight = s.inFlight + if request = .checked then 1
      else 0 := by
  rw [inFlight, inFlight, List.countP_append, List.countP_singleton]
  simp

theorem inFlight_setRequest {old : MfaRequest} (hold : s.requests[i]? = some old) (request : MfaRequest) :
    (s.setRequest i request).inFlight + (if old = .checked then 1 else 0) =
      s.inFlight + if request = .checked then 1 else 0 := by
  obtain ⟨hlt, hget⟩ := List.getElem?_eq_some_iff.mp hold
  have hmem : old ∈ s.requests := hget ▸ List.getElem_mem hlt
  rw [inFlight, setRequest, List.countP_set hlt, hget, inFlight]
  by_cases h : old = .checked
  · have hpos : 0 < s.requests.countP (· = .checked) := List.countP_pos_iff.mpr ⟨old, hmem, by simpa using h⟩
    simp only [h, decide_true, if_true, decide_eq_true_eq]
    omega
  · simp [h]

theorem inFlight_keep {old : MfaRequest} (hold : s.requests[i]? = some old) (h : old ≠ .checked) {request : MfaRequest}
    (h' : request ≠ .checked) : (s.setRequest i request).inFlight = s.inFlight := by
  have hset := inFlight_setRequest hold (s := s) request
  rwa [if_neg h, if_neg h'] at hset

theorem inFlight_enter {old : MfaRequest} (hold : s.requests[i]? = some old) (h : old ≠ .checked) :
    (s.setRequest i .checked).inFlight = s.inFlight + 1 := by
  have hset := inFlight_setRequest hold (s := s) .checked
  rwa [if_neg h, if_pos rfl] at hset

theorem inFlight_leave (hold : s.requests[i]? = some .checked) {request : MfaRequest} (h : request ≠ .checked) :
    (s.setRequest i request).inFlight + 1 = s.inFlight := by
  have hset := inFlight_setRequest hold (s := s) request
  rwa [if_pos rfl, if_neg h] at hset

theorem checkFailures_refused {time : Nat} (h : ¬s.readFailures < mfaMaxFailures) :
    ∃ request ≠ MfaRequest.checked, s.checkFailures i time =
      ((s.note (.computed s.readFailures)).note (.refused time s.announced)).setRequest i request := by
  rw [checkFailures]
  simp only [if_neg h]
  cases lockoutSeconds s.readFailures with
  | none => exact ⟨.done, by decide, rfl⟩
  | some seconds => exact ⟨.locking seconds, MfaRequest.noConfusion, rfl⟩

theorem announced_kept (h : s.Announced) (hstep : mfaStep s call = some s') : s'.Announced := by
  cases call with
  | tick seconds =>
    obtain rfl := Option.some.inj hstep
    exact h
  | arrive =>
    obtain rfl := Option.some.inj hstep
    rw [arrive]
    cases hlockout : s.lockout.filter (s.now < ·) with
    | none => exact h
    | some expires =>
      rintro time ⟨⟩ expires' hexpires'
      have hsame : s.lockout = some expires := (Option.filter_eq_some_iff.mp hlockout).1
      obtain rfl : expires = expires' := Option.some.inj (hsame.symm.trans hexpires')
      exact Nat.le_max_left _ _
  | checkFailures i =>
    rw [mfaStep] at hstep
    split at hstep
    · next time _ =>
      obtain rfl := Option.some.inj hstep
      by_cases hlimit : s.readFailures < mfaMaxFailures
      · rw [checkFailures]
        simp only [if_pos hlimit]
        exact h
      · obtain ⟨request, -, hrefused⟩ := checkFailures_refused (i := i) hlimit
        rw [hrefused]
        exact h
    · cases hstep
  | setLockout i =>
    rw [mfaStep] at hstep
    split at hstep
    · obtain rfl := Option.some.inj hstep
      rintro time ⟨⟩ expires ⟨⟩
      exact Nat.le_max_left _ _
    · cases hstep
  | compareCode i right =>
    obtain ⟨-, ⟨⟩⟩ := Option.ite_none_right_eq_some.mp hstep
    rw [compareCode]
    cases right <;> rintro time ⟨⟩
  | incrFailures i =>
    obtain ⟨-, ⟨⟩⟩ := Option.ite_none_right_eq_some.mp hstep
    rw [incrFailures]
    cases s.failuresKey <;> exact h
  | expireFailures i =>
    obtain ⟨-, ⟨⟩⟩ := Option.ite_none_right_eq_some.mp hstep
    exact h
  | clearMfaFailures i =>
    obtain ⟨-, ⟨⟩⟩ := Option.ite_none_right_eq_some.mp hstep
    rintro time - expires ⟨⟩

theorem Strong.congr (h : s.Strong) (hfacts : s'.facts = s.facts) (hwrong : s'.wrong = s.wrong)
    (hflight : s'.inFlight = s.inFlight) (hlockouts : ∀ seconds ∈ s.lockouts, seconds ∈ s'.lockouts) : s'.Strong where
  bounded := by
    rw [Bounded, hfacts]
    exact h.bounded
  exposed := by
    rw [hwrong, hflight]
    exact h.exposed.imp_right (Or.imp_right (And.imp_right (hlockouts _)))

theorem strong_compareCode (h : s.Strong) {right : Bool} (hi : s.requests[i]? = some .checked) :
    (s.compareCode i right).Strong := by
  have hmem : MfaRequest.checked ∈ s.requests := List.mem_of_getElem? hi
  have hpos : 0 < s.inFlight := List.countP_pos_iff.mpr ⟨_, hmem, by simp⟩
  cases right with
  | true =>
    have hflight : (s.compareCode i true).inFlight + 1 = s.inFlight := by
      exact inFlight_leave hi (by decide)
    have hwrong : (s.compareCode i true).wrong = 0 := rfl
    refine ⟨h.bounded, ?_⟩
    rw [hwrong]
    rcases h.exposed with hroom | hnone | ⟨hone, -⟩ <;> omega
  | false =>
    have hflight : (s.compareCode i false).inFlight + 1 = s.inFlight := by
      exact inFlight_leave hi (by decide)
    have hwrong : (s.compareCode i false).wrong = s.wrong + 1 := rfl
    have hfine : (MfaFact.wrong s.wrong s.lockouts).Fine := by
      rcases h.exposed with hroom | hnone | ⟨-, hdue⟩
      · exact .inl (by omega)
      · omega
      · exact .inr hdue
    refine ⟨bounded_note.mpr ⟨h.bounded, hfine⟩, ?_⟩
    rw [hwrong]
    rcases h.exposed with hroom | hnone | ⟨hone, -⟩ <;> omega

theorem strong_step (ha : s.Announced) (h : s.Strong) (hstep : mfaStep s call = some s') :
    s'.Strong ↔ s.Careful call := by
  cases call with
  | tick seconds =>
    obtain rfl := Option.some.inj hstep
    exact iff_of_true (h.congr rfl rfl rfl fun _ hseconds => hseconds) trivial
  | arrive =>
    obtain rfl := Option.some.inj hstep
    refine iff_of_true ?_ trivial
    rw [arrive]
    cases hlockout : s.lockout.filter (s.now < ·) with
    | none =>
      have hflight : ({ s with requests := s.requests ++ [.arrived s.now] } : Mfa).inFlight = s.inFlight := by
        simpa using inFlight_append (s := s) (.arrived s.now)
      exact h.congr rfl rfl hflight fun _ hseconds => hseconds
    | some expires =>
      obtain ⟨hsome, hlive⟩ := Option.filter_eq_some_iff.mp hlockout
      have hfine : (MfaFact.refused s.now s.announced).Fine := fun time htime =>
        Nat.lt_of_lt_of_le (by simpa using hlive) (ha time htime expires hsome)
      have hflight : ({ s with requests := s.requests ++ [.done] } : Mfa).inFlight = s.inFlight := by
        simpa using inFlight_append (s := s) .done
      refine ⟨bounded_note.mpr ⟨h.bounded, hfine⟩, ?_⟩
      have hexposed := h.exposed
      rw [← hflight] at hexposed
      exact hexposed
  | checkFailures i =>
    rw [mfaStep] at hstep
    split at hstep
    · next time hi =>
      obtain rfl := Option.some.inj hstep
      have hcareful : s.Careful (.checkFailures i) ↔ if s.readFailures < mfaMaxFailures then
          s.wrong + s.inFlight < mfaMaxFailures ∨ s.inFlight = 0 ∧ dueLockout s.wrong ∈ s.lockouts
          else (∀ u ∈ s.announced, time < u) ∧ s.readFailures < 64 := by
        refine ⟨fun hcareful => hcareful time hi, fun hcareful time' hi' => ?_⟩
        obtain ⟨⟩ := hi.symm.trans hi'
        exact hcareful
      rw [hcareful]
      split
      · next hlimit =>
        have hpassed : s.checkFailures i time = s.setRequest i .checked := by
          rw [checkFailures]
          simp only [if_pos hlimit]
        have hflight : (s.setRequest i .checked).inFlight = s.inFlight + 1 := inFlight_enter hi MfaRequest.noConfusion
        rw [hpassed]
        have hexposed : (s.setRequest i .checked).Strong ↔ s.wrong + (s.inFlight + 1) ≤ mfaMaxFailures ∨
            s.inFlight + 1 = 0 ∨ s.inFlight + 1 = 1 ∧ dueLockout s.wrong ∈ s.lockouts := by
          rw [← hflight]
          exact ⟨fun hs => hs.exposed, fun hs => ⟨h.bounded, hs⟩⟩
        rw [hexposed]
        simp only [Nat.add_eq_zero_iff, Nat.one_ne_zero, and_false, false_or, Nat.add_eq_right]
        rfl
      · next hlimit =>
        obtain ⟨request, hrequest, hrefused⟩ := checkFailures_refused (i := i) hlimit
        have hflight : (s.setRequest i request).inFlight = s.inFlight :=
          inFlight_keep hi MfaRequest.noConfusion hrequest
        have hnoted : (s.checkFailures i time).Bounded ↔ s.Bounded ∧ (MfaFact.computed s.readFailures).Fine ∧
            (MfaFact.refused time s.announced).Fine := by
          rw [hrefused, ← and_assoc, ← bounded_note, ← bounded_note]
          rfl
        have hexposed := h.exposed
        rw [← hflight] at hexposed
        constructor
        · intro hs
          obtain ⟨-, hcomputed, hwaited⟩ := hnoted.mp hs.bounded
          exact ⟨hwaited, (lockoutSeconds_ne_none_iff _).mp hcomputed⟩
        · rintro ⟨hwaited, hcomputed⟩
          refine ⟨hnoted.mpr ⟨h.bounded, (lockoutSeconds_ne_none_iff _).mpr hcomputed, hwaited⟩, ?_⟩
          rw [hrefused]
          exact hexposed
    · cases hstep
  | setLockout i =>
    rw [mfaStep] at hstep
    split at hstep
    · next seconds hi =>
      obtain rfl := Option.some.inj hstep
      have hflight : (s.setRequest i .done).inFlight = s.inFlight := inFlight_keep hi (by simp) (by decide)
      exact iff_of_true (h.congr rfl rfl hflight fun _ hseconds => List.mem_cons_of_mem _ hseconds) trivial
    · cases hstep
  | compareCode i right =>
    obtain ⟨hi, ⟨⟩⟩ := Option.ite_none_right_eq_some.mp hstep
    exact iff_of_true (strong_compareCode h hi) trivial
  | incrFailures i =>
    obtain ⟨hi, ⟨⟩⟩ := Option.ite_none_right_eq_some.mp hstep
    have hflight : (s.setRequest i .counted).inFlight = s.inFlight := inFlight_keep hi (by simp) (by decide)
    refine iff_of_true ?_ trivial
    rw [incrFailures]
    cases s.failuresKey <;> exact h.congr rfl rfl hflight fun _ hseconds => hseconds
  | expireFailures i =>
    obtain ⟨hi, ⟨⟩⟩ := Option.ite_none_right_eq_some.mp hstep
    have hflight : (s.setRequest i .done).inFlight = s.inFlight := inFlight_keep hi (by simp) (by decide)
    exact iff_of_true (h.congr rfl rfl hflight fun _ hseconds => hseconds) trivial
  | clearMfaFailures i =>
    obtain ⟨hi, ⟨⟩⟩ := Option.ite_none_right_eq_some.mp hstep
    have hflight : (s.setRequest i .done).inFlight = s.inFlight := inFlight_keep hi (by simp) (by decide)
    exact iff_of_true (h.congr rfl rfl hflight fun _ hseconds => hseconds) trivial

/-! ### Runs -/

theorem strong_comparisons (codes : List (Nat × Bool)) {t : Mfa} (h : s.Strong)
    (hrun : exec mfaStep s (codes.map fun e => .compareCode e.1 e.2) = some t) : t.Strong := by
  induction codes generalizing s with
  | nil =>
    cases hrun
    exact h
  | cons e codes ih =>
    obtain ⟨s', hstep, hrest⟩ := Option.bind_eq_some_iff.mp hrun
    obtain ⟨hi, ⟨⟩⟩ := Option.ite_none_right_eq_some.mp hstep
    exact ih (strong_compareCode h hi) hrest

theorem exposed_of_guarded (n : Nat) (hflight : s.inFlight = n) (h : s.Guarded) :
    s.wrong + s.inFlight ≤ mfaMaxFailures ∨ s.inFlight = 0 ∨ s.inFlight = 1 ∧ dueLockout s.wrong ∈ s.lockouts := by
  induction n generalizing s with
  | zero => exact .inr (.inl hflight)
  | succ n ih =>
    have hpos : 0 < s.inFlight := by omega
    obtain ⟨request, hmem, hrequest⟩ := List.countP_pos_iff.mp hpos
    obtain ⟨i, hi⟩ := List.mem_iff_getElem?.mp hmem
    obtain rfl : request = .checked := by simpa using hrequest
    have hstep : mfaStep s (.compareCode i false) = some (s.compareCode i false) := if_pos hi
    have hleave : (s.compareCode i false).inFlight + 1 = s.inFlight := inFlight_leave hi MfaRequest.noConfusion
    have hguarded : (s.compareCode i false).Guarded := by
      intro codes t ht
      refine h ((i, false) :: codes) t ?_
      rw [List.map_cons, exec, hstep]
      exact ht
    have hbounded : (s.compareCode i false).Bounded := hguarded [] _ rfl
    have hwrong : (MfaFact.wrong s.wrong s.lockouts).Fine := (bounded_note.mp hbounded).2
    have hafter : s.wrong + 1 + (s.compareCode i false).inFlight ≤ mfaMaxFailures ∨
        (s.compareCode i false).inFlight = 0 ∨
          (s.compareCode i false).inFlight = 1 ∧ dueLockout (s.wrong + 1) ∈ ([] : List Nat) :=
      ih (by omega) hguarded
    rcases hafter with hroom | hnone | ⟨-, hdue⟩
    · exact .inl (by omega)
    · rcases hwrong with hlimit | hdue
      · exact .inl (by omega)
      · exact .inr (.inr ⟨by omega, hdue⟩)
    · exact absurd hdue List.not_mem_nil

theorem guarded_iff_strong : s.Guarded ↔ s.Strong :=
  ⟨fun h => ⟨h [] s rfl, exposed_of_guarded s.inFlight rfl h⟩,
    fun h codes _ ht => (strong_comparisons codes h ht).bounded⟩

/-- Whatever the codes in flight are, guesses are bounded, nobody is kept out longer than announced and no duration
    overflows, throughout a run, exactly if its checks do right. -/
theorem guarded_iff : Always mfaStep Guarded start run ↔ Meets mfaStep Careful start run := by
  have hstart : start.Strong := ⟨fun _ h => absurd h List.not_mem_nil, .inr (.inl rfl)⟩
  have hannounced : start.Announced := by rintro time ⟨⟩
  refine always_iff_meets_of_inv (fun s call s' h hstep => announced_kept h hstep) ?_ hannounced
    (guarded_iff_strong.mpr hstart)
  intro s call s' ha h hstep
  rw [guarded_iff_strong]
  exact strong_step ha (guarded_iff_strong.mp h) hstep

/-- A wrong code, from the check to the expiry of the counter. -/
def wrongGuess (i : Nat) : List MfaCall :=
  [.arrive, .checkFailures i, .compareCode i false, .incrFailures i, .expireFailures i]

/-- After five wrong codes, who waits as long as was announced is refused again. -/
theorem refused_after_wait : ∃ t, exec mfaStep start ((List.range 5).flatMap wrongGuess ++
    [.arrive, .checkFailures 5, .setLockout 5, .tick 30, .arrive, .checkFailures 6]) = some t ∧
      .refused 30 (some 30) ∈ t.facts ∧ ¬t.Guarded := by
  refine ⟨_, rfl, by decide, fun h => ?_⟩
  have hbounded := h [] _ rfl
  have hfine := hbounded (.refused 30 (some 30)) (by decide)
  exact absurd (hfine 30 rfl) (by decide)

end Mfa

end Reiver.Website
