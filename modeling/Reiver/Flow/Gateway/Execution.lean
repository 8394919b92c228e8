import Reiver.Flow.Gateway.Types

/-! # Execution of a provider chain

The model of `retry_with_backoff` and `execute_chain` of `execution.rs` and of the error classes of `fallback.rs`. What
the providers answer is given: to each candidate, and to each attempt. -/

namespace Reiver.Flow

def isRetryableError : GatewayError → Bool
  | .rateLimitExceeded _ _ => true
  | .providerError _ status _ => decide (status = 429 ∨ (500 ≤ status ∧ status < 600))
  | .timeout _ => true
  | .networkError _ => true
  | _ => false

def shouldFallback : GatewayError → Bool
  | .rateLimitExceeded _ _ => true
  | .timeout _ => true
  | .networkError _ => true
  | .providerError _ status _ => decide ((401 ≤ status ∧ status ≤ 499) ∨ (500 ≤ status ∧ status < 600))
  | _ => false

inductive RetryOutcome (α : Type) where
  | success (result : α) (retries : Nat)
  | failed (error : GatewayError) (retries : Nat)

/-- Attempt after attempt, `remaining` of them after this one. -/
def retryFrom {α : Type} (operation : Nat → Except GatewayError α) : (remaining attempt : Nat) → RetryOutcome α
  | remaining, attempt =>
    match operation attempt with
    | .ok result => .success result attempt
    | .error error =>
      if !isRetryableError error then .failed error attempt
      else
        match remaining with
        | 0 => .failed error attempt
        | remaining + 1 => retryFrom operation remaining (attempt + 1)

def retryWithBackoff {α : Type} (maxRetries : Nat) (operation : Nat → Except GatewayError α) : RetryOutcome α :=
  retryFrom operation maxRetries 0

/-- What a chain meets: for each position whether its circuit is open and its provider degraded, and the answers to its
    attempts. -/
structure Answers (α : Type) where
  circuitOpen : Nat → Bool
  degraded : Nat → Bool
  attempt : Nat → Nat → Except GatewayError α

/-- `candidate` is history: of the candidate that served only the provider and the model are kept. -/
structure FallbackResult (α : Type) where
  result : α
  candidate : ProviderCandidate
  fallbackUsed : Bool
  retryCount : Nat

namespace FallbackResult
variable {α : Type}

def providerUsed (fb : FallbackResult α) : Provider := fb.candidate.provider

def modelUsed (fb : FallbackResult α) : String := fb.candidate.model

end FallbackResult

def skipReason (candidate : ProviderCandidate) (circuitOpen : Bool) : String :=
  if circuitOpen then candidate.provider.asStr ++ " circuit breaker is open"
  else candidate.provider.asStr ++ " is degraded (high P99 latency)"

/-- The chain from position `i` on. -/
def executeFrom {α : Type} (maxRetries : Nat) (answers : Answers α) (i totalRetries : Nat) (lastError : GatewayError) :
    List ProviderCandidate → Except GatewayError (FallbackResult α)
  | [] => .error lastError
  | candidate :: chain =>
    if answers.circuitOpen i || answers.degraded i then
      executeFrom maxRetries answers (i + 1) totalRetries
        (.timeout (skipReason candidate (answers.circuitOpen i))) chain
    else
      match retryWithBackoff maxRetries (answers.attempt i) with
      | .success result retries =>
        .ok { result, candidate, fallbackUsed := decide (0 < i), retryCount := totalRetries + retries }
      | .failed error retries =>
        if !shouldFallback error then .error error
        else executeFrom maxRetries answers (i + 1) (totalRetries + retries) error chain

def executeChain {α : Type} (maxRetries : Nat) (answers : Answers α) (chain : List ProviderCandidate) :
    Except GatewayError (FallbackResult α) :=
  executeFrom maxRetries answers 0 0 (.internalError "No provider candidates") chain

/-! ### What an execution returns -/

section Execution
variable {α : Type} {maxRetries : Nat} {answers : Answers α} {chain : List ProviderCandidate} {fb : FallbackResult α}

theorem retryFrom_success {operation : Nat → Except GatewayError α} {remaining attempt retries : Nat} {result : α}
    (h : retryFrom operation remaining attempt = .success result retries) : operation retries = .ok result := by
  induction remaining generalizing attempt with
  | zero =>
    rw [retryFrom] at h
    split at h
    · next hok =>
      cases h
      exact hok
    · split at h <;> cases h
  | succ remaining ih =>
    rw [retryFrom] at h
    split at h
    · next hok =>
      cases h
      exact hok
    · split at h
      · cases h
      · exact ih h

/-- The candidate at a position was called, and this is what it answered. -/
structure ServedAt (answers : Answers α) (fb : FallbackResult α) (i : Nat) : Prop where
  fallback : fb.fallbackUsed = decide (0 < i)
  closed : answers.circuitOpen i = false
  healthy : answers.degraded i = false
  answered : ∃ attempt, answers.attempt i attempt = .ok fb.result

theorem executeFrom_ok {i totalRetries : Nat} {lastError : GatewayError}
    (h : executeFrom maxRetries answers i totalRetries lastError chain = .ok fb) :
    ∃ k, chain[k]? = some fb.candidate ∧ ServedAt answers fb (i + k) := by
  induction chain generalizing i totalRetries lastError with
  | nil => cases h
  | cons candidate chain ih =>
    rw [executeFrom] at h
    split at h
    · obtain ⟨k, hk, hserved⟩ := ih h
      exact ⟨k + 1, hk, by rwa [Nat.add_right_comm, Nat.add_assoc] at hserved⟩
    · next hskip =>
      obtain ⟨hopen, hdegraded⟩ := Bool.or_eq_false_iff.mp (Bool.eq_false_iff.mpr hskip)
      split at h
      · next hsuccess =>
        cases h
        exact ⟨0, rfl, rfl, hopen, hdegraded, _, retryFrom_success hsuccess⟩
      · split at h
        · cases h
        · obtain ⟨k, hk, hserved⟩ := ih h
          exact ⟨k + 1, hk, by rwa [Nat.add_right_comm, Nat.add_assoc] at hserved⟩

theorem executeChain_ok (h : executeChain maxRetries answers chain = .ok fb) :
    ∃ k, chain[k]? = some fb.candidate ∧ ServedAt answers fb k := by
  obtain ⟨k, hk, hserved⟩ := executeFrom_ok h
  exact ⟨k, hk, by rwa [Nat.zero_add] at hserved⟩

end Execution

end Reiver.Flow
