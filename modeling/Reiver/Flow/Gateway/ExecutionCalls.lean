import Mathlib.Data.Finset.Card
import Reiver.Flow.Gateway.Execution

/-! # The calls of a chain

`retry_with_backoff` and `execute_chain` with every call they make and its answer. Which candidate serves, how often
each one is called, and what the reported retries count. -/

namespace Reiver.Flow.Logged

variable {α : Type}

/-- The answers to the calls, in their order, with the outcome. -/
def retryFrom (operation : Nat → Except GatewayError α) :
    (remaining attempt retries : Nat) → RetryOutcome α × List (Except GatewayError α)
  | remaining, attempt, retries =>
    let retries := if 0 < attempt then retries + 1 else retries
    match operation attempt with
    | .ok result => (.success result retries, [.ok result])
    | .error error =>
      if !isRetryableError error then (.failed error retries, [.error error])
      else
        match remaining with
        | 0 => (.failed error retries, [.error error])
        | remaining + 1 =>
          let (outcome, calls) := retryFrom operation remaining (attempt + 1) retries
          (outcome, .error error :: calls)

def retryWithBackoff (maxRetries : Nat) (operation : Nat → Except GatewayError α) :
    RetryOutcome α × List (Except GatewayError α) :=
  retryFrom operation maxRetries 0 0

/-- Calls with the position of their candidate. -/
abbrev Calls (α : Type) := List (Nat × Except GatewayError α)

/-- The chain from position `i` on. -/
def executeFrom (maxRetries : Nat) (answers : Answers α) (i totalRetries : Nat) (lastError : GatewayError) :
    List ProviderCandidate → Except GatewayError (FallbackResult α) × Calls α
  | [] => (.error lastError, [])
  | candidate :: chain =>
    if answers.circuitOpen i || answers.degraded i then
      executeFrom maxRetries answers (i + 1) totalRetries
        (.timeout (skipReason candidate (answers.circuitOpen i))) chain
    else
      let (outcome, calls) := retryWithBackoff maxRetries (answers.attempt i)
      let calls := calls.map fun answer => (i, answer)
      match outcome with
      | .success result retries =>
        (.ok { result, candidate, fallbackUsed := decide (0 < i), retryCount := totalRetries + retries }, calls)
      | .failed error retries =>
        if !shouldFallback error then (.error error, calls)
        else
          let (result, later) := executeFrom maxRetries answers (i + 1) (totalRetries + retries) error chain
          (result, calls ++ later)

def executeChain (maxRetries : Nat) (answers : Answers α) (chain : List ProviderCandidate) :
    Except GatewayError (FallbackResult α) × Calls α :=
  executeFrom maxRetries answers 0 0 (.internalError "No provider candidates") chain

/-! ### What a candidate comes to -/

/-- An answer after which the same candidate is called again. -/
def Retryable (answer : Except GatewayError α) : Prop := ∃ error, answer = .error error ∧ isRetryableError error = true

/-- The last of the calls, counted from `attempt`, that are made with at most `remaining` retries. -/
structure Stops (operation : Nat → Except GatewayError α) (remaining attempt k : Nat) : Prop where
  bound : k ≤ remaining
  before : ∀ j < k, Retryable (operation (attempt + j))
  last : Retryable (operation (attempt + k)) → k = remaining

def Succeeds (operation : Nat → Except GatewayError α) (remaining attempt : Nat) (result : α) : Prop :=
  ∃ k, Stops operation remaining attempt k ∧ operation (attempt + k) = .ok result

def Fails (operation : Nat → Except GatewayError α) (remaining attempt : Nat) (error : GatewayError) : Prop :=
  ∃ k, Stops operation remaining attempt k ∧ operation (attempt + k) = .error error

section Chain
variable (maxRetries : Nat) (answers : Answers α)

def Skipped (p : Nat) : Prop := answers.circuitOpen p = true ∨ answers.degraded p = true

def Serves (p : Nat) (result : α) : Prop := ¬Skipped answers p ∧ Succeeds (answers.attempt p) maxRetries 0 result

/-- If the candidate is called it fails with an error for another one. -/
def Passed (p : Nat) : Prop :=
  ¬Skipped answers p → ∃ error, Fails (answers.attempt p) maxRetries 0 error ∧ shouldFallback error = true

structure Follows (chain : List ProviderCandidate) (execution : Except GatewayError (FallbackResult α) × Calls α) :
    Prop where
  /-- It returns the response of the first candidate that serves, and only if all before it were passed. -/
  ok_iff : ∀ candidate result, (∃ fb, execution.1 = .ok fb ∧ fb.candidate = candidate ∧ fb.result = result) ↔
    ∃ p, chain[p]? = some candidate ∧ Serves maxRetries answers p result ∧ ∀ j < p, Passed maxRetries answers j
  bounded : ∀ p, execution.2.countP (·.1 = p) ≤ maxRetries + 1
  again : execution.2.Pairwise fun call later => call.1 = later.1 → Retryable call.2
  counted : ∀ fb, execution.1 = .ok fb → fb.retryCount + (execution.2.map Prod.fst).toFinset.card = execution.2.length

end Chain

/-! ### The retries of a call -/

section Retries
variable {operation : Nat → Except GatewayError α} {remaining attempt retries k k' : Nat} {result result' : α}
  {error error' : GatewayError}

theorem not_retryable_ok : ¬Retryable (Except.ok result : Except GatewayError α) := by
  rintro ⟨error, h, -⟩
  cases h

theorem retryable_error : Retryable (Except.error error : Except GatewayError α) ↔ isRetryableError error = true := by
  constructor
  · rintro ⟨error, h, hretryable⟩
    cases h
    exact hretryable
  · exact fun h => ⟨error, rfl, h⟩

theorem Stops.unique (h : Stops operation remaining attempt k) (h' : Stops operation remaining attempt k') :
    k = k' := by
  have := h.bound
  have := h'.bound
  rcases Nat.lt_trichotomy k k' with hlt | heq | hlt
  · have := h.last (h'.before k hlt)
    omega
  · exact heq
  · have := h'.last (h.before k' hlt)
    omega

theorem Succeeds.unique (h : Succeeds operation remaining attempt result)
    (h' : Succeeds operation remaining attempt result') : result = result' := by
  obtain ⟨k, hstops, hok⟩ := h
  obtain ⟨k', hstops', hok'⟩ := h'
  rw [hstops'.unique hstops, hok] at hok'
  exact Except.ok.inj hok'

theorem Fails.unique (h : Fails operation remaining attempt error) (h' : Fails operation remaining attempt error') :
    error = error' := by
  obtain ⟨k, hstops, herror⟩ := h
  obtain ⟨k', hstops', herror'⟩ := h'
  rw [hstops'.unique hstops, herror] at herror'
  exact Except.error.inj herror'

theorem Succeeds.not_fails (h : Succeeds operation remaining attempt result) :
    ¬Fails operation remaining attempt error := by
  rintro ⟨k', hstops', herror⟩
  obtain ⟨k, hstops, hok⟩ := h
  rw [hstops'.unique hstops, hok] at herror
  cases herror

theorem Stops.first (h : Retryable (operation attempt) → remaining = 0) : Stops operation remaining attempt 0 where
  bound := Nat.zero_le _
  before _ hj := absurd hj (Nat.not_lt_zero _)
  last hretry := (h hretry).symm

theorem Stops.next (hretry : Retryable (operation attempt)) (h : Stops operation remaining (attempt + 1) k) :
    Stops operation (remaining + 1) attempt (k + 1) where
  bound := Nat.succ_le_succ h.bound
  before j hj := by
    cases j with
    | zero => exact hretry
    | succ j =>
      have hbefore := h.before j (Nat.lt_of_succ_lt_succ hj)
      rwa [Nat.add_assoc, Nat.add_comm 1 j] at hbefore
  last hlast := by
    rw [show attempt + (k + 1) = attempt + 1 + k by omega] at hlast
    rw [h.last hlast]

theorem retries_eq (attempt : Nat) : (if 0 < attempt then attempt - 1 + 1 else attempt - 1) = attempt := by
  split <;> omega

theorem retryFrom_ok (hcall : operation attempt = .ok result) :
    retryFrom operation remaining attempt (attempt - 1) = (.success result attempt, [.ok result]) := by
  rw [retryFrom.eq_def]
  simp only [retries_eq, hcall]

theorem retryFrom_stop (hcall : operation attempt = .error error)
    (hstop : isRetryableError error = true → remaining = 0) :
    retryFrom operation remaining attempt (attempt - 1) = (.failed error attempt, [.error error]) := by
  rw [retryFrom.eq_def]
  simp only [retries_eq, hcall]
  cases hretryable : isRetryableError error with
  | false => simp
  | true => simp [hstop hretryable]

theorem retryFrom_again (hcall : operation attempt = .error error) (hretryable : isRetryableError error = true) :
    retryFrom operation (remaining + 1) attempt (attempt - 1) =
      ((retryFrom operation remaining (attempt + 1) attempt).1,
        .error error :: (retryFrom operation remaining (attempt + 1) attempt).2) := by
  rw [retryFrom, retries_eq, hcall]
  simp [hretryable]

/-- The calls of a retry loop: all answers up to where it stops, and as many retries as calls after the first. -/
theorem retryFrom_spec (operation : Nat → Except GatewayError α) (remaining attempt : Nat) :
    ∃ k, Stops operation remaining attempt k ∧
      (retryFrom operation remaining attempt (attempt - 1)).2 =
        (List.range (k + 1)).map (fun j => operation (attempt + j)) ∧
      ((∃ result, operation (attempt + k) = .ok result ∧
          (retryFrom operation remaining attempt (attempt - 1)).1 = .success result (attempt + k)) ∨
        ∃ error, operation (attempt + k) = .error error ∧
          (retryFrom operation remaining attempt (attempt - 1)).1 = .failed error (attempt + k)) := by
  have hanswer : (∃ result, operation attempt = .ok result) ∨ ∃ error, operation attempt = .error error := by
    cases operation attempt with
    | ok result => exact Or.inl ⟨result, rfl⟩
    | error error => exact Or.inr ⟨error, rfl⟩
  rcases hanswer with ⟨result, hcall⟩ | ⟨error, hcall⟩
  · refine ⟨0, .first fun h => absurd (hcall ▸ h) not_retryable_ok, ?_⟩
    rw [retryFrom_ok hcall]
    exact ⟨by simp [hcall], Or.inl ⟨result, hcall, rfl⟩⟩
  · by_cases hstop : isRetryableError error = true → remaining = 0
    · refine ⟨0, .first fun h => hstop (retryable_error.mp (hcall ▸ h)), ?_⟩
      rw [retryFrom_stop hcall hstop]
      exact ⟨by simp [hcall], Or.inr ⟨error, hcall, rfl⟩⟩
    · obtain ⟨hretryable, hleft⟩ := Classical.not_imp.mp hstop
      obtain ⟨remaining, rfl⟩ := Nat.exists_eq_succ_of_ne_zero hleft
      obtain ⟨k, hstops, hcalls, houtcome⟩ := retryFrom_spec operation remaining (attempt + 1)
      have hshift : ∀ j, attempt + 1 + j = attempt + (j + 1) := fun j => by omega
      simp only [Nat.add_sub_cancel, hshift] at hcalls houtcome
      refine ⟨k + 1, hstops.next (hcall ▸ retryable_error.mpr hretryable), ?_⟩
      rw [retryFrom_again hcall hretryable]
      refine ⟨?_, houtcome⟩
      have hrange : List.range (k + 1 + 1) = 0 :: (List.range (k + 1)).map Nat.succ := List.range_succ_eq_map
      rw [hrange, List.map_cons, List.map_map, show operation (attempt + 0) = .error error from hcall, hcalls]
      rfl

end Retries

/-! ### The chain -/

section Chain
variable {maxRetries : Nat} {answers : Answers α} {i k p totalRetries : Nat} {lastError : GatewayError}
  {chain : List ProviderCandidate} {calls : Calls α} {execution : Except GatewayError (FallbackResult α) × Calls α}

/-- The calls of one candidate, with `k` retries. -/
structure RetryCalls (maxRetries i k : Nat) (calls : Calls α) : Prop where
  bound : k ≤ maxRetries
  length : calls.length = k + 1
  position : ∀ call ∈ calls, call.1 = i
  again : calls.Pairwise fun call _ => Retryable call.2

theorem RetryCalls.pairwise (h : RetryCalls maxRetries i k calls) :
    calls.Pairwise fun call later => call.1 = later.1 → Retryable call.2 :=
  h.again.imp (S := fun (call later : Nat × Except GatewayError α) => call.1 = later.1 → Retryable call.2)
    fun hretry _ => hretry

theorem RetryCalls.toFinset (h : RetryCalls maxRetries i k calls) : (calls.map Prod.fst).toFinset = {i} := by
  have hmap : calls.map Prod.fst = List.replicate (k + 1) i := by
    rw [List.eq_replicate_iff]
    refine ⟨by rw [List.length_map, h.length], fun p hp => ?_⟩
    obtain ⟨call, hcall, rfl⟩ := List.mem_map.mp hp
    exact h.position call hcall
  rw [hmap, List.toFinset_replicate_of_ne_zero (Nat.succ_ne_zero k)]

theorem retryWithBackoff_spec (maxRetries i : Nat) (operation : Nat → Except GatewayError α) :
    ∃ k, RetryCalls maxRetries i k ((retryWithBackoff maxRetries operation).2.map fun answer => (i, answer)) ∧
      ((∃ result, Succeeds operation maxRetries 0 result ∧
          (retryWithBackoff maxRetries operation).1 = .success result k) ∨
        ∃ error, Fails operation maxRetries 0 error ∧ (retryWithBackoff maxRetries operation).1 = .failed error k) := by
  obtain ⟨k, hstops, hcalls, houtcome⟩ := retryFrom_spec operation maxRetries 0
  change (retryWithBackoff maxRetries operation).2 = _ at hcalls
  simp only [Nat.zero_add] at hcalls houtcome
  have hagain : ((List.range (k + 1)).map operation).Pairwise fun call _ => Retryable call := by
    rw [List.pairwise_map]
    refine List.pairwise_lt_range.imp_of_mem fun {j j'} _ hj' hlt => ?_
    have hretry := hstops.before j (by have := List.mem_range.mp hj'; omega)
    rwa [Nat.zero_add] at hretry
  refine ⟨k, ⟨hstops.bound, by simp [hcalls], by simp, ?_⟩, ?_⟩
  · rw [hcalls, List.pairwise_map]
    exact hagain
  · have hlast : ∀ answer, operation k = answer → operation (0 + k) = answer := fun _ h => by rwa [Nat.zero_add]
    rcases houtcome with ⟨result, hanswer, houtcome⟩ | ⟨error, hanswer, houtcome⟩
    · exact Or.inl ⟨result, ⟨k, hstops, hlast _ hanswer⟩, houtcome⟩
    · exact Or.inr ⟨error, ⟨k, hstops, hlast _ hanswer⟩, houtcome⟩

/-- What an execution does at its first candidate. -/
theorem executeFrom_cases (maxRetries : Nat) (answers : Answers α) (i totalRetries : Nat) (lastError : GatewayError)
    (candidate : ProviderCandidate) (chain : List ProviderCandidate) :
    (Skipped answers i ∧ ∃ lastError', executeFrom maxRetries answers i totalRetries lastError (candidate :: chain) =
      executeFrom maxRetries answers (i + 1) totalRetries lastError' chain) ∨
    ¬Skipped answers i ∧ ∃ k calls, RetryCalls maxRetries i k calls ∧
      ((∃ result, Succeeds (answers.attempt i) maxRetries 0 result ∧
          executeFrom maxRetries answers i totalRetries lastError (candidate :: chain) =
            (.ok { result, candidate, fallbackUsed := decide (0 < i), retryCount := totalRetries + k }, calls)) ∨
        ∃ error, Fails (answers.attempt i) maxRetries 0 error ∧
          (shouldFallback error = false ∧
              executeFrom maxRetries answers i totalRetries lastError (candidate :: chain) = (.error error, calls) ∨
            shouldFallback error = true ∧
              executeFrom maxRetries answers i totalRetries lastError (candidate :: chain) =
                ((executeFrom maxRetries answers (i + 1) (totalRetries + k) error chain).1,
                  calls ++ (executeFrom maxRetries answers (i + 1) (totalRetries + k) error chain).2))) := by
  rw [executeFrom]
  by_cases hskip : (answers.circuitOpen i || answers.degraded i) = true
  · exact Or.inl ⟨by simpa [Skipped] using hskip, _, if_pos hskip⟩
  · obtain ⟨k, hcalls, houtcome⟩ := retryWithBackoff_spec maxRetries i (answers.attempt i)
    refine Or.inr ⟨by simpa [Skipped] using hskip, k, _, hcalls, ?_⟩
    rw [if_neg hskip]
    rcases houtcome with ⟨result, hsucceeds, houtcome⟩ | ⟨error, hfails, houtcome⟩
    · exact Or.inl ⟨result, hsucceeds, by simp [houtcome]⟩
    · refine Or.inr ⟨error, hfails, ?_⟩
      cases hfallback : shouldFallback error with
      | false => exact Or.inl ⟨rfl, by simp [houtcome, hfallback]⟩
      | true => exact Or.inr ⟨rfl, by simp [houtcome, hfallback]⟩

theorem first_serves_cons {first candidate : ProviderCandidate} {result : α} :
    (∃ p, (first :: chain)[p]? = some candidate ∧ Serves maxRetries answers (i + p) result ∧
        ∀ j < p, Passed maxRetries answers (i + j)) ↔
      (first = candidate ∧ Serves maxRetries answers i result) ∨
        Passed maxRetries answers i ∧ ∃ p, chain[p]? = some candidate ∧ Serves maxRetries answers (i + 1 + p) result ∧
          ∀ j < p, Passed maxRetries answers (i + 1 + j) := by
  have hshift : ∀ j, i + 1 + j = i + (j + 1) := fun j => by omega
  simp only [hshift]
  constructor
  · rintro ⟨p, hp, hserves, hpassed⟩
    cases p with
    | zero => exact Or.inl ⟨Option.some.inj hp, hserves⟩
    | succ p =>
      exact Or.inr ⟨hpassed 0 (Nat.succ_pos p), p, hp, hserves, fun j hj => hpassed (j + 1) (Nat.succ_lt_succ hj)⟩
  · rintro (⟨rfl, hserves⟩ | ⟨hfirst, p, hp, hserves, hpassed⟩)
    · exact ⟨0, rfl, hserves, fun j hj => absurd hj (Nat.not_lt_zero j)⟩
    · refine ⟨p + 1, hp, hserves, fun j hj => ?_⟩
      cases j with
      | zero => exact hfirst
      | succ j => exact hpassed j (Nat.lt_of_succ_lt_succ hj)

theorem executeFrom_ok_iff {candidate : ProviderCandidate} {result : α} :
    (∃ fb, (executeFrom maxRetries answers i totalRetries lastError chain).1 = .ok fb ∧ fb.candidate = candidate ∧
        fb.result = result) ↔
      ∃ p, chain[p]? = some candidate ∧ Serves maxRetries answers (i + p) result ∧
        ∀ j < p, Passed maxRetries answers (i + j) := by
  induction chain generalizing i totalRetries lastError with
  | nil => simp [executeFrom]
  | cons first chain ih =>
    rw [first_serves_cons]
    rcases executeFrom_cases maxRetries answers i totalRetries lastError first chain with
      ⟨hskip, lastError', heq⟩ | ⟨hskip, k, calls, -, ⟨served, hsucceeds, heq⟩ | ⟨error, hfails, hfallback⟩⟩
    · have hpassed : Passed maxRetries answers i := fun hnot => absurd hskip hnot
      rw [heq, ih, or_iff_right fun h => h.2.1 hskip, and_iff_right hpassed]
    · have hnot : ¬Passed maxRetries answers i := by
        rintro hpassed
        obtain ⟨error, hfails, -⟩ := hpassed hskip
        exact hsucceeds.not_fails hfails
      rw [heq, or_iff_left fun h => hnot h.1]
      constructor
      · rintro ⟨fb, hok, rfl, rfl⟩
        cases hok
        exact ⟨rfl, hskip, hsucceeds⟩
      · rintro ⟨rfl, -, hserved⟩
        exact ⟨_, rfl, rfl, hsucceeds.unique hserved⟩
    · have hnot : ¬Serves maxRetries answers i result := fun h => h.2.not_fails hfails
      rw [or_iff_right fun h => hnot h.2]
      rcases hfallback with ⟨hstop, heq⟩ | ⟨hnext, heq⟩
      · rw [heq]
        refine iff_of_false (by rintro ⟨fb, hok, -⟩; cases hok) ?_
        rintro ⟨hpassed, -⟩
        obtain ⟨error', hfails', hfallback⟩ := hpassed hskip
        rw [hfails.unique hfails', hfallback] at hstop
        cases hstop
      · have hpassed : Passed maxRetries answers i := fun _ => ⟨error, hfails, hnext⟩
        rw [heq, ih, and_iff_right hpassed]

/-! ### The calls -/

/-- Calls from position `i` on, with `totalRetries` retries before them. -/
structure Accounted (maxRetries i totalRetries : Nat) (execution : Except GatewayError (FallbackResult α) × Calls α) :
    Prop where
  position : ∀ call ∈ execution.2, i ≤ call.1
  bounded : ∀ p, execution.2.countP (·.1 = p) ≤ maxRetries + 1
  again : execution.2.Pairwise fun call later => call.1 = later.1 → Retryable call.2
  counted : ∀ fb, execution.1 = .ok fb →
    fb.retryCount + (execution.2.map Prod.fst).toFinset.card = totalRetries + execution.2.length

theorem Accounted.nothing {error : GatewayError} :
    Accounted maxRetries i totalRetries (.error error, ([] : Calls α)) where
  position _ h := absurd h List.not_mem_nil
  bounded _ := Nat.zero_le _
  again := .nil
  counted _ h := by cases h

theorem Accounted.later (h : Accounted maxRetries (i + 1) totalRetries execution) :
    Accounted maxRetries i totalRetries execution :=
  { h with position := fun call hcall => (Nat.le_succ i).trans (h.position call hcall) }

theorem Accounted.append (hcalls : RetryCalls maxRetries i k calls)
    (h : Accounted maxRetries (i + 1) (totalRetries + k) execution) :
    Accounted maxRetries i totalRetries (execution.1, calls ++ execution.2) where
  position call hcall := by
    rcases List.mem_append.mp hcall with hcall | hcall
    · exact (hcalls.position call hcall).ge
    · exact (Nat.le_succ i).trans (h.position call hcall)
  bounded p := by
    rw [List.countP_append]
    by_cases hp : p = i
    · have hnone : execution.2.countP (·.1 = p) = 0 := by
        rw [List.countP_eq_zero]
        intro call hcall
        have := h.position call hcall
        simp only [decide_eq_true_eq]
        omega
      have hlength := hcalls.length
      have hbound := hcalls.bound
      have hle :=
        List.countP_le_length (p := fun call : Nat × Except GatewayError α => decide (call.1 = p)) (l := calls)
      omega
    · have hnone : calls.countP (·.1 = p) = 0 := by
        rw [List.countP_eq_zero]
        intro call hcall
        rw [hcalls.position call hcall, decide_eq_true_eq]
        exact Ne.symm hp
      rw [hnone, Nat.zero_add]
      exact h.bounded p
  again := by
    refine List.pairwise_append.mpr ⟨hcalls.pairwise, h.again, fun call hcall later hlater heq => ?_⟩
    have := hcalls.position call hcall
    have := h.position later hlater
    omega
  counted fb hfb := by
    have hcounted := h.counted fb hfb
    have hnotin : i ∉ (execution.2.map Prod.fst).toFinset := by
      intro hmem
      obtain ⟨call, hcall, hposition⟩ := List.mem_map.mp (List.mem_toFinset.mp hmem)
      have := h.position call hcall
      omega
    have hlength := hcalls.length
    rw [List.map_append, List.toFinset_append, hcalls.toFinset, Finset.singleton_union,
      Finset.card_insert_of_notMem hnotin, List.length_append]
    omega

theorem RetryCalls.accounted (h : RetryCalls maxRetries i k calls)
    {result : Except GatewayError (FallbackResult α)}
    (hresult : ∀ fb, result = .ok fb → fb.retryCount = totalRetries + k) :
    Accounted maxRetries i totalRetries (result, calls) where
  position call hcall := (h.position call hcall).ge
  bounded p := by
    have := h.length
    have := h.bound
    have := List.countP_le_length (p := fun call : Nat × Except GatewayError α => decide (call.1 = p)) (l := calls)
    dsimp only
    omega
  again := h.pairwise
  counted fb hfb := by
    rw [hresult fb hfb, h.toFinset, Finset.card_singleton, h.length]
    omega

theorem executeFrom_accounted (maxRetries : Nat) (answers : Answers α) (i totalRetries : Nat) (lastError : GatewayError)
    (chain : List ProviderCandidate) :
    Accounted maxRetries i totalRetries (executeFrom maxRetries answers i totalRetries lastError chain) := by
  induction chain generalizing i totalRetries lastError with
  | nil => exact .nothing
  | cons first chain ih =>
    rcases executeFrom_cases maxRetries answers i totalRetries lastError first chain with
      ⟨-, lastError', heq⟩ | ⟨-, k, calls, hcalls, ⟨served, -, heq⟩ | ⟨error, -, ⟨-, heq⟩ | ⟨-, heq⟩⟩⟩
    · rw [heq]
      exact (ih ..).later
    · rw [heq]
      refine hcalls.accounted fun fb hfb => ?_
      cases hfb
      rfl
    · rw [heq]
      refine hcalls.accounted fun fb hfb => ?_
      cases hfb
    · rw [heq]
      exact .append hcalls (ih ..)

/-- An execution follows its chain. -/
theorem executeChain_follows (maxRetries : Nat) (answers : Answers α) (chain : List ProviderCandidate) :
    Follows maxRetries answers chain (executeChain maxRetries answers chain) := by
  unfold executeChain
  have haccounted := executeFrom_accounted maxRetries answers 0 0 (.internalError "No provider candidates") chain
  refine ⟨fun candidate result => ?_, haccounted.bounded, haccounted.again, fun fb hfb => ?_⟩
  · have hok := @executeFrom_ok_iff α maxRetries answers 0 0 (.internalError "No provider candidates") chain candidate
      result
    simpa only [Nat.zero_add] using hok
  · rw [haccounted.counted fb hfb, Nat.zero_add]

/-! ### Without the log -/

theorem retryFrom_fst (operation : Nat → Except GatewayError α) (remaining attempt : Nat) :
    (retryFrom operation remaining attempt (attempt - 1)).1 = Flow.retryFrom operation remaining attempt := by
  induction remaining generalizing attempt with
  | zero =>
    rw [retryFrom, Flow.retryFrom, retries_eq]
    cases operation attempt with
    | ok result => rfl
    | error error =>
      dsimp only
      cases isRetryableError error <;> rfl
  | succ remaining ih =>
    rw [retryFrom, Flow.retryFrom, retries_eq]
    cases operation attempt with
    | ok result => rfl
    | error error =>
      dsimp only
      cases isRetryableError error with
      | false => rfl
      | true => exact ih (attempt + 1)

theorem executeChain_fst (maxRetries : Nat) (answers : Answers α) (chain : List ProviderCandidate) :
    (executeChain maxRetries answers chain).1 = Flow.executeChain maxRetries answers chain := by
  suffices h : ∀ i totalRetries lastError, (executeFrom maxRetries answers i totalRetries lastError chain).1 =
      Flow.executeFrom maxRetries answers i totalRetries lastError chain from h ..
  induction chain with
  | nil => exact fun _ _ _ => rfl
  | cons first chain ih =>
    intro i totalRetries lastError
    have hretry : (retryWithBackoff maxRetries (answers.attempt i)).1 =
        Flow.retryWithBackoff maxRetries (answers.attempt i) := retryFrom_fst (answers.attempt i) maxRetries 0
    rw [executeFrom, Flow.executeFrom, ← hretry]
    split
    · exact ih ..
    · dsimp only
      cases (retryWithBackoff maxRetries (answers.attempt i)).1 with
      | success result retries => rfl
      | failed error retries =>
        dsimp only
        cases shouldFallback error with
        | false => rfl
        | true => exact ih ..

end Chain

end Reiver.Flow.Logged
