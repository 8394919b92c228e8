import Reiver.Flow.Gateway.Types

/-! # The circuit breaker

The model of `circuit_breaker.rs`. Asking whether a circuit is open may itself take the probe of a circuit that has
cooled down, and only a recorded outcome gives it back. -/

namespace Reiver.Flow

/-- Times are milliseconds. `errorRateReached` compares the rate of failures among all outcomes with the threshold. -/
structure CircuitBreakerConfig where
  windowDuration : Nat := 60000
  errorRateReached : (failures total : Nat) → Bool := fun failures total => decide (total ≤ 2 * failures)
  minRequests : Nat := 5
  cooldownDuration : Nat := 30000

inductive CircuitState where
  | closed
  | opened (since : Nat)
  | halfOpen
deriving DecidableEq

structure Outcome where
  time : Nat
  success : Bool
deriving DecidableEq

/-- The circuit of a provider. The request that was admitted as the last probe is history. -/
structure ProviderCircuit where
  state : CircuitState := .closed
  window : List Outcome := []
  probeInFlight : Bool := false
  owner : Option Nat := none
deriving DecidableEq

namespace ProviderCircuit
variable (config : CircuitBreakerConfig) (now : Nat)

def evictExpired (circuit : ProviderCircuit) : ProviderCircuit :=
  { circuit with window := circuit.window.dropWhile fun outcome => outcome.time + config.windowDuration < now }

def failures (circuit : ProviderCircuit) : Nat := circuit.window.countP fun outcome => !outcome.success

/-- Whether the next request that asks is let through as the probe. -/
def AdmitsProbe (circuit : ProviderCircuit) : Prop :=
  match circuit.state with
  | .closed => False
  | .opened since => config.cooldownDuration ≤ now - since
  | .halfOpen => circuit.probeInFlight = false

instance (circuit : ProviderCircuit) : Decidable (circuit.AdmitsProbe config now) := by
  unfold AdmitsProbe
  split <;> infer_instance

/-- The answer to a request, with the circuit after it. -/
def isOpen (request : Nat) (circuit : ProviderCircuit) : ProviderCircuit × Bool :=
  match circuit.state with
  | .closed => (circuit, false)
  | .opened since =>
    if config.cooldownDuration ≤ now - since then
      ({ circuit with state := .halfOpen, probeInFlight := true, owner := some request }, false)
    else (circuit, true)
  | .halfOpen =>
    if circuit.probeInFlight then (circuit, true)
    else ({ circuit with probeInFlight := true, owner := some request }, false)

def push (success : Bool) (circuit : ProviderCircuit) : ProviderCircuit :=
  evictExpired config now { circuit with window := circuit.window ++ [{ time := now, success }] }

def recordSuccess (circuit : ProviderCircuit) : ProviderCircuit :=
  let circuit := circuit.push config now true
  match circuit.state with
  | .halfOpen => { circuit with state := .closed, probeInFlight := false, window := [] }
  | _ => circuit

def recordFailure (circuit : ProviderCircuit) : ProviderCircuit :=
  let circuit := circuit.push config now false
  match circuit.state with
  | .closed =>
    if config.minRequests ≤ circuit.window.length && config.errorRateReached circuit.failures circuit.window.length then
      { circuit with state := .opened now, probeInFlight := false }
    else circuit
  | .halfOpen => { circuit with state := .opened now, probeInFlight := false }
  | .opened _ => circuit

def record (success : Bool) (circuit : ProviderCircuit) : ProviderCircuit :=
  if success then circuit.recordSuccess config now else circuit.recordFailure config now

/-- A probe is out: every other request is turned away. -/
structure Probing (circuit : ProviderCircuit) : Prop where
  halfOpen : circuit.state = .halfOpen
  inFlight : circuit.probeInFlight = true

end ProviderCircuit

abbrev Circuits := Dict Provider ProviderCircuit

namespace Circuits
variable (config : CircuitBreakerConfig) (now : Nat)

def isOpen (circuits : Circuits) (request : Nat) (provider : Provider) : Circuits × Bool :=
  match circuits.lookup provider with
  | none => (circuits, false)
  | some circuit =>
    let (circuit, answer) := circuit.isOpen config now request
    (circuits.insert provider circuit, answer)

def record (circuits : Circuits) (provider : Provider) (success : Bool) : Circuits :=
  circuits.insert provider (((circuits.lookup provider).getD {}).record config now success)

/-- A request that asks for the provider now is its probe. -/
def AdmitsProbe (circuits : Circuits) (provider : Provider) : Prop :=
  ∃ circuit ∈ circuits.lookup provider, circuit.AdmitsProbe config now

instance (circuits : Circuits) (provider : Provider) : Decidable (circuits.AdmitsProbe config now provider) :=
  inferInstanceAs (Decidable (∃ circuit ∈ circuits.lookup provider, circuit.AdmitsProbe config now))

/-- The probe of the provider is out, for a request. -/
def ProbedBy (circuits : Circuits) (provider : Provider) (owner : Option Nat) : Prop :=
  ∃ circuit ∈ circuits.lookup provider, circuit.Probing ∧ circuit.owner = owner

end Circuits

/-! ### What the operations do to probes -/

namespace ProviderCircuit

theorem isOpen_cases (config : CircuitBreakerConfig) (now request : Nat) (circuit : ProviderCircuit) :
    (circuit.AdmitsProbe config now ∧ (circuit.isOpen config now request).2 = false ∧
      (circuit.isOpen config now request).1.Probing ∧
      (circuit.isOpen config now request).1.owner = some request) ∨
    (¬circuit.AdmitsProbe config now ∧ (circuit.isOpen config now request).1 = circuit) := by
  unfold AdmitsProbe isOpen
  cases hstate : circuit.state with
  | closed => exact .inr ⟨id, rfl⟩
  | opened since =>
    by_cases hcool : config.cooldownDuration ≤ now - since
    · simp only [if_pos hcool]
      exact .inl ⟨hcool, trivial, ⟨rfl, rfl⟩, trivial⟩
    · simp only [if_neg hcool]
      exact .inr ⟨hcool, trivial⟩
  | halfOpen =>
    by_cases hprobe : circuit.probeInFlight = true
    · simp only [if_pos hprobe]
      exact .inr ⟨fun hfree => Bool.false_ne_true (hfree.symm.trans hprobe), trivial⟩
    · simp only [if_neg hprobe]
      exact .inl ⟨Bool.eq_false_iff.mpr hprobe, trivial, ⟨rfl, rfl⟩, trivial⟩

variable {config : CircuitBreakerConfig} {now : Nat} {circuit : ProviderCircuit}

theorem not_probing_recordSuccess : ¬(circuit.recordSuccess config now).Probing := by
  rintro ⟨hstate, -⟩
  unfold recordSuccess at hstate
  dsimp only at hstate
  split at hstate
  · cases hstate
  · next hne => exact hne hstate

theorem not_probing_recordFailure : ¬(circuit.recordFailure config now).Probing := by
  rintro ⟨hstate, -⟩
  unfold recordFailure at hstate
  dsimp only at hstate
  split at hstate
  · next hclosed =>
    split at hstate
    · cases hstate
    · rw [hclosed] at hstate
      cases hstate
  · cases hstate
  · next hopened =>
    rw [hopened] at hstate
    cases hstate

theorem not_probing_record {success : Bool} : ¬(circuit.record config now success).Probing := by
  unfold record
  split
  · exact not_probing_recordSuccess
  · exact not_probing_recordFailure

end ProviderCircuit

namespace Circuits
variable {config : CircuitBreakerConfig} {now request : Nat} {circuits : Circuits} {provider other : Provider}
  {owner : Option Nat}

theorem probedBy_isOpen :
    (circuits.isOpen config now request provider).1.ProbedBy other owner ↔
      (circuits.AdmitsProbe config now provider ∧ other = provider ∧ owner = some request) ∨
      (¬(circuits.AdmitsProbe config now provider ∧ other = provider) ∧ circuits.ProbedBy other owner) := by
  unfold isOpen AdmitsProbe
  cases hlook : circuits.lookup provider with
  | none => simp
  | some circuit =>
    simp only [Option.mem_def, Option.some.injEq, exists_eq_left']
    by_cases hother : other = provider
    · subst hother
      unfold ProbedBy
      simp only [AList.lookup_insert, hlook, Option.mem_def, Option.some.injEq, exists_eq_left', and_true, true_and]
      rcases circuit.isOpen_cases config now request with ⟨hadmits, -, hprobing, howner⟩ | ⟨hnot, hsame⟩
      · simp [hadmits, hprobing, howner, eq_comm]
      · simp [hnot, hsame]
    · unfold ProbedBy
      simp [hother, AList.lookup_insert_ne hother]

theorem isOpen_of_admitsProbe (h : circuits.AdmitsProbe config now provider) :
    (circuits.isOpen config now request provider).2 = false := by
  obtain ⟨circuit, hlook, hadmits⟩ := h
  unfold isOpen
  rw [Option.mem_def.mp hlook]
  rcases circuit.isOpen_cases config now request with ⟨-, hanswer, -⟩ | ⟨hnot, -⟩
  · exact hanswer
  · exact absurd hadmits hnot

theorem probedBy_record {success : Bool} :
    (circuits.record config now provider success).ProbedBy other owner ↔
      other ≠ provider ∧ circuits.ProbedBy other owner := by
  unfold record ProbedBy
  by_cases hother : other = provider
  · subst hother
    simp only [AList.lookup_insert, Option.mem_def, Option.some.injEq, exists_eq_left', ne_eq, not_true_eq_false,
      false_and, iff_false, not_and]
    exact fun hprobing => absurd hprobing ProviderCircuit.not_probing_record
  · simp [hother, AList.lookup_insert_ne hother]

end Circuits

end Reiver.Flow
