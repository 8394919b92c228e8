import Reiver.Flow.Gateway.CircuitBreaker
import Reiver.Lib.Run

/-! # A half-open circuit

Requests to one provider, each of them admitted by its circuit and recording one outcome later. The circuit does not
know whose outcome it records, so a half-open one is also decided by requests that were admitted before it opened. -/

namespace Reiver.Flow

/-- A provider without a circuit has the one that is made for it. How often the circuit has opened, at which of these
    counts each request was admitted, and the last time the circuit opened or let a request through while it was not
    closed, are history. -/
structure ProviderTraffic where
  circuit : ProviderCircuit := {}
  now : Nat := 0
  inFlight : Dict Nat Nat := ∅
  openings : Nat := 0
  lastTurn : Nat := 0

inductive TrafficAction where
  | tick (milliseconds : Nat)
  | ask (request : Nat)
  | outcome (request : Nat) (success : Bool)

namespace ProviderTraffic
variable (config : CircuitBreakerConfig)

def askStep (t : ProviderTraffic) (request : Nat) : ProviderTraffic :=
  let answer := t.circuit.isOpen config t.now request
  if answer.2 then { t with circuit := answer.1 }
  else
    { t with
      circuit := answer.1
      inFlight := t.inFlight.insert request t.openings
      lastTurn := if t.circuit.state = .closed then t.lastTurn else t.now }

/-- The circuit opens when it leaves the closed state. -/
def outcomeStep (t : ProviderTraffic) (request : Nat) (success : Bool) : ProviderTraffic :=
  let circuit := t.circuit.record config t.now success
  let opens := t.circuit.state = .closed ∧ circuit.state ≠ .closed
  { t with
    circuit
    inFlight := t.inFlight.erase request
    openings := if opens then t.openings + 1 else t.openings
    lastTurn := if opens then t.now else t.lastTurn }

def step (t : ProviderTraffic) : TrafficAction → Option ProviderTraffic
  | .tick milliseconds => some { t with now := t.now + milliseconds }
  | .ask request => if request ∈ t.inFlight then none else some (t.askStep config request)
  | .outcome request success => if request ∈ t.inFlight then some (t.outcomeStep config request success) else none

/-! ### What must hold of a step -/

/-- The circuit was opened after the request was admitted. -/
def Stale (t : ProviderTraffic) (request : Nat) : Prop := ∃ admitted ∈ t.inFlight.lookup request, admitted < t.openings

/-- What a recorded outcome may do to a circuit that is not closed. -/
structure Decided (t : ProviderTraffic) (request : Nat) (success : Bool) : Prop where
  /-- The circuit is closed by the success of a request that was admitted after it opened. -/
  closes : t.circuit.state ≠ .closed → (t.circuit.record config t.now success).state = .closed →
    success = true ∧ ¬t.Stale request
  /-- A request that was admitted before it opened neither closes nor reopens it. -/
  stale : t.circuit.state ≠ .closed → t.Stale request →
    (t.circuit.record config t.now success).state = t.circuit.state
  /-- A half-open circuit is decided by its probe. -/
  probe : t.circuit.state = .halfOpen → t.circuit.owner = some request

/-- A request is let through by a circuit that is not closed a cooldown after the opening and after the last one. -/
def Promised (t : ProviderTraffic) : TrafficAction → Prop
  | .tick _ => True
  | .ask request => t.circuit.state ≠ .closed → (t.circuit.isOpen config t.now request).2 = false →
      t.lastTurn + config.cooldownDuration ≤ t.now
  | .outcome request success => t.Decided config request success

/-- No request that was admitted before the circuit opened ends while it is half-open. -/
def FreshOutcome (t : ProviderTraffic) : TrafficAction → Prop
  | .outcome request _ => t.circuit.state = .halfOpen → ¬t.Stale request
  | _ => True

end ProviderTraffic

/-! ### What an outcome does to the state -/

namespace ProviderCircuit
variable {config : CircuitBreakerConfig} {now : Nat} {circuit : ProviderCircuit} {success : Bool}

theorem record_opened {since : Nat} (h : circuit.state = .opened since) :
    (circuit.record config now success).state = .opened since := by
  cases success <;> simp [record, recordSuccess, recordFailure, push, evictExpired, h]

theorem record_halfOpen (h : circuit.state = .halfOpen) :
    (circuit.record config now success).state = if success then .closed else .opened now := by
  cases success <;> simp [record, recordSuccess, recordFailure, push, evictExpired, h]

theorem record_closed (h : circuit.state = .closed) :
    (circuit.record config now success).state = .closed ∨
      (circuit.record config now success).state = .opened now := by
  cases success with
  | true => exact Or.inl (by simp [record, recordSuccess, push, evictExpired, h])
  | false =>
    simp only [record, Bool.false_eq_true, if_false, recordFailure, push, evictExpired, h]
    split
    · exact Or.inr rfl
    · exact Or.inl rfl

theorem owner_record : (circuit.record config now success).owner = circuit.owner := by
  unfold record recordSuccess recordFailure push evictExpired
  cases success <;> simp only [Bool.false_eq_true, if_false, if_true] <;> split <;> (try split) <;> rfl

end ProviderCircuit

/-! ### What every step keeps -/

namespace ProviderTraffic
variable {config : CircuitBreakerConfig}

/-- While the circuit is not closed, only its probe was admitted after it opened. -/
structure Kept (t : ProviderTraffic) : Prop where
  turn : t.lastTurn ≤ t.now
  since : ∀ since, t.circuit.state = .opened since → t.lastTurn ≤ since
  probing : t.circuit.state = .halfOpen → t.circuit.probeInFlight = true
  counted : ∀ request admitted, t.inFlight.lookup request = some admitted → admitted ≤ t.openings
  current : ∀ request, t.inFlight.lookup request = some t.openings → t.circuit.state ≠ .closed →
    t.circuit.state = .halfOpen ∧ t.circuit.owner = some request

variable {t : ProviderTraffic} {request : Nat} {success : Bool}

theorem Kept.init : Kept {} where
  turn := Nat.le_refl _
  since _ h := by cases h
  probing h := by cases h
  counted _ _ h := by cases h
  current _ _ h := absurd rfl h

theorem Kept.probe_of_not_stale (h : Kept t) (hmem : request ∈ t.inFlight) (hstate : t.circuit.state ≠ .closed)
    (hfresh : ¬t.Stale request) : t.circuit.state = .halfOpen ∧ t.circuit.owner = some request := by
  obtain ⟨admitted, hlook⟩ := Dict.mem_iff_lookup.mp hmem
  have hle := h.counted request admitted hlook
  have hnot : ¬admitted < t.openings := fun hlt => hfresh ⟨admitted, hlook, hlt⟩
  obtain rfl : admitted = t.openings := by omega
  exact h.current request hlook hstate

theorem Kept.tick (h : Kept t) (milliseconds : Nat) : Kept { t with now := t.now + milliseconds } :=
  { h with turn := h.turn.trans (Nat.le_add_right _ _) }

theorem askStep_cases (hprobing : t.circuit.state = .halfOpen → t.circuit.probeInFlight = true) :
    t.circuit.state = .closed ∧
      t.askStep config request = { t with inFlight := t.inFlight.insert request t.openings } ∨
    (∃ since, t.circuit.state = .opened since ∧ config.cooldownDuration ≤ t.now - since ∧
      t.askStep config request =
        { t with
          circuit := { t.circuit with state := .halfOpen, probeInFlight := true, owner := some request }
          inFlight := t.inFlight.insert request t.openings
          lastTurn := t.now }) ∨
    (t.circuit.state ≠ .closed ∧ (t.circuit.isOpen config t.now request).2 = true ∧ t.askStep config request = t) := by
  unfold askStep ProviderCircuit.isOpen
  cases hstate : t.circuit.state with
  | closed => exact Or.inl ⟨rfl, by simp⟩
  | opened since =>
    by_cases hcool : config.cooldownDuration ≤ t.now - since
    · exact Or.inr (Or.inl ⟨since, rfl, hcool, by simp [hcool]⟩)
    · exact Or.inr (Or.inr ⟨by simp, by simp [hcool], by simp [hcool]⟩)
  | halfOpen => exact Or.inr (Or.inr ⟨by simp, by simp [hprobing hstate], by simp [hprobing hstate]⟩)

theorem Kept.ask (h : Kept t) : Kept (t.askStep config request) := by
  have hcounted : ∀ other admitted, (t.inFlight.insert request t.openings).lookup other = some admitted →
      admitted ≤ t.openings := by
    intro other admitted hlook
    rw [Dict.lookup_insert'] at hlook
    split at hlook
    · exact (Option.some.inj hlook).symm.le
    · exact h.counted other admitted hlook
  rcases askStep_cases h.probing with ⟨hstate, heq⟩ | ⟨since, hstate, -, heq⟩ | ⟨-, -, heq⟩
  · rw [heq]
    exact ⟨h.turn, h.since, h.probing, hcounted, fun _ _ hne => absurd hstate hne⟩
  · rw [heq]
    refine ⟨Nat.le_refl _, fun _ hopened => (by cases hopened), fun _ => rfl, hcounted, fun other hlook _ => ⟨rfl, ?_⟩⟩
    dsimp only at hlook
    rw [Dict.lookup_insert'] at hlook
    split at hlook
    · next hsame => rw [hsame]
    · exact absurd (h.current other hlook (by simp [hstate])).1 (by simp [hstate])
  · rw [heq]
    exact h

theorem outcomeStep_cases :
    (∃ since, t.circuit.state = .opened since ∧ (t.outcomeStep config request success).circuit.state = .opened since ∧
      (t.outcomeStep config request success).openings = t.openings ∧
      (t.outcomeStep config request success).lastTurn = t.lastTurn) ∨
    (t.circuit.state = .halfOpen ∧
      (t.outcomeStep config request success).circuit.state = (if success then .closed else .opened t.now) ∧
      (t.outcomeStep config request success).openings = t.openings ∧
      (t.outcomeStep config request success).lastTurn = t.lastTurn) ∨
    (t.circuit.state = .closed ∧ (t.outcomeStep config request success).circuit.state = .closed ∧
      (t.outcomeStep config request success).openings = t.openings ∧
      (t.outcomeStep config request success).lastTurn = t.lastTurn) ∨
    (t.circuit.state = .closed ∧ (t.outcomeStep config request success).circuit.state = .opened t.now ∧
      (t.outcomeStep config request success).openings = t.openings + 1 ∧
      (t.outcomeStep config request success).lastTurn = t.now) := by
  unfold outcomeStep
  cases hstate : t.circuit.state with
  | closed =>
    rcases @ProviderCircuit.record_closed config t.now t.circuit success hstate with hrec | hrec
    · exact Or.inr (Or.inr (Or.inl ⟨rfl, hrec, by simp [hrec], by simp [hrec]⟩))
    · exact Or.inr (Or.inr (Or.inr ⟨rfl, hrec, by simp [hrec], by simp [hrec]⟩))
  | opened since => exact Or.inl ⟨since, rfl, ProviderCircuit.record_opened hstate, by simp, by simp⟩
  | halfOpen => exact Or.inr (Or.inl ⟨rfl, ProviderCircuit.record_halfOpen hstate, by simp, by simp⟩)

theorem Kept.outcome (h : Kept t) (hmem : request ∈ t.inFlight) (hfresh : t.FreshOutcome (.outcome request success)) :
    Kept (t.outcomeStep config request success) := by
  have hlook' : ∀ {other admitted}, (t.outcomeStep config request success).inFlight.lookup other = some admitted →
      other ≠ request ∧ t.inFlight.lookup other = some admitted := by
    intro other admitted hlook
    change (t.inFlight.erase request).lookup other = some admitted at hlook
    rw [Dict.lookup_erase'] at hlook
    split at hlook
    · cases hlook
    · next hne => exact ⟨hne, hlook⟩
  have howner : (t.outcomeStep config request success).circuit.owner = t.circuit.owner := ProviderCircuit.owner_record
  have hnow : (t.outcomeStep config request success).now = t.now := rfl
  rcases @outcomeStep_cases config t request success with
    ⟨since, hold, hstate, hcount, hturn⟩ | ⟨hold, hstate, hcount, hturn⟩ | ⟨hold, hstate, hcount, hturn⟩ |
      ⟨hold, hstate, hcount, hturn⟩
  · refine ⟨by rw [hturn, hnow]; exact h.turn, fun s hs => ?_, fun hhalf => ?_, fun other admitted hlook => ?_,
      fun other hlook _ => ?_⟩
    · rw [hstate] at hs
      rw [hturn, ← CircuitState.opened.inj hs]
      exact h.since since hold
    · rw [hstate] at hhalf
      cases hhalf
    · rw [hcount]
      exact h.counted other admitted (hlook' hlook).2
    · rw [hcount] at hlook
      have hhalf := (h.current other (hlook' hlook).2 (by simp [hold])).1
      rw [hold] at hhalf
      cases hhalf
  · have hprobe := (h.probe_of_not_stale hmem (by simp [hold]) (hfresh hold)).2
    refine ⟨by rw [hturn, hnow]; exact h.turn, fun s hs => ?_, fun hhalf => ?_, fun other admitted hlook => ?_,
      fun other hlook _ => ?_⟩
    · rw [hstate] at hs
      cases success with
      | true => cases hs
      | false => rw [hturn, ← CircuitState.opened.inj hs]; exact h.turn
    · rw [hstate] at hhalf
      cases success <;> cases hhalf
    · rw [hcount]
      exact h.counted other admitted (hlook' hlook).2
    · rw [hcount] at hlook
      have howner' := (h.current other (hlook' hlook).2 (by simp [hold])).2
      exact absurd (Option.some.inj (howner'.symm.trans hprobe)) (hlook' hlook).1
  · refine ⟨by rw [hturn, hnow]; exact h.turn, fun s hs => ?_, fun hhalf => ?_, fun other admitted hlook => ?_,
      fun _ _ hne => absurd hstate hne⟩
    · rw [hstate] at hs
      cases hs
    · rw [hstate] at hhalf
      cases hhalf
    · rw [hcount]
      exact h.counted other admitted (hlook' hlook).2
  · refine ⟨by rw [hturn, hnow], fun s hs => ?_, fun hhalf => ?_, fun other admitted hlook => ?_,
      fun other hlook _ => ?_⟩
    · rw [hstate] at hs
      rw [hturn, ← CircuitState.opened.inj hs]
    · rw [hstate] at hhalf
      cases hhalf
    · rw [hcount]
      exact (h.counted other admitted (hlook' hlook).2).trans (Nat.le_succ _)
    · rw [hcount] at hlook
      have hle := h.counted other _ (hlook' hlook).2
      omega

theorem Kept.step {t' : ProviderTraffic} {a : TrafficAction} (h : Kept t) (hfresh : t.FreshOutcome a)
    (hstep : t.step config a = some t') : Kept t' := by
  cases a with
  | tick milliseconds =>
    cases hstep
    exact h.tick milliseconds
  | ask request =>
    rw [ProviderTraffic.step] at hstep
    split at hstep
    · cases hstep
    · cases hstep
      exact h.ask
  | outcome request success =>
    rw [ProviderTraffic.step] at hstep
    split at hstep
    · next hmem =>
      cases hstep
      exact h.outcome hmem hfresh
    · cases hstep

/-! ### Only the probe decides -/

theorem Kept.promised_ask (h : Kept t) : t.Promised config (.ask request) := by
  intro hstate hadmitted
  rcases @askStep_cases config t request h.probing with
    ⟨hclosed, -⟩ | ⟨since, hopened, hcool, -⟩ | ⟨-, hrefused, -⟩
  · exact absurd hclosed hstate
  · have hsince := h.since since hopened
    have hturn := h.turn
    omega
  · rw [hrefused] at hadmitted
    cases hadmitted

theorem Kept.decided_iff (h : Kept t) (hmem : request ∈ t.inFlight) :
    t.Decided config request success ↔ t.FreshOutcome (.outcome request success) := by
  constructor
  · intro hdecided hhalf hstale
    have hsame := hdecided.stale (by simp [hhalf]) hstale
    rw [ProviderCircuit.record_halfOpen hhalf, hhalf] at hsame
    cases success <;> cases hsame
  · intro hfresh
    refine ⟨fun hstate hclosed => ?_, fun hstate hstale => ?_, fun hhalf => ?_⟩
    · cases hold : t.circuit.state with
      | closed => exact absurd hold hstate
      | opened since =>
        rw [ProviderCircuit.record_opened hold] at hclosed
        cases hclosed
      | halfOpen =>
        rw [ProviderCircuit.record_halfOpen hold] at hclosed
        cases success with
        | false => cases hclosed
        | true => exact ⟨rfl, hfresh hold⟩
    · cases hold : t.circuit.state with
      | closed => exact absurd hold hstate
      | opened since => exact ProviderCircuit.record_opened hold
      | halfOpen => exact absurd hstale (hfresh hold)
    · exact (h.probe_of_not_stale hmem (by simp [hhalf]) (hfresh hhalf)).2

/-- Only the probe decides a half-open circuit throughout a run exactly if no request that was admitted before the
    circuit opened ends while it is half-open. -/
theorem promised_iff_fresh (config : CircuitBreakerConfig) (run : List TrafficAction) :
    Meets (step config) (Promised config) {} run ↔ Meets (step config) FreshOutcome {} run := by
  refine meets_iff_of_inv (fun t a t' h hfresh hstep => h.step hfresh hstep) (fun t a t' h hstep => ?_) Kept.init
  cases a with
  | tick milliseconds => exact Iff.rfl
  | ask request => exact iff_of_true h.promised_ask trivial
  | outcome request success =>
    rw [ProviderTraffic.step] at hstep
    split at hstep
    · next hmem => exact h.decided_iff hmem
    · cases hstep

/-- Six requests are admitted and five of them fail, so the circuit opens. When it has cooled down a probe is let
    through. -/
def probeOut : List TrafficAction :=
  (List.range 6).map .ask ++ (List.range 5).map (.outcome · false) ++ [.tick 30000, .ask 6]

/-- The sixth request, admitted before the circuit opened, closes it while the probe is still out. -/
theorem closed_by_late_success : ¬∀ config run, Meets (step config) (Promised config) {} run := by
  intro h
  obtain ⟨t, hrun, hhalf, hlook, hopenings⟩ : ∃ t, exec (step {}) {} probeOut = some t ∧
      t.circuit.state = .halfOpen ∧ t.inFlight.lookup 5 = some 0 ∧ t.openings = 1 := ⟨_, rfl, rfl, rfl, rfl⟩
  have hlast := ((meets_append hrun).mp (h {} (probeOut ++ [.outcome 5 true]))).2
  have hmem : 5 ∈ t.inFlight := Dict.mem_iff_lookup.mpr ⟨0, hlook⟩
  have hdecided := (hlast _ (if_pos hmem)).1.stale (by simp [hhalf]) ⟨0, hlook, by simp [hopenings]⟩
  rw [ProviderCircuit.record_halfOpen hhalf, hhalf] at hdecided
  cases hdecided

end ProviderTraffic

end Reiver.Flow
