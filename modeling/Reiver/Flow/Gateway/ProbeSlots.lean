import Reiver.Lib.Run
import Reiver.Flow.Gateway.CircuitBreaker

/-! # Probe slots

Requests of both kinds on one circuit breaker, in any interleaving. The streaming executor records an outcome for every
candidate it calls; the other one records nothing, and its handler records one outcome for the first provider of the
chain. A probe that is admitted anywhere else is never answered, nor is one whose request is dropped because its client
has gone (`slots_kept_iff`). -/

namespace Reiver.Flow

/-- Where a request is. `selecting i` is about to look at the candidate at `i`, `executed` has left the chain with the
    position that served it, and `retrying` is in the second call of the output contract. -/
inductive Phase where
  | selecting (i : Nat)
  | calling (i : Nat)
  | executed (served : Option Nat)
  | recorded
  | retrying
  | finished
deriving DecidableEq

/-- Of the candidates of a chain, the breaker sees the providers. -/
structure ProbingRequest where
  streaming : Bool
  primary : Provider
  fallbacks : List Provider := []
  phase : Phase := .selecting 0
deriving DecidableEq

namespace ProbingRequest

def chain (r : ProbingRequest) : List Provider := r.primary :: r.fallbacks

def goTo (r : ProbingRequest) (phase : Phase) : ProbingRequest := { r with phase }

/-- The chain is left: the streaming executor returns, the handler of the other one goes on. -/
def leave (r : ProbingRequest) (served : Option Nat) : ProbingRequest :=
  r.goTo (if r.streaming then .finished else .executed served)

end ProbingRequest

/-- What the retries of a call come to. -/
inductive CallOutcome where
  | success
  | failure (shouldFallback : Bool)
deriving DecidableEq

structure BreakerTraffic where
  circuits : Circuits := ∅
  now : Nat := 0
  requests : Dict Nat ProbingRequest := ∅

/-- `look` asks the breaker about the next candidate, or, after the handler has recorded, about the candidate of the
    output contract's second call. `record` is the accounting of the handler. `drop` ends a request that waits. -/
inductive BreakerAction where
  | tick (milliseconds : Nat)
  | start (id : Nat) (streaming : Bool) (primary : Provider) (fallbacks : List Provider)
  | look (id : Nat) (degraded : Bool)
  | answer (id : Nat) (outcome : CallOutcome)
  | record (id : Nat)
  | finish (id : Nat)
  | drop (id : Nat)

namespace BreakerTraffic
variable (config : CircuitBreakerConfig)

def put (t : BreakerTraffic) (id : Nat) (r : ProbingRequest) : BreakerTraffic :=
  { t with requests := t.requests.insert id r }

/-- The breaker is asked about a provider: `admitted` if the call is made, else `skipped`. -/
def ask (t : BreakerTraffic) (id : Nat) (r : ProbingRequest) (provider : Provider) (degraded : Bool)
    (admitted skipped : Phase) : BreakerTraffic :=
  let (circuits, circuitOpen) := t.circuits.isOpen config t.now id provider
  { t with circuits }.put id (r.goTo (if circuitOpen || degraded then skipped else admitted))

def lookStep (t : BreakerTraffic) (id : Nat) (r : ProbingRequest) (degraded : Bool) : Option BreakerTraffic :=
  match r.phase with
  | .selecting i =>
    match r.chain[i]? with
    | none => some (t.put id (r.leave none))
    | some provider => some (t.ask config id r provider degraded (.calling i) (.selecting (i + 1)))
  | .recorded => some (t.ask config id r r.primary degraded .retrying .finished)
  | _ => none

/-- The streaming executor records the outcome at once. -/
def answerStep (t : BreakerTraffic) (id : Nat) (r : ProbingRequest) (outcome : CallOutcome) : Option BreakerTraffic :=
  match r.phase with
  | .calling i =>
    let next := match outcome with
      | .success => r.leave (some i)
      | .failure shouldFallback => if shouldFallback then r.goTo (.selecting (i + 1)) else r.leave none
    if r.streaming then
      (r.chain[i]?).map fun provider =>
        { t with circuits := t.circuits.record config t.now provider (outcome = CallOutcome.success) }.put id next
    else some (t.put id next)
  | .retrying => some (t.put id (r.goTo .finished))
  | _ => none

/-- A success of the first candidate is one, everything else is a failure, and both are the first provider's. An error
    ends the request. -/
def recordStep (t : BreakerTraffic) (id : Nat) (r : ProbingRequest) : Option BreakerTraffic :=
  match r.phase with
  | .executed served =>
    let circuits := t.circuits.record config t.now r.primary (served = some 0)
    some ({ t with circuits }.put id (r.goTo (if served.isSome then .recorded else .finished)))
  | _ => none

def finishStep (t : BreakerTraffic) (id : Nat) (r : ProbingRequest) : Option BreakerTraffic :=
  match r.phase with
  | .recorded => some (t.put id (r.goTo .finished))
  | _ => none

/-- The future of the handler is dropped where it awaits a provider, the session budget or the guardrails. -/
def dropStep (t : BreakerTraffic) (id : Nat) (r : ProbingRequest) : Option BreakerTraffic :=
  match r.phase with
  | .calling _ | .recorded | .retrying => some (t.put id (r.goTo .finished))
  | _ => none

def step (t : BreakerTraffic) : BreakerAction → Option BreakerTraffic
  | .tick milliseconds => some { t with now := t.now + milliseconds }
  | .start id streaming primary fallbacks =>
    if id ∈ t.requests then none else some (t.put id { streaming, primary, fallbacks })
  | .look id degraded => (t.requests.lookup id).bind fun r => t.lookStep config id r degraded
  | .answer id outcome => (t.requests.lookup id).bind fun r => t.answerStep config id r outcome
  | .record id => (t.requests.lookup id).bind fun r => t.recordStep config id r
  | .finish id => (t.requests.lookup id).bind fun r => t.finishStep id r
  | .drop id => (t.requests.lookup id).bind fun r => t.dropStep id r

end BreakerTraffic

/-! ### What must hold of probes -/

/-- The request has an outcome to record for the provider, whatever it meets: it is in a call of the streaming executor
    to it, or its handler still has to account for it. -/
def ProbingRequest.WillRecord (r : ProbingRequest) (provider : Provider) : Prop :=
  match r.phase with
  | .selecting _ => r.streaming = false ∧ r.primary = provider
  | .calling i => if r.streaming then r.chain[i]? = some provider else r.primary = provider
  | .executed _ => r.primary = provider
  | _ => False

namespace BreakerTraffic
variable (config : CircuitBreakerConfig)

/-- The probe of every provider is out for a request that will record its outcome. -/
def SlotsKept (t : BreakerTraffic) : Prop :=
  ∀ provider owner, t.circuits.ProbedBy provider owner →
    ∃ id ∈ owner, ∃ r ∈ t.requests.lookup id, r.WillRecord provider

/-- If the question that the request asks next admits a probe, it is for a candidate that the streaming executor goes on
    to call, or for the first provider of a chain of the other executor. -/
def AdmitsFor (t : BreakerTraffic) (degraded : Bool) (r : ProbingRequest) : Prop :=
  match r.phase with
  | .selecting i => ∀ provider ∈ r.chain[i]?, t.circuits.AdmitsProbe config t.now provider →
    if r.streaming then degraded = false else provider = r.primary
  | .recorded => ¬t.circuits.AdmitsProbe config t.now r.primary
  | _ => True

/-- A probe is admitted only where it is recorded, and a request that is dropped has none out. -/
def AdmitsForRecord (t : BreakerTraffic) : BreakerAction → Prop
  | .look id degraded => ∀ r ∈ t.requests.lookup id, AdmitsFor config t degraded r
  | .drop id => ∀ provider, ¬t.circuits.ProbedBy provider (some id)
  | _ => True

def Idle (t : BreakerTraffic) : Prop := ∀ id, ∀ r ∈ t.requests.lookup id, r.phase = .finished

/-- A circuit of the provider that has opened has also cooled down. -/
def Cooled (t : BreakerTraffic) (provider : Provider) : Prop :=
  ∀ circuit ∈ t.circuits.lookup provider, ∀ since, circuit.state = .opened since →
    config.cooldownDuration ≤ t.now - since

end BreakerTraffic

/-! ### Requests -/

namespace ProbingRequest
variable {r : ProbingRequest} {provider : Provider} {phase : Phase} {i : Nat}

theorem willRecord_of_phase (h : r.phase = phase) : r.WillRecord provider ↔ (r.goTo phase).WillRecord provider := by
  subst h
  exact Iff.rfl

@[simp] theorem willRecord_selecting :
    (r.goTo (.selecting i)).WillRecord provider ↔ r.streaming = false ∧ r.primary = provider := Iff.rfl

@[simp] theorem willRecord_calling : (r.goTo (.calling i)).WillRecord provider ↔
    if r.streaming then r.chain[i]? = some provider else r.primary = provider := Iff.rfl

@[simp] theorem willRecord_executed {served : Option Nat} :
    (r.goTo (.executed served)).WillRecord provider ↔ r.primary = provider := Iff.rfl

@[simp] theorem not_willRecord_recorded : ¬(r.goTo .recorded).WillRecord provider := id

@[simp] theorem not_willRecord_retrying : ¬(r.goTo .retrying).WillRecord provider := id

@[simp] theorem not_willRecord_finished : ¬(r.goTo .finished).WillRecord provider := id

theorem willRecord_leave {served : Option Nat} :
    (r.leave served).WillRecord provider ↔ r.streaming = false ∧ r.primary = provider := by
  unfold leave
  cases r.streaming <;> simp

theorem WillRecord.of_selecting (h : r.WillRecord provider) (hphase : r.phase = .selecting i) :
    r.streaming = false ∧ r.primary = provider := (willRecord_of_phase hphase).mp h

theorem WillRecord.of_calling (h : r.WillRecord provider) (hphase : r.phase = .calling i)
    (hstreaming : r.streaming = false) : r.primary = provider := by
  have hcalling := (willRecord_of_phase hphase).mp h
  rwa [willRecord_calling, hstreaming, if_neg Bool.false_ne_true] at hcalling

end ProbingRequest

/-! ### One step -/

namespace BreakerTraffic
variable {config : CircuitBreakerConfig} {t t' : BreakerTraffic} {id : Nat} {r r' : ProbingRequest}
  {provider : Provider}

theorem lookup_put (k : Nat) : (t.put id r).requests.lookup k = if k = id then some r else t.requests.lookup k :=
  Dict.lookup_insert' _ _ _ _

theorem SlotsKept.put {circuits : Circuits} (h : SlotsKept t) (hlook : t.requests.lookup id = some r)
    (hprobes : ∀ p owner, circuits.ProbedBy p owner → t.circuits.ProbedBy p owner)
    (hkeep : ∀ p, circuits.ProbedBy p (some id) → r.WillRecord p → r'.WillRecord p) :
    SlotsKept ({ t with circuits }.put id r') := by
  intro p owner hprobed
  obtain ⟨k, hk, s, hs, hwill⟩ := h p owner (hprobes p owner hprobed)
  refine ⟨k, hk, ?_⟩
  rw [lookup_put]
  by_cases hid : k = id
  · subst hid
    cases hlook.symm.trans hs
    rw [if_pos rfl]
    exact ⟨r', rfl, hkeep p (Option.mem_def.mp hk ▸ hprobed) hwill⟩
  · rw [if_neg hid]
    exact ⟨s, hs, hwill⟩

theorem slotsKept_ask {degraded : Bool} {admitted skipped : Phase} (h : SlotsKept t)
    (hlook : t.requests.lookup id = some r)
    (hadmitted : ∀ p, r.WillRecord p → (r.goTo admitted).WillRecord p)
    (hskipped : ∀ p, r.WillRecord p → (r.goTo skipped).WillRecord p) :
    SlotsKept (t.ask config id r provider degraded admitted skipped) ↔
      (t.circuits.AdmitsProbe config t.now provider →
        (r.goTo (if degraded then skipped else admitted)).WillRecord provider) := by
  unfold ask
  dsimp only
  constructor
  · intro hkept hadmits
    obtain ⟨k, hk, s, hs, hwill⟩ := hkept provider (some id)
      (Circuits.probedBy_isOpen.mpr (.inl ⟨hadmits, rfl, rfl⟩))
    cases hk
    rw [lookup_put, if_pos rfl] at hs
    cases hs
    rwa [Circuits.isOpen_of_admitsProbe hadmits, Bool.false_or] at hwill
  · intro hwill p owner hprobed
    rcases Circuits.probedBy_isOpen.mp hprobed with ⟨hadmits, rfl, rfl⟩ | ⟨-, hbefore⟩
    · refine ⟨id, rfl, _, ?_, hwill hadmits⟩
      rw [lookup_put, if_pos rfl, Circuits.isOpen_of_admitsProbe hadmits, Bool.false_or]
      rfl
    · obtain ⟨k, hk, s, hs, hwill⟩ := h p owner hbefore
      refine ⟨k, hk, ?_⟩
      rw [lookup_put]
      by_cases hid : k = id
      · subst hid
        cases hlook.symm.trans hs
        rw [if_pos rfl]
        refine ⟨_, rfl, ?_⟩
        split
        · exact hskipped p hwill
        · exact hadmitted p hwill
      · rw [if_neg hid]
        exact ⟨s, hs, hwill⟩

theorem slotsKept_lookStep {degraded : Bool} (h : SlotsKept t) (hlook : t.requests.lookup id = some r)
    (hstep : t.lookStep config id r degraded = some t') :
    SlotsKept t' ↔ AdmitsForRecord config t (.look id degraded) := by
  have hcond : AdmitsForRecord config t (.look id degraded) ↔ AdmitsFor config t degraded r := by
    simp only [AdmitsForRecord, hlook, Option.mem_def, Option.some.injEq, forall_eq']
  rw [hcond]
  unfold lookStep at hstep
  unfold AdmitsFor
  cases hphase : r.phase with
  | selecting i =>
    simp only [hphase] at hstep ⊢
    cases hchain : r.chain[i]? with
    | none =>
      simp only [hchain] at hstep ⊢
      cases hstep
      refine iff_of_true (h.put hlook (fun _ _ hprobed => hprobed) fun p _ hwill => ?_) fun _ hp => nomatch hp
      exact ProbingRequest.willRecord_leave.mpr (hwill.of_selecting hphase)
    | some provider =>
      simp only [hchain] at hstep ⊢
      cases hstep
      have hskipped : ∀ p, r.WillRecord p → (r.goTo (.selecting (i + 1))).WillRecord p := fun p hwill =>
        hwill.of_selecting hphase
      have hadmitted : ∀ p, r.WillRecord p → (r.goTo (.calling i)).WillRecord p := by
        intro p hwill
        obtain ⟨hstreaming, hprimary⟩ := hwill.of_selecting hphase
        rwa [ProbingRequest.willRecord_calling, hstreaming, if_neg Bool.false_ne_true]
      rw [slotsKept_ask h hlook hadmitted hskipped]
      simp only [Option.mem_def, Option.some.injEq, forall_eq']
      refine imp_congr_right fun _ => ?_
      cases hstreaming : r.streaming <;> cases degraded <;> simp [hstreaming, hchain, eq_comm]
  | recorded =>
    simp only [hphase] at hstep ⊢
    cases hstep
    have hnot : ∀ p, ¬r.WillRecord p := fun p hwill =>
      ProbingRequest.not_willRecord_recorded ((ProbingRequest.willRecord_of_phase hphase).mp hwill)
    rw [slotsKept_ask h hlook (fun p hwill => absurd hwill (hnot p)) fun p hwill => absurd hwill (hnot p)]
    refine imp_congr_right fun _ => iff_of_false ?_ not_false
    cases degraded <;> simp
  | calling i => simp [hphase] at hstep
  | executed served => simp [hphase] at hstep
  | retrying => simp [hphase] at hstep
  | finished => simp [hphase] at hstep

theorem SlotsKept.answerStep {outcome : CallOutcome} (h : SlotsKept t) (hlook : t.requests.lookup id = some r)
    (hstep : t.answerStep config id r outcome = some t') : SlotsKept t' := by
  unfold BreakerTraffic.answerStep at hstep
  split at hstep
  · next i hphase =>
    dsimp only at hstep
    split at hstep
    · next hstreaming =>
      obtain ⟨provider, hchain, rfl⟩ := Option.map_eq_some_iff.mp hstep
      refine h.put hlook (fun _ _ hprobed => (Circuits.probedBy_record.mp hprobed).2) fun p hprobed hwill => ?_
      have hcalled := (ProbingRequest.willRecord_of_phase hphase).mp hwill
      rw [ProbingRequest.willRecord_calling, if_pos hstreaming, hchain, Option.some.injEq] at hcalled
      exact absurd hcalled.symm (Circuits.probedBy_record.mp hprobed).1
    · next hstreaming =>
      cases hstep
      have hstreaming := Bool.eq_false_iff.mpr hstreaming
      refine h.put hlook (fun _ _ hprobed => hprobed) fun p _ hwill => ?_
      have hprimary := hwill.of_calling hphase hstreaming
      cases outcome with
      | success => exact ProbingRequest.willRecord_leave.mpr ⟨hstreaming, hprimary⟩
      | failure shouldFallback =>
        cases shouldFallback with
        | true => exact ⟨hstreaming, hprimary⟩
        | false => exact ProbingRequest.willRecord_leave.mpr ⟨hstreaming, hprimary⟩
  · next hphase =>
    cases hstep
    refine h.put hlook (fun _ _ hprobed => hprobed) fun p _ hwill => ?_
    exact absurd ((ProbingRequest.willRecord_of_phase hphase).mp hwill) ProbingRequest.not_willRecord_retrying
  · cases hstep

theorem SlotsKept.recordStep (h : SlotsKept t) (hlook : t.requests.lookup id = some r)
    (hstep : t.recordStep config id r = some t') : SlotsKept t' := by
  unfold BreakerTraffic.recordStep at hstep
  split at hstep
  · next served hphase =>
    cases hstep
    refine h.put hlook (fun _ _ hprobed => (Circuits.probedBy_record.mp hprobed).2) fun p hprobed hwill => ?_
    have hprimary : r.primary = p := (ProbingRequest.willRecord_of_phase hphase).mp hwill
    exact absurd hprimary.symm (Circuits.probedBy_record.mp hprobed).1
  · cases hstep

theorem SlotsKept.finishStep (h : SlotsKept t) (hlook : t.requests.lookup id = some r)
    (hstep : t.finishStep id r = some t') : SlotsKept t' := by
  unfold BreakerTraffic.finishStep at hstep
  split at hstep
  · next hphase =>
    cases hstep
    refine h.put hlook (fun _ _ hprobed => hprobed) fun p _ hwill => ?_
    exact absurd ((ProbingRequest.willRecord_of_phase hphase).mp hwill) ProbingRequest.not_willRecord_recorded
  · cases hstep

theorem slotsKept_dropStep (h : SlotsKept t) (hlook : t.requests.lookup id = some r)
    (hstep : t.dropStep id r = some t') : SlotsKept t' ↔ AdmitsForRecord config t (.drop id) := by
  have hput : t' = t.put id (r.goTo .finished) := by
    unfold dropStep at hstep
    split at hstep <;> cases hstep <;> rfl
  rw [hput]
  constructor
  · intro hkept provider hprobed
    obtain ⟨k, hk, s, hs, hwill⟩ := hkept provider (some id) hprobed
    cases hk
    rw [lookup_put, if_pos rfl] at hs
    cases hs
    exact ProbingRequest.not_willRecord_finished hwill
  · intro hnone
    exact h.put hlook (fun _ _ hprobed => hprobed) fun p hprobed _ => absurd hprobed (hnone p)

theorem SlotsKept.start (h : SlotsKept t) (hnew : id ∉ t.requests) : SlotsKept (t.put id r) := by
  intro p owner hprobed
  obtain ⟨k, hk, s, hs, hwill⟩ := h p owner hprobed
  refine ⟨k, hk, s, ?_, hwill⟩
  have hne : k ≠ id := fun heq => hnew (AList.lookup_isSome.mp (heq ▸ Option.isSome_of_mem hs))
  rwa [lookup_put, if_neg hne]

theorem slotsKept_step {action : BreakerAction} (h : SlotsKept t) (hstep : t.step config action = some t') :
    SlotsKept t' ↔ AdmitsForRecord config t action := by
  cases action with
  | tick milliseconds =>
    cases hstep
    exact iff_of_true h trivial
  | start id streaming primary fallbacks =>
    simp only [step] at hstep
    split at hstep
    · cases hstep
    · next hnew =>
      cases hstep
      exact iff_of_true (h.start hnew) trivial
  | look id degraded =>
    obtain ⟨r, hlook, hstep⟩ := Option.bind_eq_some_iff.mp hstep
    exact slotsKept_lookStep h hlook hstep
  | answer id outcome =>
    obtain ⟨r, hlook, hstep⟩ := Option.bind_eq_some_iff.mp hstep
    exact iff_of_true (h.answerStep hlook hstep) trivial
  | record id =>
    obtain ⟨r, hlook, hstep⟩ := Option.bind_eq_some_iff.mp hstep
    exact iff_of_true (h.recordStep hlook hstep) trivial
  | finish id =>
    obtain ⟨r, hlook, hstep⟩ := Option.bind_eq_some_iff.mp hstep
    exact iff_of_true (h.finishStep hlook hstep) trivial
  | drop id =>
    obtain ⟨r, hlook, hstep⟩ := Option.bind_eq_some_iff.mp hstep
    exact slotsKept_dropStep h hlook hstep

/-! ### What will be recorded is recorded -/

/-- The request goes on with something to record, or an outcome has been recorded for the provider. -/
def RecordsOrWill (config : CircuitBreakerConfig) (t t' : BreakerTraffic) (id : Nat) (provider : Provider) : Prop :=
  (∃ r ∈ t'.requests.lookup id, r.WillRecord provider) ∨
    ∃ success, t'.circuits = t.circuits.record config t.now provider success

theorem RecordsOrWill.of_put {circuits : Circuits} (h : r'.WillRecord provider) :
    RecordsOrWill config t ({ t with circuits }.put id r') id provider := by
  refine .inl ⟨r', ?_, h⟩
  rw [lookup_put, if_pos rfl]
  rfl

theorem RecordsOrWill.of_ask {called : Provider} {degraded : Bool} {admitted skipped : Phase}
    (hadmitted : (r.goTo admitted).WillRecord provider) (hskipped : (r.goTo skipped).WillRecord provider) :
    RecordsOrWill config t (t.ask config id r called degraded admitted skipped) id provider := by
  unfold ask
  dsimp only
  refine .of_put ?_
  split
  · exact hskipped
  · exact hadmitted

theorem recordsOrWill_lookStep {degraded : Bool} (hwill : r.WillRecord provider)
    (hstep : t.lookStep config id r degraded = some t') : RecordsOrWill config t t' id provider := by
  unfold lookStep at hstep
  split at hstep
  · next i hphase =>
    obtain ⟨hstreaming, hprimary⟩ := hwill.of_selecting hphase
    split at hstep
    · cases hstep
      exact .of_put (ProbingRequest.willRecord_leave.mpr ⟨hstreaming, hprimary⟩)
    · cases hstep
      refine .of_ask ?_ ⟨hstreaming, hprimary⟩
      rwa [ProbingRequest.willRecord_calling, hstreaming, if_neg Bool.false_ne_true]
  · next hphase =>
    exact absurd ((ProbingRequest.willRecord_of_phase hphase).mp hwill) ProbingRequest.not_willRecord_recorded
  · cases hstep

theorem recordsOrWill_answerStep {outcome : CallOutcome} (hwill : r.WillRecord provider)
    (hstep : t.answerStep config id r outcome = some t') : RecordsOrWill config t t' id provider := by
  unfold BreakerTraffic.answerStep at hstep
  split at hstep
  · next i hphase =>
    dsimp only at hstep
    split at hstep
    · next hstreaming =>
      obtain ⟨called, hchain, rfl⟩ := Option.map_eq_some_iff.mp hstep
      have hcalled := (ProbingRequest.willRecord_of_phase hphase).mp hwill
      rw [ProbingRequest.willRecord_calling, if_pos hstreaming, hchain, Option.some.injEq] at hcalled
      exact .inr ⟨_, by rw [← hcalled]; rfl⟩
    · next hstreaming =>
      cases hstep
      have hstreaming := Bool.eq_false_iff.mpr hstreaming
      have hprimary := hwill.of_calling hphase hstreaming
      refine .of_put ?_
      cases outcome with
      | success => exact ProbingRequest.willRecord_leave.mpr ⟨hstreaming, hprimary⟩
      | failure shouldFallback =>
        cases shouldFallback with
        | true => exact ⟨hstreaming, hprimary⟩
        | false => exact ProbingRequest.willRecord_leave.mpr ⟨hstreaming, hprimary⟩
  · next hphase =>
    exact absurd ((ProbingRequest.willRecord_of_phase hphase).mp hwill) ProbingRequest.not_willRecord_retrying
  · cases hstep

theorem recordsOrWill_recordStep (hwill : r.WillRecord provider) (hstep : t.recordStep config id r = some t') :
    RecordsOrWill config t t' id provider := by
  unfold BreakerTraffic.recordStep at hstep
  split at hstep
  · next served hphase =>
    cases hstep
    have hprimary : r.primary = provider := (ProbingRequest.willRecord_of_phase hphase).mp hwill
    exact .inr ⟨_, by rw [← hprimary]; rfl⟩
  · cases hstep

theorem recordsOrWill_finishStep (hwill : r.WillRecord provider) (hstep : t.finishStep id r = some t') :
    RecordsOrWill config t t' id provider := by
  unfold BreakerTraffic.finishStep at hstep
  split at hstep
  · next hphase =>
    exact absurd ((ProbingRequest.willRecord_of_phase hphase).mp hwill) ProbingRequest.not_willRecord_recorded
  · cases hstep

/-- A step of a request touches that request and the circuits. -/
def Moves (t t' : BreakerTraffic) (id : Nat) : Prop := ∃ circuits r, t' = { t with circuits }.put id r

theorem Moves.lookup_of_ne {k : Nat} (h : Moves t t' id) (hne : k ≠ id) :
    t'.requests.lookup k = t.requests.lookup k := by
  obtain ⟨circuits, r, rfl⟩ := h
  rw [lookup_put, if_neg hne]

theorem moves_lookStep {degraded : Bool} (h : t.lookStep config id r degraded = some t') : Moves t t' id := by
  unfold lookStep at h
  split at h
  · split at h <;> cases h <;> exact ⟨_, _, rfl⟩
  · cases h
    exact ⟨_, _, rfl⟩
  · cases h

theorem moves_answerStep {outcome : CallOutcome} (h : t.answerStep config id r outcome = some t') :
    Moves t t' id := by
  unfold BreakerTraffic.answerStep at h
  split at h
  · dsimp only at h
    split at h
    · obtain ⟨provider, -, rfl⟩ := Option.map_eq_some_iff.mp h
      exact ⟨_, _, rfl⟩
    · cases h
      exact ⟨_, _, rfl⟩
  · cases h
    exact ⟨_, _, rfl⟩
  · cases h

theorem moves_recordStep (h : t.recordStep config id r = some t') : Moves t t' id := by
  unfold BreakerTraffic.recordStep at h
  split at h
  · cases h
    exact ⟨_, _, rfl⟩
  · cases h

theorem moves_finishStep (h : t.finishStep id r = some t') : Moves t t' id := by
  unfold BreakerTraffic.finishStep at h
  split at h
  · cases h
    exact ⟨_, _, rfl⟩
  · cases h

theorem moves_dropStep (h : t.dropStep id r = some t') : Moves t t' id := by
  unfold dropStep at h
  split at h <;> cases h <;> exact ⟨_, _, rfl⟩

theorem RecordsOrWill.of_moves {k : Nat} (hlook : t.requests.lookup id = some r) (hwill : r.WillRecord provider)
    (hmoves : Moves t t' k) (hsame : id = k → RecordsOrWill config t t' id provider) :
    RecordsOrWill config t t' id provider := by
  by_cases hid : id = k
  · exact hsame hid
  · exact .inl ⟨r, by rw [Option.mem_def, hmoves.lookup_of_ne hid, hlook], hwill⟩

theorem recordsOrWill_step {action : BreakerAction} (hlook : t.requests.lookup id = some r)
    (hwill : r.WillRecord provider) (hdrop : action ≠ .drop id) (hstep : t.step config action = some t') :
    RecordsOrWill config t t' id provider := by
  have hown : ∀ {k s}, t.requests.lookup k = some s → id = k → s = r := by
    rintro k s hs rfl
    exact Option.some.inj (hs.symm.trans hlook)
  cases action with
  | tick milliseconds =>
    cases hstep
    exact .inl ⟨r, hlook, hwill⟩
  | start k streaming primary fallbacks =>
    simp only [step] at hstep
    split at hstep
    · cases hstep
    · next hnew =>
      cases hstep
      refine .of_moves hlook hwill ⟨t.circuits, _, rfl⟩ fun hid => ?_
      exact absurd (AList.lookup_isSome.mp (hid ▸ Option.isSome_of_mem hlook)) hnew
  | look k degraded =>
    obtain ⟨s, hs, hstep⟩ := Option.bind_eq_some_iff.mp hstep
    refine .of_moves hlook hwill (moves_lookStep hstep) fun hid => ?_
    cases hown hs hid
    exact hid ▸ recordsOrWill_lookStep hwill hstep
  | answer k outcome =>
    obtain ⟨s, hs, hstep⟩ := Option.bind_eq_some_iff.mp hstep
    refine .of_moves hlook hwill (moves_answerStep hstep) fun hid => ?_
    cases hown hs hid
    exact hid ▸ recordsOrWill_answerStep hwill hstep
  | record k =>
    obtain ⟨s, hs, hstep⟩ := Option.bind_eq_some_iff.mp hstep
    refine .of_moves hlook hwill (moves_recordStep hstep) fun hid => ?_
    cases hown hs hid
    exact hid ▸ recordsOrWill_recordStep hwill hstep
  | finish k =>
    obtain ⟨s, hs, hstep⟩ := Option.bind_eq_some_iff.mp hstep
    refine .of_moves hlook hwill (moves_finishStep hstep) fun hid => ?_
    cases hown hs hid
    exact hid ▸ recordsOrWill_finishStep hwill hstep
  | drop k =>
    obtain ⟨s, hs, hstep⟩ := Option.bind_eq_some_iff.mp hstep
    exact .of_moves hlook hwill (moves_dropStep hstep) fun hid => absurd (by rw [hid]) hdrop

/-- Somewhere in the run an outcome is recorded for the provider. -/
def RecordedIn (config : CircuitBreakerConfig) (provider : Provider) : BreakerTraffic → List BreakerAction → Prop
  | _, [] => False
  | t, action :: run => ∃ t', t.step config action = some t' ∧
    ((∃ success, t'.circuits = t.circuits.record config t.now provider success) ∨ RecordedIn config provider t' run)

theorem recordedIn_of_finished {run : List BreakerAction} (hlook : t.requests.lookup id = some r)
    (hwill : r.WillRecord provider) (hdrop : ∀ action ∈ run, action ≠ .drop id)
    (hrun : exec (step config) t run = some t') (hfinished : ∃ r ∈ t'.requests.lookup id, r.phase = .finished) :
    RecordedIn config provider t run := by
  induction run generalizing t r with
  | nil =>
    cases hrun
    obtain ⟨r', hr', hphase⟩ := hfinished
    cases hlook.symm.trans hr'
    exact absurd ((ProbingRequest.willRecord_of_phase hphase).mp hwill) ProbingRequest.not_willRecord_finished
  | cons action run ih =>
    obtain ⟨s, hstep, hrun⟩ := Option.bind_eq_some_iff.mp hrun
    refine ⟨s, hstep, ?_⟩
    rcases recordsOrWill_step hlook hwill (hdrop action List.mem_cons_self) hstep with ⟨r', hr', hwill⟩ | hrecorded
    · exact .inr (ih hr' hwill (fun a ha => hdrop a (List.mem_cons_of_mem _ ha)) hrun)
    · exact .inl hrecorded

/-! ### Runs -/

theorem SlotsKept.init : SlotsKept {} := fun _ _ ⟨_, hlook, _⟩ => nomatch hlook

theorem SlotsKept.not_blocked {request : Nat} (h : SlotsKept t) (hidle : t.Idle) (hcooled : Cooled config t provider) :
    (t.circuits.isOpen config t.now request provider).2 = false := by
  unfold Circuits.isOpen
  cases hlook : t.circuits.lookup provider with
  | none => rfl
  | some circuit =>
    dsimp only
    unfold ProviderCircuit.isOpen
    cases hstate : circuit.state with
    | closed => rfl
    | opened since =>
      dsimp only
      rw [if_pos (hcooled circuit hlook since hstate)]
    | halfOpen =>
      dsimp only
      split
      · next hprobe =>
        obtain ⟨id, -, r, hr, hwill⟩ := h provider circuit.owner ⟨circuit, hlook, ⟨hstate, hprobe⟩, rfl⟩
        exact absurd ((ProbingRequest.willRecord_of_phase (hidle id r hr)).mp hwill)
          ProbingRequest.not_willRecord_finished
      · rfl

/-- In every state of a run the probes are out for requests that will record them exactly if every probe is admitted for
    a record and no request is dropped with its probe. Then no provider is turned away when all requests have returned
    and the cooldown is over. -/
theorem slots_kept_iff (config : CircuitBreakerConfig) (run : List BreakerAction) :
    (Always (step config) SlotsKept {} run ↔ Meets (step config) (AdmitsForRecord config) {} run) ∧
    ∀ t, exec (step config) {} run = some t → Meets (step config) (AdmitsForRecord config) {} run →
      (∀ provider owner, t.circuits.ProbedBy provider owner → ∃ id ∈ owner, ∀ later t',
        exec (step config) t later = some t' → (∀ action ∈ later, action ≠ .drop id) →
          (∃ r ∈ t'.requests.lookup id, r.phase = .finished) → RecordedIn config provider t later) ∧
      (t.Idle → ∀ provider, Cooled config t provider → ∀ request,
        (t.circuits.isOpen config t.now request provider).2 = false) := by
  have hiff : Always (step config) SlotsKept {} run ↔ Meets (step config) (AdmitsForRecord config) {} run :=
    always_iff_meets (fun _ _ _ h hstep => slotsKept_step h hstep) SlotsKept.init
  refine ⟨hiff, fun t hrun hmeets => ?_⟩
  have hkept : SlotsKept t := (hiff.mpr hmeets).of_exec hrun
  refine ⟨fun provider owner hprobed => ?_, fun hidle provider hcooled request => hkept.not_blocked hidle hcooled⟩
  obtain ⟨id, hid, r, hlook, hwill⟩ := hkept provider owner hprobed
  exact ⟨id, hid, fun later t' hlater hdrop hfinished => recordedIn_of_finished hlook hwill hdrop hlater hfinished⟩

/-! ### A provider that stays blocked -/

/-- OpenAI fails five times, its circuit opens and cools down. -/
def cooledDown : List BreakerAction :=
  (List.range 5).flatMap (fun id => [.start id true .openAi [], .look id false, .answer id (.failure false)]) ++
    [.tick 30000]

/-- A request reaches OpenAI as the fallback of Anthropic, which fails, and is answered. The handler records a failure
    of Anthropic. -/
def fallbackProbe : List BreakerAction :=
  cooledDown ++
    [.start 5 false .anthropic [.openAi], .look 5 false, .answer 5 (.failure true), .look 5 false,
      .answer 5 .success, .record 5, .finish 5]

/-- The client of a streaming request leaves while OpenAI is called. -/
def droppedProbe : List BreakerAction := cooledDown ++ [.start 5 true .openAi [], .look 5 false, .drop 5]

/-- All requests have returned, an hour has passed, and OpenAI is skipped. -/
theorem blocked_forever :
    (∀ run ∈ [fallbackProbe, droppedProbe], ∃ t, exec (step {}) {} (run ++ [.tick 3600000]) = some t ∧
      (∀ e ∈ t.requests.pairs, e.2.phase = .finished) ∧ (t.circuits.isOpen {} t.now 6 .openAi).2 = true) ∧
    ¬Always (step {}) SlotsKept {} fallbackProbe := by
  have hblocked : ∃ t, exec (step {}) {} fallbackProbe = some t ∧
      (t.circuits.ProbedBy .openAi (some 5) ∧ t.requests.lookup 5 =
        some { streaming := false, primary := .anthropic, fallbacks := [.openAi], phase := .finished }) := by
    refine ⟨_, rfl, ⟨_, rfl, ⟨rfl, rfl⟩, rfl⟩, rfl⟩
  refine ⟨List.forall_mem_cons.mpr ⟨⟨_, rfl, by decide, by decide⟩,
    List.forall_mem_singleton.mpr ⟨_, rfl, by decide, by decide⟩⟩, fun h => ?_⟩
  obtain ⟨t, hrun, hprobed, hlook⟩ := hblocked
  obtain ⟨id, hid, r, hr, hwill⟩ := (h.of_exec hrun) _ _ hprobed
  cases hid
  cases hlook.symm.trans hr
  exact hwill

end BreakerTraffic

end Reiver.Flow
