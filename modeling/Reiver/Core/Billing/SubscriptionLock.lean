import Mathlib.Data.List.Infix
import Reiver.Lib.Lease
import Reiver.Lib.Run

/-! # Subscriptions of an organization

Creating a subscription takes the organization's lock for 30 seconds, looks for a subscription that is already there,
asks Stripe for a new one and records it. Stripe does not know what is recorded, and the lock may run out on the way.
Cancellations, webhooks and the reconciliation of stuck cancellations write the same rows without the lock. -/

namespace Reiver.Core

inductive SubscriptionStatus where
  | active
  | pastDue
  | canceled
  | trialing
  | incomplete
  | incompleteExpired
  | paused
  | unpaid
  | pendingCancellation
deriving DecidableEq, Repr

/-- `ACTIVE_STATES_SQL`: the states that keep another subscription from being created. -/
def SubscriptionStatus.activeStates : List SubscriptionStatus := [.active, .trialing, .pastDue, .incomplete]

/-- `CANCELABLE_STATES_SQL`. -/
def SubscriptionStatus.cancelableStates : List SubscriptionStatus := [.active, .pastDue, .trialing, .incomplete]

inductive PaymentError where
  | paymentDeclined (msg : String)
  | cardExpired
  | insufficientFunds
  | authorizationRequired (msg : String)
  | rateLimited
  | subscriptionAlreadyCanceled
  | providerError (msg : String)
deriving DecidableEq, Repr

/-- An error of Stripe's API with its code and message, or of the client with its text. -/
inductive StripeError where
  | stripe (code msg : Option String)
  | client (text : String)
deriving DecidableEq, Repr

section Errors
variable (toLowercase : String → String)

def containsText (msg text : String) : Bool := text.toList <:+: (toLowercase msg).toList

def mapStripeError : StripeError → PaymentError
  | .client text => .providerError ("Stripe error: " ++ text)
  | .stripe code msg =>
    let msg := msg.getD "Payment failed"
    match code with
    | some "card_declined" => .paymentDeclined msg
    | some "expired_card" => .cardExpired
    | some "rate_limit" => .rateLimited
    | some "resource_missing" => .subscriptionAlreadyCanceled
    | _ =>
      if ["already canceled", "cannot be canceled", "no such subscription"].any (containsText toLowercase msg) then
        .subscriptionAlreadyCanceled
      else if containsText toLowercase msg "insufficient funds" then .insufficientFunds
      else if containsText toLowercase msg "authentication" then .authorizationRequired msg
      else .providerError msg

def isTransientMessage (msg : String) : Bool :=
  ["timeout", "connection", "temporarily unavailable", "service unavailable", "too many requests", "network"].any
    (containsText toLowercase msg)

def isRetriableError : PaymentError → Bool
  | .rateLimited => true
  | .providerError msg => isTransientMessage toLowercase msg
  | _ => false

end Errors

/-- `RetryConfig::default().max_retries`. -/
def maxRetries : Nat := 3

/-- `SUBSCRIPTION_LOCK_TTL_SECONDS`. -/
def subscriptionLockTtl : Nat := 30

/-- How far a call of `create_subscription` has come. -/
inductive CreatePhase where
  | idle
  | locked
  /-- No subscription was found; `attempt` requests have failed. -/
  | checked (attempt : Nat)
  /-- Stripe answered with `sub`, which is not recorded yet. -/
  | created (sub : Nat)
  /-- The call returned. Its guard, if it has one, releases the lock in a task of its own. -/
  | returned (guard : Bool)
deriving DecidableEq, Repr

/-- The subscription that the call got and has yet to record. -/
def CreatePhase.created? : CreatePhase → Option Nat
  | .created sub => some sub
  | _ => none

theorem CreatePhase.created?_eq_some {phase : CreatePhase} {sub : Nat} :
    phase.created? = some sub ↔ phase = .created sub := by
  cases phase <;> simp [CreatePhase.created?]

/-- The call found no subscription and goes by that. -/
def CreatePhase.pastCheck : CreatePhase → Bool
  | .checked _ | .created _ => true
  | _ => false

/-- How far a call of `cancel_subscription` has come. It keeps the status it read. -/
inductive CancelPhase where
  | idle
  | read (sub : Nat) (status : SubscriptionStatus) (atPeriodEnd : Bool)
  | marked (sub : Nat) (status : SubscriptionStatus) (atPeriodEnd : Bool)
  /-- Stripe has answered, and `final` is to be written. -/
  | answered (sub : Nat) (final : SubscriptionStatus)
  | returned
deriving DecidableEq, Repr

def CancelPhase.final? : CancelPhase → Option (Nat × SubscriptionStatus)
  | .answered sub final => some (sub, final)
  | _ => none

/-- One organization's subscriptions: at Stripe, in `stripe_subscriptions`, and with the calls under way. -/
structure Subscriptions where
  now : Nat
  lock : Option (Lease Nat)
  create : Nat → CreatePhase
  cancel : Nat → CancelPhase
  /-- Stripe bills the subscription. -/
  live : Nat → Bool
  nextSub : Nat
  row : Nat → Option SubscriptionStatus

/-- The answer to a request, if it is not an error. -/
inductive StripeAnswer where
  | done
  | error (err : StripeError)
deriving DecidableEq, Repr

inductive SubscriptionAction where
  | tick (seconds : Nat)
  /-- The lock is asked for; without an answer in time the call fails, whether or not the lock was granted. -/
  | acquire (call : Nat) (answered : Bool)
  | check (call : Nat)
  /-- A request for a new subscription, which Stripe carries out or not, and its answer. -/
  | request (call : Nat) (executed : Bool) (answer : StripeAnswer)
  | commit (call : Nat) (status : SubscriptionStatus)
  /-- Another step of the call fails, and it returns the error. -/
  | abort (call : Nat)
  | release (call : Nat)
  | cancelRead (call sub : Nat) (atPeriodEnd : Bool)
  | cancelMark (call : Nat)
  /-- The requests to cancel, up to the last answer: `ended` if Stripe carried one out. -/
  | cancelRequest (call : Nat) (ended : Bool) (answer : StripeAnswer)
  | cancelFinish (call : Nat)
  /-- A webhook, an update or the reconciliation writes the status that Stripe reported. -/
  | write (sub : Nat) (status : SubscriptionStatus)
  /-- Stripe stops or resumes billing of itself. -/
  | bill (sub : Nat) (billed : Bool)
deriving DecidableEq, Repr

namespace Subscriptions

def start : Subscriptions where
  now := 0
  lock := none
  create _ := .idle
  cancel _ := .idle
  live _ := false
  nextSub := 0
  row _ := none

section Step
variable (s : Subscriptions)

def holder : Option Nat := Lease.holderAt s.lock s.now

/-- A recorded subscription that keeps others from being created. -/
def Active (sub : Nat) : Prop := ∃ status ∈ s.row sub, status ∈ SubscriptionStatus.activeStates

instance (sub : Nat) : Decidable (s.Active sub) :=
  inferInstanceAs (Decidable (∃ status ∈ s.row sub, status ∈ SubscriptionStatus.activeStates))

def existing : Bool := decide (∃ sub < s.nextSub, s.Active sub)

def setCreate (call : Nat) (phase : CreatePhase) : Subscriptions :=
  { s with create := Function.update s.create call phase }

def setCancel (call : Nat) (phase : CancelPhase) : Subscriptions :=
  { s with cancel := Function.update s.cancel call phase }

def setRow (sub : Nat) (status : SubscriptionStatus) : Subscriptions :=
  { s with row := Function.update s.row sub (some status) }

/-- An `UPDATE` finds the row or does nothing. -/
def updateRow (sub : Nat) (status : SubscriptionStatus) : Subscriptions :=
  if (s.row sub).isSome then s.setRow sub status else s

def setLive (sub : Nat) (billed : Bool) : Subscriptions := { s with live := Function.update s.live sub billed }

@[simp] theorem create_setCreate (call other : Nat) (phase : CreatePhase) :
    (s.setCreate call phase).create other = if other = call then phase else s.create other := by
  simp [setCreate, Function.update_apply]

@[simp] theorem row_setRow (sub other : Nat) (status : SubscriptionStatus) :
    (s.setRow sub status).row other = if other = sub then some status else s.row other := by
  simp [setRow, Function.update_apply]

@[simp] theorem live_setLive (sub other : Nat) (billed : Bool) :
    (s.setLive sub billed).live other = if other = sub then billed else s.live other := by
  simp [setLive, Function.update_apply]

/-- `acquire_billing_lock`. -/
def acquireBillingLock (call : Nat) (answered : Bool) : Subscriptions :=
  let (lock, granted) := Lease.acquire s.lock s.now subscriptionLockTtl call
  { s with lock }.setCreate call (if granted && answered then .locked else .returned false)

def makeSubscription : Subscriptions := { s.setLive s.nextSub true with nextSub := s.nextSub + 1 }

/-- One round of the loop in `create_subscription`. -/
def requestSubscription (toLowercase : String → String) (call attempt : Nat) (executed : Bool) :
    StripeAnswer → Option Subscriptions
  | .done => if executed then some (s.makeSubscription.setCreate call (.created s.nextSub)) else none
  | .error err =>
    let s' := if executed then s.makeSubscription else s
    if maxRetries ≤ attempt ∨ ¬isRetriableError toLowercase (mapStripeError toLowercase err) then
      some (s'.setCreate call (.returned true))
    else
      some (s'.setCreate call (.checked (attempt + 1)))

def finalStatus (toLowercase : String → String) (status : SubscriptionStatus) (atPeriodEnd : Bool) :
    StripeAnswer → SubscriptionStatus
  | .done => if atPeriodEnd then status else .canceled
  | .error err =>
    if mapStripeError toLowercase err = .subscriptionAlreadyCanceled then .canceled else status

end Step

def step (toLowercase : String → String) (s : Subscriptions) : SubscriptionAction → Option Subscriptions
  | .tick seconds => some { s with now := s.now + seconds }
  | .acquire call answered => match s.create call with
    | .idle => some (s.acquireBillingLock call answered)
    | _ => none
  | .check call => match s.create call with
    | .locked => some (s.setCreate call (if s.existing then .returned true else .checked 0))
    | _ => none
  | .request call executed answer => match s.create call with
    | .checked attempt => s.requestSubscription toLowercase call attempt executed answer
    | _ => none
  | .commit call status => match s.create call with
    | .created sub => some ((s.setRow sub status).setCreate call (.returned true))
    | _ => none
  | .abort call => match s.create call with
    | .locked | .checked _ | .created _ => some (s.setCreate call (.returned true))
    | _ => none
  | .release call => match s.create call with
    | .returned true => some { s.setCreate call (.returned false) with lock := Lease.release s.lock s.now call }
    | _ => none
  | .cancelRead call sub atPeriodEnd => match s.cancel call, s.row sub with
    | .idle, some status =>
      if status ∈ SubscriptionStatus.cancelableStates then
        -- What has not been paid for yet is not kept to the end of its period.
        some (s.setCancel call (.read sub status (atPeriodEnd && status != .incomplete)))
      else none
    | _, _ => none
  | .cancelMark call => match s.cancel call with
    | .read sub status atPeriodEnd =>
      some ((s.updateRow sub .pendingCancellation).setCancel call (.marked sub status atPeriodEnd))
    | _ => none
  | .cancelRequest call ended answer => match s.cancel call with
    | .marked sub status atPeriodEnd =>
      let s' := if ended then s.setLive sub false else s
      some (s'.setCancel call (.answered sub (finalStatus toLowercase status atPeriodEnd answer)))
    | _ => none
  | .cancelFinish call => match s.cancel call with
    | .answered sub final => some ((s.updateRow sub final).setCancel call .returned)
    | _ => none
  | .write sub status => if sub < s.nextSub then some (s.setRow sub status) else none
  | .bill sub billed => if sub < s.nextSub then some (s.setLive sub billed) else none

/-! ### What keeps a second subscription out -/

section Conditions
variable (s : Subscriptions)

/-- Stripe bills the subscription, and no cancellation of it is under way. -/
def Billed (sub : Nat) : Prop := s.live sub = true ∧ s.row sub ≠ some .pendingCancellation

/-- A row that is written to an active state was in one, belongs to the subscription just created, or comes when
    nothing else is there or on its way. One that is written to another state follows Stripe, or asks it to cancel. -/
def MayWrite (sub : Nat) (status : SubscriptionStatus) : Prop :=
  if status ∈ SubscriptionStatus.activeStates then
    s.Active sub ∨ (∃ call ∈ s.holder, (s.create call).created? = some sub) ∨
      (s.existing = false ∧ ∀ call ∈ s.holder, (s.create call).pastCheck = false)
  else status = .pendingCancellation ∨ s.live sub = false

/-- A call records what it created before its lock runs out, and Stripe carries a request out only if the call hears of
    it and holds the lock. -/
def InTime : SubscriptionAction → Prop
  | .tick seconds => ∀ lease ∈ s.lock, (s.create lease.holder).created?.isSome → s.now + seconds < lease.expires
  | .request call executed answer => executed = true → answer = .done ∧ s.holder = some call
  | .commit call status =>
    ∀ sub ∈ (s.create call).created?, status ∈ SubscriptionStatus.activeStates ∨ s.live sub = false
  | .abort call => (s.create call).created? = none
  | .cancelFinish call => ∀ final ∈ (s.cancel call).final?, s.MayWrite final.1 final.2
  | .write sub status => s.MayWrite sub status
  | .bill sub billed => billed = true → s.Active sub ∨ s.row sub = some .pendingCancellation
  | _ => True

instance (sub : Nat) (status : SubscriptionStatus) : Decidable (s.MayWrite sub status) :=
  inferInstanceAs (Decidable (ite _ _ _))

instance (sub : Nat) : Decidable (s.Billed sub) := inferInstanceAs (Decidable (_ ∧ _))

instance (action : SubscriptionAction) : Decidable (s.InTime action) := by
  cases action <;> unfold InTime <;> infer_instance

end Conditions

/-! ### Invariant -/

structure Sound (s : Subscriptions) : Prop where
  created : ∀ call sub, s.create call = .created sub →
    s.holder = some call ∧ sub < s.nextSub ∧ ∀ other, s.Active other → other = sub
  checked : ∀ call attempt, s.holder = some call → s.create call = .checked attempt → ∀ sub, ¬s.Active sub
  one : ∀ sub sub', s.Active sub → s.Active sub' → sub = sub'
  recorded : ∀ sub, s.live sub = true →
    s.Active sub ∨ s.row sub = some .pendingCancellation ∨ ∃ call, s.create call = .created sub
  fresh : ∀ sub, s.nextSub ≤ sub → s.row sub = none ∧ s.live sub = false

section Invariant
variable {s s' t : Subscriptions}

theorem sound_start : start.Sound where
  created _ _ h := nomatch h
  checked _ _ h := nomatch h
  one := by
    rintro sub _ ⟨status, hstatus, -⟩
    cases hstatus
  recorded _ h := nomatch h
  fresh _ _ := ⟨rfl, rfl⟩

theorem Sound.not_active_of_le (h : s.Sound) {sub : Nat} (hsub : s.nextSub ≤ sub) : ¬s.Active sub := by
  rintro ⟨status, hstatus, -⟩
  rw [(h.fresh sub hsub).1] at hstatus
  cases hstatus

theorem Sound.existing_iff (h : s.Sound) : s.existing = true ↔ ∃ sub, s.Active sub := by
  rw [existing, decide_eq_true_iff]
  constructor
  · rintro ⟨sub, -, hsub⟩
    exact ⟨sub, hsub⟩
  · rintro ⟨sub, hsub⟩
    exact ⟨sub, Nat.lt_of_not_le fun hle => h.not_active_of_le hle hsub, hsub⟩

theorem Sound.billed_unique (h : s.Sound) {sub sub' : Nat} (hsub : s.Billed sub) (hsub' : s.Billed sub') :
    sub = sub' := by
  have hcases : ∀ sub, s.Billed sub → s.Active sub ∨ ∃ call, s.create call = .created sub := by
    intro sub hsub
    rcases h.recorded sub hsub.1 with hactive | hpending | hcall
    · exact .inl hactive
    · exact absurd hpending hsub.2
    · exact .inr hcall
  rcases hcases sub hsub with hactive | ⟨call, hcall⟩ <;> rcases hcases sub' hsub' with hactive' | ⟨call', hcall'⟩
  · exact h.one sub sub' hactive hactive'
  · exact (h.created call' sub' hcall').2.2 sub hactive
  · exact ((h.created call sub hcall).2.2 sub' hactive').symm
  · have hsame := (h.created call sub hcall).1.symm.trans (h.created call' sub' hcall').1
    rw [Option.some.inj hsame, hcall'] at hcall
    cases hcall
    rfl

/-! ### Updates -/

theorem active_setRow {sub other : Nat} {status : SubscriptionStatus} : (s.setRow sub status).Active other ↔
    (other = sub ∧ status ∈ SubscriptionStatus.activeStates) ∨ (other ≠ sub ∧ s.Active other) := by
  by_cases heq : other = sub
  · simp [Active, heq]
  · simp [Active, heq]

theorem Sound.setCancel (h : s.Sound) (call : Nat) (phase : CancelPhase) : (s.setCancel call phase).Sound :=
  ⟨h.created, h.checked, h.one, h.recorded, h.fresh⟩

theorem Sound.setCreate (h : s.Sound) {call : Nat} {phase : CreatePhase} (hnow : (s.create call).created? = none)
    (hphase : phase.created? = none) (hcheck : ∀ attempt, phase = .checked attempt → s.holder = some call →
      ∀ sub, ¬s.Active sub) : (s.setCreate call phase).Sound := by
  have hcreated : ∀ other sub,
      (s.setCreate call phase).create other = .created sub ↔ s.create other = .created sub := by
    intro other sub
    rw [create_setCreate]
    split
    next heq =>
      subst heq
      constructor
      · rintro rfl
        cases hphase
      · intro hother
        rw [hother] at hnow
        cases hnow
    next => exact Iff.rfl
  constructor
  · intro other sub hother
    exact h.created other sub ((hcreated other sub).mp hother)
  · intro other attempt hholder hother
    rw [create_setCreate] at hother
    split at hother
    next heq =>
      subst heq
      exact hcheck attempt hother hholder
    next => exact h.checked other attempt hholder hother
  · exact h.one
  · intro sub hlive
    rcases h.recorded sub hlive with hactive | hpending | ⟨other, hother⟩
    · exact .inl hactive
    · exact .inr (.inl hpending)
    · exact .inr (.inr ⟨other, (hcreated other sub).mpr hother⟩)
  · exact h.fresh

theorem Sound.setLive (h : s.Sound) {sub : Nat} {billed : Bool}
    (hbilled : billed = true → s.Active sub ∨ s.row sub = some .pendingCancellation) :
    (s.setLive sub billed).Sound where
  created := h.created
  checked := h.checked
  one := h.one
  recorded other hlive := by
    rw [live_setLive] at hlive
    split at hlive
    next heq =>
      subst heq
      exact (hbilled hlive).imp_right .inl
    next => exact h.recorded other hlive
  fresh other hle := by
    refine ⟨(h.fresh other hle).1, ?_⟩
    rw [live_setLive]
    split
    next heq =>
      subst heq
      rw [Bool.eq_false_iff]
      intro hb
      rcases hbilled hb with hactive | hpending
      · exact h.not_active_of_le hle hactive
      · exact Option.some_ne_none _ (hpending.symm.trans (h.fresh other hle).1)
    next => exact (h.fresh other hle).2

/-- A row goes to a state that Stripe is in, or asks to cancel. -/
theorem Sound.setRow (h : s.Sound) {sub : Nat} {status : SubscriptionStatus} (hsub : sub < s.nextSub)
    (hmay : s.MayWrite sub status) : (s.setRow sub status).Sound := by
  have hother : ∀ other, (s.setRow sub status).Active other → other ≠ sub → s.Active other := by
    intro other hactive hne
    rcases active_setRow.mp hactive with ⟨heq, -⟩ | ⟨-, hactive⟩
    · exact absurd heq hne
    · exact hactive
  -- What is active afterwards is the row itself, or was active before; both only if it was the row.
  have hone : (s.setRow sub status).Active sub → ∀ other, s.Active other → other = sub := by
    intro hactive other hotheractive
    rcases active_setRow.mp hactive with ⟨-, hstatus⟩ | ⟨hne, -⟩
    · rw [MayWrite, if_pos hstatus] at hmay
      rcases hmay with hbefore | ⟨call, hcall, hcreated⟩ | ⟨hnone, -⟩
      · exact h.one other sub hotheractive hbefore
      · exact (h.created call sub (CreatePhase.created?_eq_some.mp hcreated)).2.2 other hotheractive
      · exact absurd (h.existing_iff.mpr ⟨other, hotheractive⟩) (Bool.eq_false_iff.mp hnone)
    · exact absurd rfl hne
  -- If the write makes the row active, no call that holds the lock relies on there being none.
  have hbusy : (s.setRow sub status).Active sub → ∀ call ∈ s.holder, (s.create call).pastCheck = true →
      s.Active sub ∨ s.create call = .created sub := by
    intro hactive call hcall hpast
    rcases active_setRow.mp hactive with ⟨-, hstatus⟩ | ⟨hne, -⟩
    · rw [MayWrite, if_pos hstatus] at hmay
      rcases hmay with hbefore | ⟨other, hother, hcreated⟩ | ⟨-, hfree⟩
      · exact .inl hbefore
      · cases hcall.symm.trans hother
        exact .inr (CreatePhase.created?_eq_some.mp hcreated)
      · exact absurd hpast (Bool.eq_false_iff.mp (hfree call hcall))
    · exact absurd rfl hne
  constructor
  · intro call made hphase
    obtain ⟨hholder, hlt, hunique⟩ := h.created call made hphase
    refine ⟨hholder, hlt, fun other hactive => ?_⟩
    by_cases heq : other = sub
    · subst heq
      change s.create call = .created made at hphase
      rcases hbusy hactive call hholder (by rw [hphase]; rfl) with hbefore | hsame
      · exact hunique other hbefore
      · cases hphase.symm.trans hsame
        rfl
    · exact hunique other (hother other hactive heq)
  · intro call attempt hholder hphase other hactive
    change s.create call = .checked attempt at hphase
    by_cases heq : other = sub
    · subst heq
      rcases hbusy hactive call hholder (by rw [hphase]; rfl) with hbefore | hsame
      · exact h.checked call attempt hholder hphase other hbefore
      · cases hphase.symm.trans hsame
    · exact h.checked call attempt hholder hphase other (hother other hactive heq)
  · intro one two hone' htwo
    by_cases heq : one = sub <;> by_cases heq' : two = sub
    · rw [heq, heq']
    · exact heq ▸ (hone (heq ▸ hone') two (hother two htwo heq')).symm
    · exact heq' ▸ hone (heq' ▸ htwo) one (hother one hone' heq)
    · exact h.one one two (hother one hone' heq) (hother two htwo heq')
  · intro other hlive
    by_cases heq : other = sub
    · subst heq
      by_cases hstatus : status ∈ SubscriptionStatus.activeStates
      · exact .inl (active_setRow.mpr (.inl ⟨rfl, hstatus⟩))
      · rw [MayWrite, if_neg hstatus] at hmay
        rcases hmay with rfl | hdead
        · exact .inr (.inl (by rw [row_setRow, if_pos rfl]))
        · exact absurd (hdead.symm.trans hlive) Bool.false_ne_true
    · rcases h.recorded other hlive with hactive | hpending | hcall
      · exact .inl (active_setRow.mpr (.inr ⟨heq, hactive⟩))
      · exact .inr (.inl (by rw [row_setRow, if_neg heq, hpending]))
      · exact .inr (.inr hcall)
  · intro other hle
    have hne : other ≠ sub := by
      have hle : s.nextSub ≤ other := hle
      omega
    exact ⟨by rw [row_setRow, if_neg hne, (h.fresh other hle).1], (h.fresh other hle).2⟩

theorem Sound.updateRow (h : s.Sound) {sub : Nat} {status : SubscriptionStatus} (hmay : s.MayWrite sub status) :
    (s.updateRow sub status).Sound := by
  unfold Subscriptions.updateRow
  split
  next hrow =>
    refine h.setRow (Nat.lt_of_not_le fun hle => ?_) hmay
    rw [(h.fresh sub hle).1] at hrow
    cases hrow
  next => exact h

/-! ### Steps -/

theorem Sound.tick (h : s.Sound) {seconds : Nat} (htime : s.InTime (.tick seconds)) :
    { s with now := s.now + seconds }.Sound where
  created call sub hcall := by
    obtain ⟨hholder, hrest⟩ := h.created call sub hcall
    obtain ⟨lease, hlock, rfl, -⟩ := Lease.holderAt_eq_some.mp hholder
    have hcall : s.create lease.holder = .created sub := hcall
    have hkept := htime lease hlock (by rw [hcall]; rfl)
    exact ⟨Lease.holderAt_eq_some.mpr ⟨lease, hlock, rfl, hkept⟩, hrest⟩
  checked call attempt hholder hcall :=
    h.checked call attempt (Lease.holderAt_mono (Nat.le_add_right s.now seconds) hholder) hcall
  one := h.one
  recorded := h.recorded
  fresh := h.fresh

theorem Sound.setLock (h : s.Sound) {lock : Option (Lease Nat)}
    (hcreated : ∀ call sub, s.create call = .created sub → Lease.holderAt lock s.now = some call)
    (hchecked : ∀ call attempt, Lease.holderAt lock s.now = some call → s.create call = .checked attempt →
      s.holder = some call) : { s with lock }.Sound where
  created call sub hcall := ⟨hcreated call sub hcall, (h.created call sub hcall).2⟩
  checked call attempt hholder hcall := h.checked call attempt (hchecked call attempt hholder hcall) hcall
  one := h.one
  recorded := h.recorded
  fresh := h.fresh

theorem Sound.acquireBillingLock (h : s.Sound) {call : Nat} (answered : Bool) (hidle : s.create call = .idle) :
    (s.acquireBillingLock call answered).Sound := by
  have hnow : (s.create call).created? = none := by rw [hidle]; rfl
  have hlocked : { s with lock := (Lease.acquire s.lock s.now subscriptionLockTtl call).1 }.Sound := by
    cases hlock : Lease.acquire s.lock s.now subscriptionLockTtl call with
    | mk lock granted =>
      cases granted with
      | false =>
        rw [Lease.acquire_refused hlock]
        exact h
      | true =>
        obtain ⟨hfree, rfl⟩ := Lease.acquire_granted hlock
        refine h.setLock (fun other sub hother => ?_) (fun other attempt hholder hother => ?_)
        · exact absurd ((h.created other sub hother).1.symm.trans hfree) (Option.some_ne_none other)
        · obtain ⟨lease, hlease, rfl, -⟩ := Lease.holderAt_eq_some.mp hholder
          cases hlease
          cases hother.symm.trans hidle
  refine hlocked.setCreate hnow ?_ fun attempt hphase => ?_
  · split <;> rfl
  · split at hphase <;> cases hphase

theorem Sound.release (h : s.Sound) {call : Nat} (hcall : s.create call = .returned true) :
    { s.setCreate call (.returned false) with lock := Lease.release s.lock s.now call }.Sound := by
  have hnow : (s.create call).created? = none := by rw [hcall]; rfl
  have hmoved : (s.setCreate call (.returned false)).Sound := h.setCreate hnow rfl fun attempt hphase => nomatch hphase
  refine hmoved.setLock (fun other sub hother => ?_) (fun other attempt hholder _ => ?_)
  · refine Lease.holderAt_release.mpr ⟨(hmoved.created other sub hother).1, ?_⟩
    rintro rfl
    rw [create_setCreate, if_pos rfl] at hother
    cases hother
  · exact (Lease.holderAt_release.mp hholder).1

theorem Sound.check (h : s.Sound) {call : Nat} (hcall : s.create call = .locked) :
    (s.setCreate call (if s.existing then .returned true else .checked 0)).Sound := by
  refine h.setCreate (by rw [hcall]; rfl) ?_ fun attempt hphase _ sub hactive => ?_
  · split <;> rfl
  · rw [if_pos (h.existing_iff.mpr ⟨sub, hactive⟩)] at hphase
    cases hphase

theorem Sound.makeSubscription (h : s.Sound) {call attempt : Nat} (hcall : s.create call = .checked attempt)
    (hholder : s.holder = some call) : (s.makeSubscription.setCreate call (.created s.nextSub)).Sound := by
  have hnone : ∀ sub, ¬s.Active sub := h.checked call attempt hholder hcall
  have hothers : ∀ other sub, s.create other ≠ .created sub := by
    intro other sub hother
    cases hholder.symm.trans (h.created other sub hother).1
    cases hcall.symm.trans hother
  constructor
  · intro other sub hother
    rw [create_setCreate] at hother
    split at hother
    next heq =>
      cases hother
      exact ⟨heq ▸ hholder, Nat.lt_succ_self _, fun sub hactive => absurd hactive (hnone sub)⟩
    next => exact absurd hother (hothers other sub)
  · intro _ _ _ _ sub hactive
    exact hnone sub hactive
  · intro sub _ hactive
    exact absurd hactive (hnone sub)
  · intro sub hlive
    by_cases heq : sub = s.nextSub
    · subst heq
      exact .inr (.inr ⟨call, by rw [create_setCreate, if_pos rfl]⟩)
    · have hlive : s.live sub = true := by
        have hlive : (s.setLive s.nextSub true).live sub = true := hlive
        rwa [live_setLive, if_neg heq] at hlive
      rcases h.recorded sub hlive with hactive | hpending | ⟨other, hother⟩
      · exact absurd hactive (hnone sub)
      · exact .inr (.inl hpending)
      · exact absurd hother (hothers other sub)
  · intro sub hle
    have hle : s.nextSub + 1 ≤ sub := hle
    have hfresh := h.fresh sub (by omega)
    refine ⟨hfresh.1, ?_⟩
    have hne : sub ≠ s.nextSub := by omega
    exact (live_setLive s s.nextSub sub true).trans (by rw [if_neg hne, hfresh.2])

theorem Sound.requestSubscription {toLowercase : String → String} (h : s.Sound) {call attempt : Nat} {executed : Bool}
    {answer : StripeAnswer} (hcall : s.create call = .checked attempt)
    (htime : s.InTime (.request call executed answer))
    (hstep : s.requestSubscription toLowercase call attempt executed answer = some s') : s'.Sound := by
  have hnow : (s.create call).created? = none := by rw [hcall]; rfl
  cases executed with
  | true =>
    obtain ⟨rfl, hholder⟩ := htime rfl
    cases hstep
    exact h.makeSubscription hcall hholder
  | false =>
    cases answer with
    | done => cases hstep
    | error err =>
      simp only [Subscriptions.requestSubscription] at hstep
      split at hstep
      · cases hstep
        exact h.setCreate hnow rfl fun attempt hphase => nomatch hphase
      · cases hstep
        exact h.setCreate hnow rfl fun _ _ hholder => h.checked call attempt hholder hcall

/-- The row of the new subscription is written before anything else becomes active. -/
theorem Sound.commit (h : s.Sound) {call sub : Nat} {status : SubscriptionStatus} (hcall : s.create call = .created sub)
    (htime : s.InTime (.commit call status)) : ((s.setRow sub status).setCreate call (.returned true)).Sound := by
  obtain ⟨hholder, hlt, hunique⟩ := h.created call sub hcall
  have hstatus := htime sub (by rw [hcall]; rfl)
  have hothers : ∀ other sub', s.create other = .created sub' → other = call := by
    intro other sub' hother
    exact Option.some.inj ((h.created other sub' hother).1.symm.trans hholder)
  have hnone : ∀ other sub', ((s.setRow sub status).setCreate call (.returned true)).create other ≠ .created sub' := by
    intro other sub' hother
    rw [create_setCreate] at hother
    split at hother
    next => cases hother
    next hne => exact hne (hothers other sub' hother)
  have hactive : ∀ other, (s.setRow sub status).Active other → other = sub := by
    intro other hother
    rcases active_setRow.mp hother with ⟨heq, -⟩ | ⟨-, hother⟩
    · exact heq
    · exact hunique other hother
  constructor
  · intro other sub' hother
    exact absurd hother (hnone other sub')
  · intro other attempt hother hphase
    cases hholder.symm.trans hother
    rw [create_setCreate, if_pos rfl] at hphase
    cases hphase
  · intro one two hone htwo
    exact (hactive one hone).trans (hactive two htwo).symm
  · intro other hlive
    by_cases heq : other = sub
    · subst heq
      refine .inl (active_setRow.mpr (.inl ⟨rfl, hstatus.resolve_right fun hdead => ?_⟩))
      exact Bool.false_ne_true (hdead.symm.trans hlive)
    · rcases h.recorded other hlive with hother | hpending | ⟨other', hother⟩
      · exact absurd (hunique other hother) heq
      · exact .inr (.inl ((row_setRow s sub other status).trans (by rw [if_neg heq, hpending])))
      · cases hothers other' other hother
        cases hcall.symm.trans hother
        exact absurd rfl heq
  · intro other hle
    have hne : other ≠ sub := by
      have hle : s.nextSub ≤ other := hle
      omega
    exact ⟨(row_setRow s sub other status).trans (by rw [if_neg hne, (h.fresh other hle).1]), (h.fresh other hle).2⟩

theorem Sound.step {toLowercase : String → String} (h : s.Sound) {action : SubscriptionAction} (htime : s.InTime action)
    (hstep : s.step toLowercase action = some s') : s'.Sound := by
  cases action with
  | tick seconds =>
    cases hstep
    exact h.tick htime
  | acquire call answered =>
    simp only [Subscriptions.step] at hstep
    split at hstep
    next hidle =>
      cases hstep
      exact h.acquireBillingLock answered hidle
    next => cases hstep
  | check call =>
    simp only [Subscriptions.step] at hstep
    split at hstep
    next hlocked =>
      cases hstep
      exact h.check hlocked
    next => cases hstep
  | request call executed answer =>
    simp only [Subscriptions.step] at hstep
    split at hstep
    next attempt hchecked => exact h.requestSubscription hchecked htime hstep
    next => cases hstep
  | commit call status =>
    simp only [Subscriptions.step] at hstep
    split at hstep
    next sub hcreated =>
      cases hstep
      exact h.commit hcreated htime
    next => cases hstep
  | abort call =>
    have hreturned : (s.setCreate call (.returned true)).Sound :=
      h.setCreate htime rfl fun attempt hphase => nomatch hphase
    simp only [Subscriptions.step] at hstep
    split at hstep <;> cases hstep <;> exact hreturned
  | release call =>
    simp only [Subscriptions.step] at hstep
    split at hstep
    next hreturned =>
      cases hstep
      exact h.release hreturned
    next => cases hstep
  | cancelRead call sub atPeriodEnd =>
    simp only [Subscriptions.step] at hstep
    split at hstep
    next =>
      split at hstep
      next =>
        cases hstep
        exact h.setCancel _ _
      next => cases hstep
    next => cases hstep
  | cancelMark call =>
    simp only [Subscriptions.step] at hstep
    split at hstep
    next sub status atPeriodEnd hread =>
      cases hstep
      have hmay : s.MayWrite sub .pendingCancellation := .inl rfl
      exact (h.updateRow hmay).setCancel _ _
    next => cases hstep
  | cancelRequest call ended answer =>
    simp only [Subscriptions.step] at hstep
    split at hstep
    next sub status atPeriodEnd hmarked =>
      cases hstep
      refine Sound.setCancel ?_ _ _
      split
      next => exact h.setLive fun hbilled => nomatch hbilled
      next => exact h
    next => cases hstep
  | cancelFinish call =>
    simp only [Subscriptions.step] at hstep
    split at hstep
    next sub final hanswered =>
      cases hstep
      have hmay : s.MayWrite sub final := htime (sub, final) (by rw [hanswered]; rfl)
      exact (h.updateRow hmay).setCancel _ _
    next => cases hstep
  | write sub status =>
    simp only [Subscriptions.step] at hstep
    split at hstep
    next hlt =>
      cases hstep
      exact h.setRow hlt htime
    next => cases hstep
  | bill sub billed =>
    simp only [Subscriptions.step] at hstep
    split at hstep
    next =>
      cases hstep
      exact h.setLive htime
    next => cases hstep

/-- In a run whose calls record what they create while they hold the lock, and whose rows follow Stripe, no two
    subscriptions of the organization keep others out, and none but those being cancelled is billed beside another. -/
theorem subscription_created_once (toLowercase : String → String) {run : List SubscriptionAction}
    (hmeets : Meets (step toLowercase) InTime start run) (hrun : exec (step toLowercase) start run = some t) :
    (∀ sub sub', t.Active sub → t.Active sub' → sub = sub') ∧
      ∀ sub sub', t.Billed sub → t.Billed sub' → sub = sub' := by
  have hpreserved : ∀ s a s', s.Sound → s.InTime a → step toLowercase s a = some s' → s'.Sound :=
    fun _ _ _ h htime hstep => h.step htime hstep
  have hsound : t.Sound := invariant_of_step hpreserved sound_start hmeets hrun
  exact ⟨hsound.one, fun _ _ hsub hsub' => hsound.billed_unique hsub hsub'⟩

/-- Two calls at once, the second refused; a cancellation during which a third call makes another subscription. -/
theorem subscription_created_once_twoCalls :
    let run : List SubscriptionAction := [.acquire 0 true, .acquire 1 true, .check 0, .tick 4,
      .request 0 false (.error (.client "connection reset")), .tick 1, .request 0 true .done, .write 0 .incomplete,
      .commit 0 .incomplete, .release 0, .tick 60, .write 0 .active, .acquire 2 true, .check 2, .release 2,
      .cancelRead 0 0 true, .cancelMark 0, .acquire 3 true, .check 3, .request 3 true .done, .commit 3 .active,
      .cancelRequest 0 true (.error (.stripe (some "resource_missing") none)), .cancelFinish 0, .release 3]
    ∃ t, exec (step id) start run = some t ∧ t.row 0 = some .canceled ∧ t.row 1 = some .active ∧
      (∀ sub sub', t.Active sub → t.Active sub' → sub = sub') ∧
      ∀ sub sub', t.Billed sub → t.Billed sub' → sub = sub' := by
  intro run
  have hmeets : Meets (step id) InTime start run := by decide +kernel
  have hrows : ((exec (step id) start run).map fun t => (t.row 0, t.row 1)) = some (some .canceled, some .active) := by
    decide +kernel
  obtain ⟨t, hrun, hrow⟩ := Option.map_eq_some_iff.mp hrows
  obtain ⟨hrow, hrow'⟩ := Prod.mk.inj hrow
  exact ⟨t, hrun, hrow, hrow', subscription_created_once id hmeets hrun⟩

/-- The answer to a request that Stripe carried out is lost, and the next request makes a second subscription. -/
example : ((exec (step id) start [.acquire 0 true, .check 0, .request 0 true (.error (.client "operation timeout")),
    .request 0 true .done, .commit 0 .active]).map fun t => (t.live 0, t.live 1)) = some (true, true) := by
      decide +kernel

/-- A call outlives its lock, and the next one finds nothing recorded. -/
example : ((exec (step id) start [.acquire 0 true, .check 0, .request 0 true .done, .tick 30, .acquire 1 true, .check 1,
    .request 1 true .done, .commit 1 .active, .commit 0 .active]).map fun t => (t.row 0, t.row 1)) =
      some (some .active, some .active) := by decide +kernel

/-- Stripe refuses a cancellation, and the row is put back beside the subscription made meanwhile. -/
example : ((exec (step id) start [.acquire 0 true, .check 0, .request 0 true .done, .commit 0 .active, .release 0,
    .cancelRead 0 0 false, .cancelMark 0, .acquire 1 true, .check 1, .request 1 true .done, .commit 1 .active,
    .cancelRequest 0 false (.error (.stripe (some "rate_limit") none)), .cancelFinish 0]).map
      fun t => (t.row 0, t.row 1)) = some (some .active, some .active) := by decide +kernel

end Invariant

end Subscriptions

end Reiver.Core
