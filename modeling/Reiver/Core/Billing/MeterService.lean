import Reiver.Lib.Dict
import Reiver.Lib.Run

/-! # The meter service

The model of `flush_loop` of `meter_service.rs`: the channel, the events that are pending, the cache of customer ids and
the table behind it, in the steps between which other tasks send events. What was attempted and what was dropped is kept
in a log; an event is known by its place among the accepted ones. -/

namespace Reiver.Core

inductive MeterName where
  | moodengCredits
  | sessionScans
  | observabilityGb
deriving DecidableEq

def MeterName.eventName : MeterName → String
  | .moodengCredits => "moodeng_credits"
  | .sessionScans => "session_scans"
  | .observabilityGb => "observability_gb"

def channelCapacity : Nat := 10000
def maxRetriesPerEvent : Nat := 3
def cachePurgeInterval : Nat := 360

structure UsageEvent where
  id : Nat
  meter : MeterName
  organizationId : Uuid
  value : Int
  idempotencyKey : String
deriving DecidableEq

structure PendingFlush extends UsageEvent where
  retries : Nat
deriving DecidableEq

structure MeterRequest where
  eventName : String
  stripeCustomerId : String
  value : Int
  identifier : String
deriving DecidableEq

/-- A dropped event comes with the customer that its organization had in the table. -/
inductive FlushRecord where
  | attempt (id : Nat) (request : MeterRequest) (sent : Bool)
  | dropped (id : Nat) (customer : Option String)
deriving DecidableEq

def FlushRecord.id : FlushRecord → Nat
  | attempt id _ _ => id
  | dropped id _ => id

inductive FlushPhase where
  | receiving
  | draining
  | resolving
  | flushing
  | finished
deriving DecidableEq

structure MeterService where
  /-- Some sender is left. -/
  senders : Bool := true
  queue : List UsageEvent := []
  pending : List PendingFlush := []
  customerCache : Dict Uuid String := ∅
  flushCount : Nat := 0
  phase : FlushPhase := .receiving
  stripeCustomers : Uuid → Option String := fun _ => none
  accepted : Nat := 0
  log : List FlushRecord := []

/-- The outcomes of look-ups and sends are by the place of the event in `pending`. -/
inductive MeterAction where
  | sendEvent (meter : MeterName) (organizationId : Uuid) (value : Int) (idempotencyKey : String)
  | dropSenders
  | setCustomer (organizationId : Uuid) (customer : Option String)
  | receive
  | timeout
  | tryReceive
  | resolve (found : Nat → Bool)
  | flush (sent : Nat → Bool)
  | close (sent : Nat → Bool)

namespace MeterService

/-- An event without a value, or for which the channel has no room, is not accepted. -/
def sendEvent (s : MeterService) (meter : MeterName) (organizationId : Uuid) (value : Int) (idempotencyKey : String) :
    MeterService :=
  if value ≤ 0 ∨ channelCapacity ≤ s.queue.length then s
  else
    { s with
      queue := s.queue ++ [{ id := s.accepted, meter, organizationId, value, idempotencyKey }]
      accepted := s.accepted + 1 }

def push (s : MeterService) (event : UsageEvent) (queue : List UsageEvent) : MeterService :=
  { s with queue, pending := s.pending ++ [{ toUsageEvent := event, retries := 0 }], phase := .draining }

/-- An error of the look-up leaves the cache as a missing customer does. -/
def resolveCustomer (s : MeterService) (found : Bool) (cache : Dict Uuid String) (organizationId : Uuid) :
    Dict Uuid String :=
  match cache.lookup organizationId with
  | some _ => cache
  | none =>
    match (if found then s.stripeCustomers organizationId else none) with
    | some id => cache.insert organizationId id
    | none => cache

def resolveCustomers (s : MeterService) (found : Nat → Bool) : MeterService :=
  { s with
    customerCache := s.pending.zipIdx.foldl
      (fun cache e => s.resolveCustomer (found e.2) cache e.1.organizationId) s.customerCache
    phase := .flushing }

/-- What becomes of an event, and what is left of it for the retry queue. -/
def flushEvent (s : MeterService) (sent : Bool) (event : PendingFlush) : FlushRecord × Option PendingFlush :=
  match s.customerCache.lookup event.organizationId with
  | none => (.dropped event.id (s.stripeCustomers event.organizationId), none)
  | some stripeCustomerId =>
    let request := {
      eventName := event.meter.eventName
      stripeCustomerId
      value := event.value
      identifier := event.idempotencyKey }
    (.attempt event.id request sent,
      if sent || maxRetriesPerEvent ≤ event.retries then none else some { event with retries := event.retries + 1 })

def flushPending (s : MeterService) (sent : Nat → Bool) : MeterService :=
  { s with
    pending := s.pending.zipIdx.filterMap fun e => (s.flushEvent (sent e.2) e.1).2
    log := s.log ++ s.pending.zipIdx.map fun e => (s.flushEvent (sent e.2) e.1).1 }

def countFlush (s : MeterService) : MeterService :=
  if cachePurgeInterval ≤ s.flushCount + 1 then { s with flushCount := 0, customerCache := ∅, phase := .receiving }
  else { s with flushCount := s.flushCount + 1, phase := .receiving }

def step (s : MeterService) : MeterAction → Option MeterService
  | .sendEvent meter organizationId value idempotencyKey =>
    if s.senders then some (s.sendEvent meter organizationId value idempotencyKey) else none
  | .dropSenders => some { s with senders := false }
  | .setCustomer organizationId customer =>
    some { s with stripeCustomers := Function.update s.stripeCustomers organizationId customer }
  | .receive =>
    match s.phase, s.queue with
    | .receiving, event :: queue => some (s.push event queue)
    | _, _ => none
  | .timeout =>
    match s.phase, s.queue with
    | .receiving, [] => if s.senders then some { s with phase := .draining } else none
    | _, _ => none
  | .tryReceive =>
    match s.phase, s.queue with
    | .draining, event :: queue => some (s.push event queue)
    | .draining, [] => some { s with phase := if s.pending.isEmpty then .receiving else .resolving }
    | _, _ => none
  | .resolve found => if s.phase = .resolving then some (s.resolveCustomers found) else none
  | .flush sent => if s.phase = .flushing then some (s.flushPending sent).countFlush else none
  | .close sent =>
    match s.phase, s.queue with
    | .receiving, [] =>
      -- The retry queue ends with the loop.
      if s.senders then none else some { s.flushPending sent with pending := [], phase := .finished }
    | _, _ => none

/-! ### What is delivered -/

def records (s : MeterService) (id : Nat) : List FlushRecord := s.log.filter (·.id = id)

end MeterService

def FlushRecord.isSent : FlushRecord → Bool
  | attempt _ _ sent => sent
  | dropped _ _ => false

def FlushRecord.isFailure : FlushRecord → Bool
  | attempt _ _ sent => !sent
  | dropped _ _ => false

def FlushRecord.isUnbillable : FlushRecord → Bool
  | attempt _ _ _ => false
  | dropped _ customer => customer.isNone

/-- An event is done with once it was sent, has failed as often as it may, or has nobody to bill. -/
def Settled (records : List FlushRecord) : Prop :=
  records.any (·.isSent) = true ∨ maxRetriesPerEvent + 1 ≤ records.countP (·.isFailure) ∨
    records.any (·.isUnbillable) = true

instance (records : List FlushRecord) : Decidable (Settled records) :=
  inferInstanceAs (Decidable (_ ∨ _ ∨ _))

namespace MeterService

/-- The events in the channel and those that are pending. -/
def live (s : MeterService) : List Nat := s.queue.map (·.id) ++ s.pending.map (·.id)

/-- Every accepted event is still there or settled, not both, and was neither sent twice nor tried too often. -/
structure Delivered (s : MeterService) : Prop where
  kept : ∀ id < s.accepted, id ∈ s.live ∨ Settled (s.records id)
  stops : ∀ id ∈ s.live, ¬Settled (s.records id)
  once : ∀ id, (s.records id).countP (·.isSent) ≤ 1
  bounded : ∀ id, (s.records id).countP (·.isFailure) ≤ maxRetriesPerEvent + 1

/-- The organization of an event is in the cache, or has no customer. -/
def Billed (s : MeterService) (event : PendingFlush) : Prop :=
  (s.customerCache.lookup event.organizationId).isSome = true ∨ s.stripeCustomers event.organizationId = none

/-- Where events are flushed, each has its customer found if it has one; where the loop ends, each is sent that has a
    customer, or it was the last time. -/
def Reaches (s : MeterService) : MeterAction → Prop
  | .flush _ => ∀ event ∈ s.pending, s.Billed event
  | .close sent => ∀ e ∈ s.pending.zipIdx, s.Billed e.1 ∧
    ((s.customerCache.lookup e.1.organizationId).isSome = true → sent e.2 = true ∨ maxRetriesPerEvent ≤ e.1.retries)
  | _ => True

end MeterService

end Reiver.Core
