import Reiver.Lib.Run
import Reiver.Lib.Dict

/-! # Alerts

The model of `evaluate_rule` of `alert_worker.rs`: the row of a rule in `alerts`, what is handed to the channels of the
rule, and a run of the worker with what the database and the channels answer. The metric value is of any ordered type;
nothing is assumed of its order. -/

namespace Reiver.Watch

/-- `OK` and `ALERT`, as stored and as notified. -/
inductive AlertState where
  | ok
  | firing
deriving DecidableEq

/-- Durations are seconds; points in time are nanoseconds. -/
structure AlertRule (V : Type) where
  threshold : V
  thresholdType : String
  notificationChannels : List Uuid
  alertOnAbsent : Bool
  absentForSeconds : Int
  evalWindowSeconds : Int

structure Alert (V : Type) where
  state : AlertState
  value : Option V
  stateChangedAt : Int
  checkedAt : Int
deriving DecidableEq

structure AlertNotification (V : Type) where
  state : AlertState
  value : Option V
  firedAt : Option Int
  resolvedAt : Option Int
  isMissing : Bool
deriving DecidableEq

inductive AlertEvent (V : Type) where
  | changed (state : AlertState)
  | notified (channel : Uuid) (notification : AlertNotification V)
deriving DecidableEq

/-- The row of the rule, if there is one, and what has happened to it and to the channels, the oldest first. -/
structure AlertStore (V : Type) where
  alert : Option (Alert V) := none
  log : List (AlertEvent V) := []
deriving DecidableEq

/-! ### What a run meets -/

/-- A write of the database. An error may come after it took place. -/
inductive WriteOutcome where
  | done
  | failed
  | unacknowledged
deriving DecidableEq

def WriteOutcome.applies : WriteOutcome → Bool
  | .failed => false
  | _ => true

def WriteOutcome.acknowledged : WriteOutcome → Bool
  | .done => true
  | _ => false

inductive ChannelOutcome where
  | accepted
  | refused
  | notFound
  | unloaded
deriving DecidableEq

/-- What a run is answered and when; `none` is an error. A channel is known by its place in the list of the rule. -/
structure Evaluation (V : Type) where
  metricValue : Option V
  selected : Bool := true
  insertedAt : Int := 0
  insert : WriteOutcome := .done
  now : Int
  resetAt : Int := 0
  reset : WriteOutcome := .done
  updatedAt : Int := 0
  update : WriteOutcome := .done
  notifiedAt : Int := 0
  channel : Nat → ChannelOutcome := fun _ => .accepted
  recorded : Bool := true
  checkedAt : Int := 0
  check : WriteOutcome := .done

/-! ### The worker -/

section Worker
variable {V : Type} [LT V] [DecidableLT V] [LE V] [DecidableLE V]

def checkThreshold (value threshold : V) (thresholdType : String) : Bool :=
  match thresholdType with
  | "above" => threshold < value
  | "below" => value < threshold
  | "above_or_equal" => threshold ≤ value
  | "below_or_equal" => value ≤ threshold
  | _ => threshold < value

def seconds (n : Int) : Int := n * 1000000000

/-- The alert has been in `ALERT` for longer than the window. -/
def Alert.expired (alert : Alert V) (rule : AlertRule V) (now : Int) : Bool :=
  alert.state == .firing && decide (seconds rule.evalWindowSeconds < now - alert.stateChangedAt)

variable [BEq V] [Zero V]

def absentDurationExceeded (rule : AlertRule V) (alert : Alert V) (value : V) (now : Int) : Bool :=
  let dataAbsent := rule.alertOnAbsent && value == 0 && decide (0 < rule.absentForSeconds)
  dataAbsent && decide (seconds rule.absentForSeconds ≤ now - alert.checkedAt)

def newState (rule : AlertRule V) (alert : Alert V) (value : V) (now : Int) : AlertState :=
  if checkThreshold value rule.threshold rule.thresholdType || absentDurationExceeded rule alert value now then .firing
  else .ok

end Worker

section Statements
variable {V : Type}

def getOrCreateAlert (run : Evaluation V) (s : AlertStore V) : AlertStore V × Option (Alert V) :=
  if run.selected then
    match s.alert with
    | some alert => (s, some alert)
    | none =>
      let alert := { state := .ok, value := none, stateChangedAt := run.insertedAt, checkedAt := run.insertedAt }
      (if run.insert.applies then { s with alert := some alert } else s,
        if run.insert.acknowledged then some alert else none)
  else (s, none)

def setState (outcome : WriteOutcome) (f : Alert V → Alert V) (state : AlertState) (s : AlertStore V) : AlertStore V :=
  if outcome.applies then { alert := s.alert.map f, log := s.log ++ [.changed state] } else s

def resetAlertState (run : Evaluation V) : AlertStore V → AlertStore V :=
  setState run.reset (fun alert => { alert with state := .ok, stateChangedAt := run.resetAt }) .ok

def updateAlertState (run : Evaluation V) (state : AlertState) (value : V) : AlertStore V → AlertStore V :=
  setState run.update (fun _ => { state, value, stateChangedAt := run.updatedAt, checkedAt := run.updatedAt }) state

def updateAlertCheckedAt (run : Evaluation V) (s : AlertStore V) : AlertStore V :=
  if run.check.applies then { s with alert := s.alert.map fun alert => { alert with checkedAt := run.checkedAt } }
    else s

def alertNotification (run : Evaluation V) (state : AlertState) (value : V) (isAbsent : Bool) :
    AlertNotification V where
  state
  value
  firedAt := if state = .firing then some run.notifiedAt else none
  resolvedAt := if state = .ok then some run.notifiedAt else none
  isMissing := isAbsent

def acceptedBy (rule : AlertRule V) (run : Evaluation V) : List Uuid :=
  (rule.notificationChannels.zipIdx.filter fun e => run.channel e.2 = .accepted).map (·.1)

/-- Each channel is tried once; an error is logged. -/
def sendAlertNotifications (rule : AlertRule V) (run : Evaluation V) (state : AlertState) (value : V) (isAbsent : Bool)
    (s : AlertStore V) : AlertStore V :=
  { s with log := s.log ++ (acceptedBy rule run).map (.notified · (alertNotification run state value isAbsent)) }

def recordCheck (run : Evaluation V) (s : AlertStore V) : AlertStore V × Bool :=
  if run.recorded then (updateAlertCheckedAt run s, run.check.acknowledged) else (s, false)

variable [LT V] [DecidableLT V] [LE V] [DecidableLE V] [BEq V] [Zero V]

/-- A run from the state that it has read, or reset to OK. -/
def handleTransition (rule : AlertRule V) (run : Evaluation V) (alert : Alert V) (value : V) (s : AlertStore V) :
    AlertStore V × Bool :=
  let new := newState rule alert value run.now
  if alert.state ≠ new then
    let s := updateAlertState run new value s
    if run.update.acknowledged then
      recordCheck run (sendAlertNotifications rule run new value (absentDurationExceeded rule alert value run.now) s)
    else (s, false)
  else recordCheck run s

/-- What a run does to the row and hands to the channels, and whether it ended without an error. -/
def evaluateRule (rule : AlertRule V) (run : Evaluation V) (s : AlertStore V) : AlertStore V × Bool :=
  match run.metricValue with
  | none => (s, false)
  | some value =>
    match getOrCreateAlert run s with
    | (s, none) => (s, false)
    | (s, some alert) =>
      let reset := alert.expired rule run.now
      let s := if reset then resetAlertState run s else s
      if reset && !run.reset.acknowledged then (s, false)
      else
        let alert := if reset then { alert with state := .ok, stateChangedAt := run.now } else alert
        handleTransition rule run alert value s

def step (rule : AlertRule V) (s : AlertStore V) (run : Evaluation V) : Option (AlertStore V) :=
  some (evaluateRule rule run s).1

/-! ### What the channels know -/

namespace AlertStore

def state (s : AlertStore V) : AlertState := s.alert.elim .ok (·.state)

end AlertStore

def AlertEvent.notificationTo (channel : Uuid) : AlertEvent V → Option (AlertNotification V)
  | .notified c notification => if c = channel then some notification else none
  | .changed _ => none

/-- The state that a channel was last notified of; without a notification it is OK. -/
def lastNotified (channel : Uuid) (log : List (AlertEvent V)) : AlertState :=
  (log.filterMap (AlertEvent.notificationTo channel)).getLast?.elim .ok (·.state)

/-- After each change the channel got a notification. -/
def FollowedBy (channel : Uuid) (log : List (AlertEvent V)) : Prop :=
  ∀ before state after, log = before ++ .changed state :: after → ∃ notification, .notified channel notification ∈ after

namespace AlertStore

def Agrees (rule : AlertRule V) (s : AlertStore V) : Prop :=
  ∀ channel ∈ rule.notificationChannels, lastNotified channel s.log = s.state

def Followed (rule : AlertRule V) (s : AlertStore V) : Prop :=
  ∀ channel ∈ rule.notificationChannels, FollowedBy channel s.log

end AlertStore

/-- After each run of a sequence the channels agree with the stored state, and in the end each change was followed by a
    notification. -/
structure HandedOver (rule : AlertRule V) (runs : List (Evaluation V)) : Prop where
  agrees : Always (step rule) (AlertStore.Agrees rule) {} runs
  followed : ∀ s ∈ exec (step rule) {} runs, s.Followed rule

/-- A run that writes a state is told so, and all channels take the notification of it; it resets no alert whose value
    is back below the threshold. -/
def NotifiesChanges (rule : AlertRule V) (s : AlertStore V) (run : Evaluation V) : Prop :=
  rule.notificationChannels ≠ [] → ∀ value ∈ run.metricValue, ∀ alert ∈ (getOrCreateAlert run s).2,
    if alert.expired rule run.now then
      run.reset.applies = true →
        run.reset.acknowledged = true ∧ newState rule alert value run.now = .firing ∧ run.update.acknowledged = true ∧
          ∀ channel ∈ rule.notificationChannels, channel ∈ acceptedBy rule run
    else
      alert.state ≠ newState rule alert value run.now → run.update.applies = true →
        run.update.acknowledged = true ∧ ∀ channel ∈ rule.notificationChannels, channel ∈ acceptedBy rule run

end Statements

end Reiver.Watch
