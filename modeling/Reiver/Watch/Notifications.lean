import Reiver.Watch.Alerts

/-! # What the channels are told

A run leaves the row and the channels as they were, changes the row in silence, or changes it and tells some channels
(`evaluateRule_cases`). The channels agree with the row as long as every change is told to all of them. -/

namespace Reiver.Watch

section Log
variable {V : Type} {channel : Uuid} {log : List (AlertEvent V)} {notification : AlertNotification V}
  {channels : List Uuid}

theorem lastNotified_notified (h : channel ∈ channels) :
    lastNotified channel (log ++ channels.map (.notified · notification)) = notification.state := by
  have htold : (channels.map (AlertEvent.notified · notification)).filterMap (AlertEvent.notificationTo channel) =
      List.replicate (channels.count channel) notification := by
    clear h
    induction channels with
    | nil => rfl
    | cons c channels ih =>
      rw [List.map_cons, List.filterMap_cons, List.count_cons, ih, AlertEvent.notificationTo]
      by_cases hc : c = channel
      · simp [hc, List.replicate_succ]
      · simp [hc]
  have hpos : 0 < channels.count channel := List.count_pos_iff.mpr h
  obtain ⟨n, hn⟩ := Nat.exists_eq_succ_of_ne_zero (Nat.pos_iff_ne_zero.mp hpos)
  rw [lastNotified, List.filterMap_append, htold, hn, List.replicate_succ']
  simp

theorem not_followedBy_changed {state : AlertState} : ¬FollowedBy channel (log ++ [.changed state]) := by
  intro h
  obtain ⟨_, hmem⟩ := h log state [] rfl
  cases hmem

theorem followedBy_notified (h : channel ∈ channels) :
    FollowedBy channel (log ++ channels.map (.notified · notification)) := by
  have hsent : ∀ state, AlertEvent.changed state ∉ channels.map (AlertEvent.notified · notification) := by
    intro state hmem
    obtain ⟨_, -, heq⟩ := List.mem_map.mp hmem
    cases heq
  intro before state after heq
  rcases List.append_eq_append_iff.mp heq with ⟨rest, -, hrest⟩ | ⟨rest, -, hrest⟩
  · exact absurd (hrest ▸ List.mem_append_right _ List.mem_cons_self) (hsent state)
  · cases rest with
    | nil =>
      rw [List.nil_append] at hrest
      exact absurd (hrest ▸ List.mem_cons_self) (hsent state)
    | cons e rest =>
      obtain ⟨-, rfl⟩ := List.cons.inj hrest
      exact ⟨notification, List.mem_append_right _ (List.mem_map_of_mem h)⟩

theorem followedBy_of_not_mem {state : AlertState} (h : channel ∉ channels) :
    ¬FollowedBy channel (log ++ [.changed state] ++ channels.map (.notified · notification)) := by
  intro hfollowed
  obtain ⟨n, hmem⟩ := hfollowed log state (channels.map (.notified · notification)) (by simp)
  obtain ⟨c, hc, heq⟩ := List.mem_map.mp hmem
  cases heq
  exact h hc

end Log

/-! ### A run -/

section Statements
variable {V : Type} {rule : AlertRule V} {run : Evaluation V} {s s' : AlertStore V}

structure Quiet (s s' : AlertStore V) : Prop where
  state : s'.state = s.state
  log : s'.log = s.log

def Silent (s' : AlertStore V) : Prop := ∃ log state, s'.log = log ++ [.changed state]

/-- A change, and the channels that took the notification of it. -/
structure Told (rule : AlertRule V) (run : Evaluation V) (s' : AlertStore V) : Prop where
  log : ∃ log notification,
    s'.log = log ++ [.changed s'.state] ++ (acceptedBy rule run).map (.notified · notification) ∧
    notification.state = s'.state

theorem getOrCreateAlert_quiet : Quiet s (getOrCreateAlert run s).1 := by
  rw [getOrCreateAlert]
  split
  · split
    · exact ⟨rfl, rfl⟩
    · next hnone =>
      refine ⟨?_, ?_⟩
      · rw [AlertStore.state, AlertStore.state, hnone]
        dsimp only
        split
        · rfl
        · rw [hnone]
      · dsimp only
        split <;> rfl
  · exact ⟨rfl, rfl⟩

theorem WriteOutcome.applies_of_acknowledged {outcome : WriteOutcome} (h : outcome.acknowledged = true) :
    outcome.applies = true := by
  cases outcome with
  | done => rfl
  | _ => cases h

theorem getOrCreateAlert_some {alert : Alert V} (h : (getOrCreateAlert run s).2 = some alert) :
    (getOrCreateAlert run s).1.alert = some alert := by
  by_cases hselected : run.selected = true
  · rw [getOrCreateAlert, if_pos hselected] at h ⊢
    cases hrow : s.alert with
    | some found =>
      rw [hrow] at h
      exact hrow.trans h
    | none =>
      rw [hrow] at h
      cases hinsert : run.insert with
      | done =>
        rw [hinsert] at h
        exact h
      | failed =>
        rw [hinsert] at h
        cases h
      | unacknowledged =>
        rw [hinsert] at h
        cases h
  · rw [getOrCreateAlert, if_neg hselected] at h
    cases h

theorem recordCheck_quiet : Quiet s (recordCheck run s).1 := by
  rw [recordCheck]
  split
  · rw [updateAlertCheckedAt]
    split
    · refine ⟨?_, rfl⟩
      rw [AlertStore.state, AlertStore.state]
      cases s.alert with
      | none => rfl
      | some alert => rfl
    · exact ⟨rfl, rfl⟩
  · exact ⟨rfl, rfl⟩

theorem setState_alert {outcome : WriteOutcome} {f : Alert V → Alert V} {state : AlertState} {alert : Alert V}
    (h : outcome.applies = true) (halert : s.alert = some alert) :
    setState outcome f state s = { alert := some (f alert), log := s.log ++ [.changed state] } := by
  rw [setState, if_pos h, halert]
  rfl

theorem Quiet.trans {t : AlertStore V} (h : Quiet s t) (h' : Quiet t s') : Quiet s s' :=
  ⟨h'.state.trans h.state, h'.log.trans h.log⟩

theorem Silent.of_quiet (h : Silent s) (hquiet : Quiet s s') : Silent s' := by
  obtain ⟨log, state, hlog⟩ := h
  exact ⟨log, state, hquiet.log.trans hlog⟩

end Statements

section Run
variable {V : Type} [LT V] [DecidableLT V] [LE V] [DecidableLE V] [BEq V] [Zero V] {rule : AlertRule V}
  {run : Evaluation V} {s s' : AlertStore V}

theorem handleTransition_cases {alert row : Alert V} {value : V} (hrow : s.alert = some row)
    (hs' : s' = (handleTransition rule run alert value s).1) :
    (Quiet s s' ∧ (alert.state ≠ newState rule alert value run.now → run.update.applies = false)) ∨
      alert.state ≠ newState rule alert value run.now ∧ run.update.applies = true ∧
        (run.update.acknowledged = false ∧ Silent s' ∨ run.update.acknowledged = true ∧ Told rule run s') := by
  rw [handleTransition] at hs'
  by_cases hchange : alert.state = newState rule alert value run.now
  · rw [if_neg (not_not.mpr hchange)] at hs'
    exact .inl ⟨hs' ▸ recordCheck_quiet, fun h => absurd hchange h⟩
  · rw [if_pos hchange] at hs'
    have hupdated : run.update.applies = true →
        updateAlertState run (newState rule alert value run.now) value s = _ := fun h => setState_alert h hrow
    cases hupdate : run.update with
    | failed =>
      refine .inl ⟨?_, fun _ => rfl⟩
      rw [hs', hupdate, updateAlertState, setState, hupdate]
      exact ⟨rfl, rfl⟩
    | unacknowledged =>
      rw [hupdate] at hs' hupdated
      refine .inr ⟨hchange, rfl, .inl ⟨rfl, s.log, newState rule alert value run.now, ?_⟩⟩
      rw [hs']
      exact congrArg AlertStore.log (hupdated rfl)
    | done =>
      rw [hupdate] at hs' hupdated
      rw [hupdated rfl] at hs'
      have hquiet := hs' ▸ @recordCheck_quiet V run _
      have hstate : s'.state = newState rule alert value run.now := hquiet.state
      refine .inr ⟨hchange, rfl, .inr ⟨rfl, s.log, alertNotification run (newState rule alert value run.now) value
        (absentDurationExceeded rule alert value run.now), ?_, hstate.symm⟩⟩
      rw [hquiet.log, hstate]
      rfl

theorem notifiesChanges_iff {value : V} {alert : Alert V} (hchannels : rule.notificationChannels ≠ [])
    (hvalue : run.metricValue = some value) (halert : (getOrCreateAlert run s).2 = some alert) :
    NotifiesChanges rule s run ↔
      if alert.expired rule run.now then
        run.reset.applies = true →
          run.reset.acknowledged = true ∧ newState rule alert value run.now = .firing ∧ run.update.acknowledged = true ∧
            ∀ channel ∈ rule.notificationChannels, channel ∈ acceptedBy rule run
      else
        alert.state ≠ newState rule alert value run.now → run.update.applies = true →
          run.update.acknowledged = true ∧ ∀ channel ∈ rule.notificationChannels, channel ∈ acceptedBy rule run := by
  rw [NotifiesChanges, hvalue, halert]
  simp [hchannels]

/-- What a run does is what its condition says of it. -/
theorem evaluateRule_cases (hchannels : rule.notificationChannels ≠ []) (hs' : s' = (evaluateRule rule run s).1) :
    (Quiet s s' ∧ NotifiesChanges rule s run) ∨ (Silent s' ∧ ¬NotifiesChanges rule s run) ∨
      (Told rule run s' ∧
        (NotifiesChanges rule s run ↔ ∀ channel ∈ rule.notificationChannels, channel ∈ acceptedBy rule run)) := by
  have hquiet : Quiet s (getOrCreateAlert run s).1 := getOrCreateAlert_quiet
  rw [evaluateRule] at hs'
  cases hvalue : run.metricValue with
  | none =>
    rw [hvalue] at hs'
    exact .inl ⟨⟨congrArg _ hs', congrArg _ hs'⟩, fun _ _ h => by rw [hvalue] at h; cases h⟩
  | some value =>
    rw [hvalue] at hs'
    cases halert : (getOrCreateAlert run s).2 with
    | none =>
      have hpair : getOrCreateAlert run s = ((getOrCreateAlert run s).1, none) := Prod.ext rfl halert
      rw [hpair] at hs'
      exact .inl ⟨hs' ▸ hquiet, fun _ _ _ _ h => by rw [halert] at h; cases h⟩
    | some alert =>
      have hpair : getOrCreateAlert run s = ((getOrCreateAlert run s).1, some alert) := Prod.ext rfl halert
      have hrow := getOrCreateAlert_some halert
      rw [notifiesChanges_iff hchannels hvalue halert]
      rw [hpair] at hs'
      generalize (getOrCreateAlert run s).1 = found at hs' hquiet hrow
      dsimp only at hs'
      by_cases hexpired : alert.expired rule run.now = true
      · rw [if_pos hexpired]
        rw [hexpired, if_pos rfl, Bool.true_and, if_pos rfl] at hs'
        cases hreset : run.reset with
        | failed =>
          rw [hreset] at hs'
          refine .inl ⟨?_, fun happlies => by cases happlies⟩
          rw [hs', resetAlertState, setState, hreset]
          exact hquiet
        | unacknowledged =>
          rw [hreset] at hs'
          refine .inr (.inl ⟨⟨found.log, .ok, ?_⟩, fun h => by cases (h rfl).1⟩)
          rw [hs', resetAlertState, setState, hreset]
          rfl
        | done =>
          have happlies : run.reset.applies = true := by rw [hreset]; rfl
          rw [hreset, resetAlertState, setState_alert happlies hrow] at hs'
          have hreset : Silent
              { alert := some { alert with state := .ok, stateChangedAt := run.resetAt },
                log := found.log ++ [.changed .ok] } :=
            ⟨found.log, .ok, rfl⟩
          rcases handleTransition_cases rfl hs' with ⟨hkept, hstays⟩ | ⟨hfires, happlies, hend⟩
          · refine .inr (.inl ⟨hreset.of_quiet hkept, fun h => ?_⟩)
            obtain ⟨-, hfiring, hack, -⟩ := h rfl
            have hfailed := hstays fun heq => by
              have hfires : newState rule alert value run.now = .ok := heq.symm
              rw [hfiring] at hfires
              cases hfires
            rw [WriteOutcome.applies_of_acknowledged hack] at hfailed
            cases hfailed
          · have hfiring : newState rule alert value run.now = .firing := by
              cases hnew : newState rule alert value run.now with
              | ok => exact absurd hnew.symm hfires
              | firing => rfl
            rcases hend with ⟨hack, hsilent⟩ | ⟨hack, htold⟩
            · refine .inr (.inl ⟨hsilent, fun h => ?_⟩)
              have hsaid := (h rfl).2.2.1
              rw [hack] at hsaid
              cases hsaid
            · exact .inr (.inr ⟨htold, fun h => (h rfl).2.2.2, fun h _ => ⟨rfl, hfiring, hack, h⟩⟩)
      · rw [if_neg hexpired]
        rw [Bool.eq_false_iff.mpr hexpired, if_neg Bool.false_ne_true, Bool.false_and, if_neg Bool.false_ne_true,
          if_neg Bool.false_ne_true] at hs'
        rcases handleTransition_cases hrow hs' with
          ⟨hkept, hstays⟩ | ⟨hchange, happlies, ⟨hack, hsilent⟩ | ⟨hack, htold⟩⟩
        · exact .inl ⟨hquiet.trans hkept, fun h happlies => by rw [hstays h] at happlies; cases happlies⟩
        · refine .inr (.inl ⟨hsilent, fun h => ?_⟩)
          have hsaid := (h hchange happlies).1
          rw [hack] at hsaid
          cases hsaid
        · exact .inr (.inr ⟨htold, fun h => (h hchange happlies).2, fun h _ _ => ⟨hack, h⟩⟩)

/-! ### Sequences of runs -/

theorem notified_step (hagrees : s.Agrees rule) (hfollowed : s.Followed rule) (hs : step rule s run = some s') :
    (s'.Agrees rule ∧ s'.Followed rule) ↔ NotifiesChanges rule s run := by
  by_cases hchannels : rule.notificationChannels = []
  · refine iff_of_true ⟨fun c hc => ?_, fun c hc => ?_⟩ fun h => absurd hchannels h
    all_goals
      rw [hchannels] at hc
      cases hc
  · rcases evaluateRule_cases hchannels (Option.some.inj hs).symm with
      ⟨hquiet, hcond⟩ | ⟨⟨log, state, hlog⟩, hcond⟩ | ⟨⟨log, notification, hlog, hstate⟩, hcond⟩
    · refine iff_of_true ⟨fun c hc => ?_, fun c hc => ?_⟩ hcond
      · rw [hquiet.log, hquiet.state]
        exact hagrees c hc
      · rw [hquiet.log]
        exact hfollowed c hc
    · refine iff_of_false (fun h => ?_) hcond
      obtain ⟨c, hc⟩ := List.exists_mem_of_ne_nil _ hchannels
      exact not_followedBy_changed (hlog ▸ h.2 c hc)
    · rw [hcond]
      constructor
      · intro h c hc
        by_contra hnot
        exact followedBy_of_not_mem hnot (hlog ▸ h.2 c hc)
      · intro h
        refine ⟨fun c hc => ?_, fun c hc => ?_⟩
        · rw [hlog, lastNotified_notified (h c hc), hstate]
        · rw [hlog]
          exact followedBy_notified (h c hc)

end Run

/-- A sequence of runs and all its beginnings hand over what is stored exactly if each run notifies its changes. -/
theorem handedOver_iff {V : Type} [LT V] [DecidableLT V] [LE V] [DecidableLE V] [BEq V] [Zero V] (rule : AlertRule V)
    (runs : List (Evaluation V)) :
    (∀ seen, seen <+: runs → HandedOver rule seen) ↔ Meets (step rule) (NotifiesChanges rule) {} runs := by
  have hstart : AlertStore.Agrees rule {} ∧ AlertStore.Followed rule {} := by
    refine ⟨fun _ _ => rfl, fun c _ before state after heq => ?_⟩
    simp at heq
  have hiff : Always (step rule) (fun s => s.Agrees rule ∧ s.Followed rule) {} runs ↔
      Meets (step rule) (NotifiesChanges rule) {} runs :=
    always_iff_meets (fun _ _ _ h hs => notified_step h.1 h.2 hs) hstart
  rw [← hiff]
  constructor
  · intro h
    exact always_iff_prefix.mpr fun seen hseen t ht => ⟨(h seen hseen).agrees.of_exec ht, (h seen hseen).followed t ht⟩
  · intro h seen hseen
    have hseen := h.of_prefix hseen
    exact ⟨hseen.imp fun _ => And.left, fun t ht => (hseen.of_exec ht).2⟩

/-! ### A reset and a channel that fails -/

/-- Above 80 for a window of five minutes, with one channel. -/
def loadRule : AlertRule Int where
  threshold := 80
  thresholdType := "above"
  notificationChannels := [1]
  alertOnAbsent := false
  absentForSeconds := 0
  evalWindowSeconds := 300

/-- The value is back when the window has passed. -/
def resolvedByReset : List (Evaluation Int) :=
  [{ metricValue := some 90, now := 0 }, { metricValue := some 10, now := seconds 301 }]

def refusedByChannel : List (Evaluation Int) :=
  [{ metricValue := some 90, now := 0, channel := fun _ => .refused }, { metricValue := some 90, now := seconds 60 }]

theorem not_handedOver : ¬HandedOver loadRule resolvedByReset ∧ ¬HandedOver loadRule refusedByChannel := by
  refine ⟨fun h => ?_, fun h => ?_⟩
  · have hend : (exec (step loadRule) {} resolvedByReset).map (fun s => (lastNotified 1 s.log, s.state)) =
        some (.firing, .ok) := by decide +kernel
    obtain ⟨s, hs, hend⟩ := Option.map_eq_some_iff.mp hend
    obtain ⟨hlast, hstate⟩ := Prod.mk.inj hend
    have hagrees := h.agrees.of_exec hs 1 List.mem_cons_self
    rw [hlast, hstate] at hagrees
    cases hagrees
  · have hend : (exec (step loadRule) {} refusedByChannel).map (fun s => (lastNotified 1 s.log, s.state)) =
        some (.ok, .firing) := by decide +kernel
    obtain ⟨s, hs, hend⟩ := Option.map_eq_some_iff.mp hend
    obtain ⟨hlast, hstate⟩ := Prod.mk.inj hend
    have hagrees := h.agrees.of_exec hs 1 List.mem_cons_self
    rw [hlast, hstate] at hagrees
    cases hagrees

end Reiver.Watch
