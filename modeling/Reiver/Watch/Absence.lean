import Reiver.Watch.Notifications

/-! # Absent data

What an alert on absent data tells of the data. The time since the last data point is taken from the last check, which
every run renews, and data that is absent is told from its value alone. -/

namespace Reiver.Watch

/-! ### The value of a PromQL query -/

section Query
variable {V : Type} [LT V] [DecidableLT V] [BEq V] [Zero V]

/-- The greatest value of all series, NaN and nulls left out. -/
def queryPromqlValue (batches : List (List (Option V))) : V :=
  let values := (batches.flatten.filterMap id).filter fun v => v == v
  (values.foldl (fun (found : Option V) v => some (found.elim v fun greatest => if greatest < v then v else greatest))
    none).getD 0

end Query

/-! ### What is absent -/

/-- No data point has arrived in the last seconds before a time. -/
def Absent (absentForSeconds : Int) (arrivals : List Int) (now : Int) : Prop :=
  ∀ arrival ∈ arrivals, arrival ≤ now → seconds absentForSeconds ≤ now - arrival

section Rule
variable {V : Type} [LT V] [DecidableLT V] [LE V] [DecidableLE V] [BEq V] [Zero V]

/-- The run leaves the rule in `ALERT` exactly if data is absent. -/
def FiresRight (rule : AlertRule V) (arrivals : List Int) (s : AlertStore V) (run : Evaluation V) : Prop :=
  (evaluateRule rule run s).1.state = .firing ↔ Absent rule.absentForSeconds arrivals run.now

/-- Every run of a sequence leaves the rule in `ALERT` exactly if data is absent, and once the rule is in `ALERT` it is
    so after every later run, until data arrives. -/
structure AbsenceAlerts (rule : AlertRule V) (arrivals : List Int) (runs : List (Evaluation V)) : Prop where
  fires : Meets (step rule) (FiresRight rule arrivals) {} runs
  stays : ∀ before run between run' after, runs = before ++ run :: (between ++ run' :: after) → run.now ≤ run'.now →
    (∀ arrival ∈ arrivals, ¬(run.now < arrival ∧ arrival ≤ run'.now)) →
    ∀ s ∈ exec (step rule) {} (before ++ [run]), s.state = .firing →
      ∀ s' ∈ exec (step rule) {} (before ++ run :: (between ++ [run'])), s'.state = .firing

/-- What the run takes for absent data: the value is zero, and the last check is long ago. -/
def Sees (rule : AlertRule V) (alert : Alert V) (value : V) (now : Int) : Prop :=
  (value == 0) = true ∧ seconds rule.absentForSeconds ≤ now - alert.checkedAt

/-- A run that gets its value and its row, resets what has expired and writes what has changed sees what is absent.
    Where the run ends before, or does not write, the state it leaves is right already. -/
def SeesRight (rule : AlertRule V) (arrivals : List Int) (s : AlertStore V) (run : Evaluation V) : Prop :=
  let absent := Absent rule.absentForSeconds arrivals run.now
  (∀ value ∈ run.metricValue, ∀ alert ∈ (getOrCreateAlert run s).2,
    if alert.expired rule run.now = true ∧ run.reset ≠ .done then run.reset.applies = false ↔ absent
    else if run.update.applies = true then Sees rule alert value run.now ↔ absent
    else (alert.state = .firing ∧ ¬alert.expired rule run.now = true) ↔ absent) ∧
  (run.metricValue = none ∨ (getOrCreateAlert run s).2 = none → (s.state = .firing ↔ absent))

variable {rule : AlertRule V} {arrivals : List Int} {run : Evaluation V} {s s' : AlertStore V} {alert row : Alert V}
  {value : V}

/-! ### The state that a run leaves -/

theorem newState_absent (habsent : rule.alertOnAbsent = true) (hpos : 0 < rule.absentForSeconds)
    (hbelow : checkThreshold value rule.threshold rule.thresholdType = false) {now : Int} :
    newState rule alert value now = .firing ↔ Sees rule alert value now := by
  simp [newState, absentDurationExceeded, Sees, habsent, hpos, hbelow]

theorem state_handleTransition (hrow : s.alert = some row) (hsame : row.state = alert.state) :
    (handleTransition rule run alert value s).1.state =
      if run.update.applies = true then newState rule alert value run.now else alert.state := by
  have hstate : s.state = alert.state := by rw [AlertStore.state, hrow, ← hsame]; rfl
  rw [handleTransition]
  by_cases hchange : alert.state = newState rule alert value run.now
  · rw [if_neg (not_not.mpr hchange), recordCheck_quiet.state, hstate, ← hchange, ite_self]
  · rw [if_pos hchange]
    cases hupdate : run.update with
    | failed =>
      rw [updateAlertState, setState, hupdate]
      exact hstate
    | unacknowledged =>
      rw [updateAlertState, hupdate, setState_alert rfl hrow]
      rfl
    | done =>
      rw [updateAlertState, hupdate, setState_alert rfl hrow]
      exact recordCheck_quiet.state

theorem state_evaluateRule (hvalue : run.metricValue = some value) (halert : (getOrCreateAlert run s).2 = some alert) :
    (evaluateRule rule run s).1.state =
      if alert.expired rule run.now = true ∧ run.reset ≠ .done then if run.reset.applies = true then .ok else .firing
      else if run.update.applies = true then newState rule alert value run.now
      else if alert.expired rule run.now = true then .ok else alert.state := by
  have hpair : getOrCreateAlert run s = ((getOrCreateAlert run s).1, some alert) := Prod.ext rfl halert
  have hrow := getOrCreateAlert_some halert
  rw [evaluateRule, hvalue]
  dsimp only
  rw [hpair]
  dsimp only
  by_cases hexpired : alert.expired rule run.now = true
  · simp only [hexpired, if_true, Bool.true_and, true_and]
    have hfiring : (getOrCreateAlert run s).1.state = .firing := by
      simp only [Alert.expired, Bool.and_eq_true, beq_iff_eq] at hexpired
      rw [AlertStore.state, hrow]
      exact hexpired.1
    cases hreset : run.reset with
    | failed =>
      rw [resetAlertState, setState, hreset]
      exact hfiring
    | unacknowledged =>
      rw [resetAlertState, hreset, setState_alert rfl hrow]
      rfl
    | done =>
      rw [resetAlertState, hreset, setState_alert rfl hrow]
      have hset : (AlertStore.mk (some { alert with state := .ok, stateChangedAt := run.resetAt })
          ((getOrCreateAlert run s).1.log ++ [.changed .ok])).alert =
          some { alert with state := .ok, stateChangedAt := run.resetAt } := rfl
      exact state_handleTransition hset rfl
  · simp only [Bool.eq_false_iff.mpr hexpired, Bool.false_and]
    exact state_handleTransition hrow rfl

theorem state_unchanged (h : run.metricValue = none ∨ (getOrCreateAlert run s).2 = none) :
    (evaluateRule rule run s).1.state = s.state := by
  rw [evaluateRule]
  cases hvalue : run.metricValue with
  | none => rfl
  | some value =>
    have hnone := h.resolve_left fun hnone => Option.some_ne_none value (hvalue.symm.trans hnone)
    have hpair : getOrCreateAlert run s = ((getOrCreateAlert run s).1, none) := Prod.ext rfl hnone
    rw [hpair]
    exact getOrCreateAlert_quiet.state

theorem firesRight_iff (habsent : rule.alertOnAbsent = true) (hpos : 0 < rule.absentForSeconds)
    (hbelow : ∀ value ∈ run.metricValue, checkThreshold value rule.threshold rule.thresholdType = false) :
    FiresRight rule arrivals s run ↔ SeesRight rule arrivals s run := by
  rw [FiresRight, SeesRight]
  by_cases hends : run.metricValue = none ∨ (getOrCreateAlert run s).2 = none
  · rw [state_unchanged hends, forall_prop_of_true hends]
    refine (and_iff_right fun value hvalue alert halert => ?_).symm
    rcases hends with h | h
    · cases h.symm.trans hvalue
    · cases h.symm.trans halert
  · rw [not_or] at hends
    obtain ⟨value, hvalue⟩ := Option.ne_none_iff_exists'.mp hends.1
    obtain ⟨alert, halert⟩ := Option.ne_none_iff_exists'.mp hends.2
    have hnone : ¬(run.metricValue = none ∨ (getOrCreateAlert run s).2 = none) := not_or.mpr hends
    have hsees : newState rule alert value run.now = .firing ↔ Sees rule alert value run.now :=
      newState_absent habsent hpos (hbelow value hvalue)
    rw [state_evaluateRule hvalue halert, and_iff_left fun h => absurd h hnone]
    simp only [hvalue, halert, Option.mem_some_iff, forall_eq']
    by_cases hreset : alert.expired rule run.now = true ∧ run.reset ≠ .done
    · rw [if_pos hreset, if_pos hreset]
      refine iff_congr ?_ Iff.rfl
      cases run.reset.applies <;> decide
    · rw [if_neg hreset, if_neg hreset]
      by_cases hupdate : run.update.applies = true
      · rw [if_pos hupdate, if_pos hupdate]
        exact iff_congr hsees Iff.rfl
      · rw [if_neg hupdate, if_neg hupdate]
        refine iff_congr ?_ Iff.rfl
        by_cases hexpired : alert.expired rule run.now = true
        · rw [if_pos hexpired]
          exact iff_of_false AlertState.noConfusion fun h => h.2 hexpired
        · rw [if_neg hexpired]
          exact (and_iff_left hexpired).symm

/-! ### Sequences of runs -/

theorem exec_snoc (runs : List (Evaluation V)) (run : Evaluation V) (h : s' ∈ exec (step rule) s (runs ++ [run])) :
    ∃ t ∈ exec (step rule) s runs, s' = (evaluateRule rule run t).1 := by
  rw [exec_append] at h
  obtain ⟨t, ht, h⟩ := Option.bind_eq_some_iff.mp h
  exact ⟨t, ht, (Option.some.inj h).symm⟩

theorem fires_after (runs : List (Evaluation V)) (run : Evaluation V) {after : List (Evaluation V)}
    (h : Meets (step rule) (FiresRight rule arrivals) s (runs ++ run :: after))
    (hs' : s' ∈ exec (step rule) s (runs ++ [run])) :
    s'.state = .firing ↔ Absent rule.absentForSeconds arrivals run.now := by
  obtain ⟨t, ht, rfl⟩ := exec_snoc runs run hs'
  exact (((meets_append ht).mp h).2 _ rfl).1

theorem meets_sees_iff (habsent : rule.alertOnAbsent = true) (hpos : 0 < rule.absentForSeconds)
    {runs : List (Evaluation V)}
    (hbelow : ∀ run ∈ runs, ∀ value ∈ run.metricValue, checkThreshold value rule.threshold rule.thresholdType = false) :
    Meets (step rule) (FiresRight rule arrivals) s runs ↔ Meets (step rule) (SeesRight rule arrivals) s runs := by
  induction runs generalizing s with
  | nil => exact Iff.rfl
  | cons run runs ih =>
    obtain ⟨hrun, hruns⟩ := List.forall_mem_cons.mp hbelow
    exact forall₂_congr fun _ _ => and_congr (firesRight_iff habsent hpos hrun) (ih hruns)

theorem Absent.later {absentForSeconds now now' : Int} (h : Absent absentForSeconds arrivals now) (hle : now ≤ now')
    (hnone : ∀ arrival ∈ arrivals, ¬(now < arrival ∧ arrival ≤ now')) : Absent absentForSeconds arrivals now' := by
  intro arrival hmem hbefore
  have hold : arrival ≤ now := not_lt.mp fun hlt => hnone arrival hmem ⟨hlt, hbefore⟩
  have hlong := h arrival hmem hold
  omega

/-- A rule whose threshold is never exceeded alerts on absent data exactly as long as each run sees what is absent. -/
theorem absenceAlerts_iff (rule : AlertRule V) (habsent : rule.alertOnAbsent = true) (hpos : 0 < rule.absentForSeconds)
    (arrivals : List Int) (runs : List (Evaluation V))
    (hbelow : ∀ run ∈ runs, ∀ value ∈ run.metricValue, checkThreshold value rule.threshold rule.thresholdType = false) :
    AbsenceAlerts rule arrivals runs ↔ Meets (step rule) (SeesRight rule arrivals) {} runs := by
  rw [← meets_sees_iff habsent hpos hbelow]
  refine ⟨AbsenceAlerts.fires, fun h => ⟨h, ?_⟩⟩
  intro before run between run' after heq hle hnone s hs hfiring s' hs'
  have habsent := (fires_after before run (heq ▸ h) hs).mp hfiring
  have hsplit : runs = (before ++ run :: between) ++ run' :: after := by
    rw [heq, List.append_assoc, List.cons_append]
  have hs' : s' ∈ exec (step rule) {} ((before ++ run :: between) ++ [run']) := by
    rwa [List.append_assoc, List.cons_append]
  exact (fires_after _ run' (hsplit ▸ h) hs').mpr (habsent.later hle hnone)

/-! ### The spacing of the runs -/

/-- A run that gets its value and its row, and whose writes take place. -/
structure Undisturbed (run : Evaluation V) : Prop where
  value : run.metricValue.isSome = true
  selected : run.selected = true
  insert : run.insert = .done
  reset : run.reset = .done
  update : run.update = .done
  recorded : run.recorded = true
  check : run.check = .done

/-- The value is zero and the check before is long ago exactly in the runs that find data absent. -/
def Spaced (rule : AlertRule V) (arrivals : List Int) : Int → List (Evaluation V) → Prop
  | _, [] => True
  | lastCheck, run :: runs =>
    (∀ value ∈ run.metricValue, ((value == 0) = true ∧ seconds rule.absentForSeconds ≤ run.now - lastCheck) ↔
      Absent rule.absentForSeconds arrivals run.now) ∧
    Spaced rule arrivals run.checkedAt runs

omit [LT V] [DecidableLT V] [LE V] [DecidableLE V] [BEq V] [Zero V] in
theorem checkedAt_recordCheck (hrecorded : run.recorded = true) (hcheck : run.check = .done)
    (hrow : s.alert = some row) :
    ∃ after, (recordCheck run s).1.alert = some after ∧ after.checkedAt = run.checkedAt := by
  have happlies : run.check.applies = true := by rw [hcheck]; rfl
  rw [recordCheck, if_pos hrecorded, updateAlertCheckedAt, if_pos happlies, hrow]
  exact ⟨_, rfl, rfl⟩

theorem checkedAt_handleTransition (h : Undisturbed run) (hrow : s.alert = some row) :
    ∃ after, (handleTransition rule run alert value s).1.alert = some after ∧ after.checkedAt = run.checkedAt := by
  rw [handleTransition]
  by_cases hchange : alert.state = newState rule alert value run.now
  · rw [if_neg (not_not.mpr hchange)]
    exact checkedAt_recordCheck h.recorded h.check hrow
  · rw [if_pos hchange, updateAlertState, h.update, setState_alert rfl hrow]
    exact checkedAt_recordCheck h.recorded h.check rfl

theorem checkedAt_evaluateRule (h : Undisturbed run) (halert : (getOrCreateAlert run s).2 = some alert) :
    ∃ after, (evaluateRule rule run s).1.alert = some after ∧ after.checkedAt = run.checkedAt := by
  obtain ⟨value, hvalue⟩ := Option.isSome_iff_exists.mp h.value
  have hpair : getOrCreateAlert run s = ((getOrCreateAlert run s).1, some alert) := Prod.ext rfl halert
  have hrow := getOrCreateAlert_some halert
  rw [evaluateRule, hvalue]
  dsimp only
  rw [hpair]
  dsimp only
  by_cases hexpired : alert.expired rule run.now = true
  · have happlies : run.reset.applies = true := by rw [h.reset]; rfl
    have hacknowledged : run.reset.acknowledged = true := by rw [h.reset]; rfl
    simp only [hexpired, hacknowledged, if_true, Bool.not_true, Bool.and_false]
    have hreset : (resetAlertState run (getOrCreateAlert run s).1).alert =
        some { alert with state := .ok, stateChangedAt := run.resetAt } := by
      rw [resetAlertState, setState_alert happlies hrow]
    exact checkedAt_handleTransition h hreset
  · simp only [Bool.eq_false_iff.mpr hexpired, Bool.false_and]
    exact checkedAt_handleTransition h hrow

omit [LT V] [DecidableLT V] [LE V] [DecidableLE V] in
theorem seesRight_iff (h : Undisturbed run) (halert : (getOrCreateAlert run s).2 = some alert) :
    SeesRight rule arrivals s run ↔
      ∀ value ∈ run.metricValue, Sees rule alert value run.now ↔ Absent rule.absentForSeconds arrivals run.now := by
  obtain ⟨value, hvalue⟩ := Option.isSome_iff_exists.mp h.value
  have hends : ¬(run.metricValue = none ∨ (getOrCreateAlert run s).2 = none) := by
    rw [hvalue, halert]
    exact not_or.mpr ⟨Option.some_ne_none _, Option.some_ne_none _⟩
  rw [SeesRight, and_iff_left fun hnone => absurd hnone hends]
  simp only [halert, h.reset, h.update, ne_eq, not_true_eq_false, and_false, if_false, Option.mem_some_iff, forall_eq',
    WriteOutcome.applies, if_true]

theorem spaced_from {runs : List (Evaluation V)} (h : ∀ run ∈ runs, Undisturbed run) {lastCheck : Int}
    (hrow : ∀ run ∈ runs.head?, ∃ alert, (getOrCreateAlert run s).2 = some alert ∧ alert.checkedAt = lastCheck) :
    Meets (step rule) (SeesRight rule arrivals) s runs ↔ Spaced rule arrivals lastCheck runs := by
  induction runs generalizing s lastCheck with
  | nil => exact iff_of_true trivial trivial
  | cons run runs ih =>
    obtain ⟨hrun, hruns⟩ := List.forall_mem_cons.mp h
    obtain ⟨alert, halert, rfl⟩ := hrow run rfl
    obtain ⟨after, hafter, hchecked⟩ : ∃ after, (evaluateRule rule run s).1.alert = some after ∧
        after.checkedAt = run.checkedAt := checkedAt_evaluateRule hrun halert
    have hnext : ∀ next ∈ runs.head?, ∃ alert, (getOrCreateAlert next (evaluateRule rule run s).1).2 = some alert ∧
        alert.checkedAt = run.checkedAt := by
      intro next hnext
      refine ⟨after, ?_, hchecked⟩
      rw [getOrCreateAlert, if_pos (hruns next (List.mem_of_mem_head? hnext)).selected, hafter]
    have hmeets : Meets (step rule) (SeesRight rule arrivals) s (run :: runs) ↔
        SeesRight rule arrivals s run ∧ Meets (step rule) (SeesRight rule arrivals) (evaluateRule rule run s).1 runs :=
      ⟨fun h => h _ rfl, fun h t ht => Option.some.inj ht ▸ h⟩
    rw [hmeets, seesRight_iff hrun halert, ih hruns hnext]
    rfl

/-- Where the database answers, each run sees what is absent exactly if its value is zero and the check before it is
    long ago whenever data is absent, and only then. -/
theorem seesRight_iff_spaced (rule : AlertRule V) (arrivals : List Int) (run : Evaluation V)
    (runs : List (Evaluation V)) (h : ∀ r ∈ run :: runs, Undisturbed r) :
    Meets (step rule) (SeesRight rule arrivals) {} (run :: runs) ↔
      Spaced rule arrivals run.insertedAt (run :: runs) := by
  refine spaced_from h fun first hfirst => ⟨⟨.ok, none, run.insertedAt, run.insertedAt⟩, ?_, rfl⟩
  obtain rfl := Option.some.inj hfirst
  have hrun := h run List.mem_cons_self
  rw [getOrCreateAlert, if_pos hrun.selected, hrun.insert]
  rfl

end Rule

/-! ### Data that never comes, and data that is zero -/

/-- Data absent for two minutes, with nothing above 80. -/
def absentRule : AlertRule Int where
  threshold := 80
  thresholdType := "above"
  notificationChannels := [1]
  alertOnAbsent := true
  absentForSeconds := 120
  evalWindowSeconds := 300

/-- A check of a query that finds the given values. -/
def checkAt (now : Int) (values : List (Option Int)) : Evaluation Int :=
  { metricValue := some (queryPromqlValue [values])
    insertedAt := now
    now
    resetAt := now
    updatedAt := now
    notifiedAt := now
    checkedAt := now }

def eachMinute : List (Evaluation Int) := [0, 60, 120, 180].map fun t => checkAt (seconds t) []

/-- Two checks that find a zero, the second one a second after it arrived. -/
def zeroArrives : List (Evaluation Int) := [checkAt (seconds 0) [some 0], checkAt (seconds 200) [some 0]]

/-- There is no alert after three minutes without data, and one after a zero. -/
theorem not_absenceAlerts :
    ¬AbsenceAlerts absentRule [] eachMinute ∧ ¬AbsenceAlerts absentRule [seconds 0, seconds 199] zeroArrives := by
  refine ⟨fun h => ?_, fun h => ?_⟩
  · have hend : (exec (step absentRule) {} eachMinute).map AlertStore.state = some .ok := by decide +kernel
    obtain ⟨s, hs, hstate⟩ := Option.map_eq_some_iff.mp hend
    have hfires := (fires_after ([0, 60, 120].map fun t => checkAt (seconds t) []) (checkAt (seconds 180) []) h.fires
      hs).mpr fun _ hmem => nomatch hmem
    rw [hstate] at hfires
    cases hfires
  · have hend : (exec (step absentRule) {} zeroArrives).map AlertStore.state = some .firing := by decide +kernel
    obtain ⟨s, hs, hstate⟩ := Option.map_eq_some_iff.mp hend
    have habsent := (fires_after [checkAt (seconds 0) [some 0]] (checkAt (seconds 200) [some 0]) h.fires hs).mp hstate
    exact absurd (habsent (seconds 199) (by decide) (by decide)) (by decide)

/-- Checks three minutes apart; the second one finds nothing, and then data comes again. -/
def rareChecks : List (Evaluation Int) :=
  [checkAt (seconds 60) [some 5], checkAt (seconds 240) [], checkAt (seconds 420) [some 7]]

theorem checkAt_undisturbed (now : Int) (values : List (Option Int)) : Undisturbed (checkAt now values) :=
  ⟨rfl, rfl, rfl, rfl, rfl, rfl, rfl⟩

theorem rareChecks_spaced : Spaced absentRule [seconds 30, seconds 400] (seconds 60) rareChecks := by
  have habsent : ∀ now, Absent 120 [seconds 30, seconds 400] now ↔
      (seconds 30 ≤ now → seconds 120 ≤ now - seconds 30) ∧ (seconds 400 ≤ now → seconds 120 ≤ now - seconds 400) := by
    intro now
    simp only [Absent, List.forall_mem_cons, List.not_mem_nil, false_imp_iff, implies_true, and_true]
  simp only [rareChecks, Spaced, checkAt, Option.mem_some_iff, forall_eq', and_true]
  refine ⟨(iff_congr Iff.rfl (habsent _)).mpr (by decide), (iff_congr Iff.rfl (habsent _)).mpr (by decide),
    (iff_congr Iff.rfl (habsent _)).mpr (by decide)⟩

theorem absenceAlerts_iff_rare :
    AbsenceAlerts absentRule [seconds 30, seconds 400] rareChecks ∧
      (exec (step absentRule) {} (rareChecks.take 2)).map AlertStore.state = some .firing :=
  ⟨(absenceAlerts_iff absentRule rfl (by decide) _ rareChecks (by decide)).mpr
    ((seesRight_iff_spaced absentRule _ _ _ (by simp [checkAt_undisturbed])).mpr rareChecks_spaced), by decide +kernel⟩

end Reiver.Watch
