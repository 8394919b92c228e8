import Reiver.Lib.Dict
import Reiver.Website.UsageReport
import Mathlib.Algebra.BigOperators.Group.List.Basic
import Mathlib.Tactic.Ring

/-! # What the meter is told

What a run adds for one organization (`reportsOf_report`), and the bytes that the reported time gains
(`bytesBefore_max`). -/

namespace Reiver.Website

theorem toDouble_pos {n : Nat} (h : 0 < n) : 0 < toDouble n := by
  have hne := Nat.pos_iff_ne_zero.mp h
  refine Nat.lt_of_lt_of_le (Nat.two_pow_pos n.log2) (le_roundHalfEven ?_ (Nat.log2_self_le hne))
  exact Nat.pow_dvd_pow 2 (Nat.sub_le _ _)

theorem gigabytes_pos {bytes : Nat} (h : 0 < bytes) : 0 < gigabytes bytes := by
  have hdouble := toDouble_pos h
  rw [gigabytes]
  dsimp only
  split
  · rw [if_neg (Nat.pos_iff_ne_zero.mp hdouble)]
    exact Nat.one_pos
  · next hle =>
    generalize 52 - (toDouble bytes / gigabyte).log2 = e
    have hscale : 0 < 2 ^ e := Nat.two_pow_pos e
    have hgb : gigabyte * 2 ^ e ≤ toDouble bytes * 2 ^ e := Nat.mul_le_mul_right _ (Nat.not_lt.mp hle)
    have hround := le_roundHalfEven (Nat.dvd_mul_right gigabyte (2 ^ e)) hgb
    have hquotient : 2 ^ e ≤ roundHalfEven gigabyte (toDouble bytes * 2 ^ e) / gigabyte :=
      (Nat.le_div_iff_mul_le (by decide)).mpr (Nat.mul_comm gigabyte _ ▸ hround)
    refine Nat.div_pos ?_ hscale
    omega

namespace UsageMeter
variable {s s' : UsageMeter} {run : ReportRun} {organizationId : Uuid}

theorem bytesAt_cons {row : UsageRow} {p : Nat → Bool} (h : p row.date = false) :
    ({ s with usage := row :: s.usage } : UsageMeter).bytesAt organizationId p = s.bytesAt organizationId p := by
  rw [bytesAt, List.map_cons, List.sum_cons, if_neg (fun hrow => by rw [h] at hrow; exact absurd hrow.2 nofun),
    Nat.zero_add]
  rfl

theorem bytesBefore_max {start stop : Nat}
    (h : ∀ row ∈ s.usage, row.date < stop → (start ≤ row.date ↔ s.reportedUpTo ≤ row.date)) :
    s.bytesBefore organizationId (max s.reportedUpTo stop) =
      s.bytesBefore organizationId s.reportedUpTo + s.bytesIn organizationId start stop := by
  rw [bytesBefore, bytesBefore, bytesIn, bytesAt, bytesAt, bytesAt, ← List.sum_map_add]
  refine congrArg List.sum (List.map_congr_left fun row hrow => ?_)
  have hrow := h row hrow
  by_cases horg : row.organizationId = organizationId
  · simp only [horg, true_and, decide_eq_true_eq, Bool.and_eq_true]
    split_ifs <;> omega
  · simp only [horg, false_and, if_false, Nat.add_zero]

theorem exists_row {start stop : Nat} (h : 0 < s.bytesIn organizationId start stop) :
    ∃ row ∈ s.usage, row.organizationId = organizationId ∧ start ≤ row.date ∧ row.date < stop ∧ 0 < row.bytes := by
  by_contra hnone
  push Not at hnone
  refine absurd h (Nat.not_lt.mpr (Nat.le_of_eq (List.sum_eq_zero fun n hn => ?_)))
  obtain ⟨row, hrow, rfl⟩ := List.mem_map.mp hn
  split
  · next hcond =>
    obtain ⟨horg, hdate⟩ := hcond
    rw [Bool.and_eq_true, decide_eq_true_eq, decide_eq_true_eq] at hdate
    exact Nat.le_zero.mp (hnone row hrow horg hdate.1 hdate.2)
  · rfl

theorem meterReport_counted {organizations : List Uuid}
    (h : s.CountedRun run (s.periodStart run / second) (run.now / second) organizations) :
    (if organizationId ∈ organizations then (run.meterReport (s.periodStart run) organizationId).toList else []) =
      if s.bytesIn organizationId (s.periodStart run / second) (run.now / second) = 0 then []
      else [{ organizationId, hour := run.now / hour,
              value := gigabytes (s.bytesIn organizationId (s.periodStart run / second) (run.now / second)),
              bytes := s.bytesIn organizationId (s.periodStart run / second) (run.now / second) }] := by
  by_cases hbytes : s.bytesIn organizationId (s.periodStart run / second) (run.now / second) = 0
  · rw [if_pos hbytes]
    split
    · next hmem =>
      rw [ReportRun.meterReport, h.answered organizationId hmem, hbytes]
      rfl
    · rfl
  · obtain ⟨row, hrow, rfl, hstart, hstop, hpos⟩ := exists_row (Nat.pos_of_ne_zero hbytes)
    obtain ⟨hmem, haccepts⟩ := h.listed row hrow hstart hstop hpos
    have hvalue := Nat.pos_iff_ne_zero.mp (gigabytes_pos (Nat.pos_of_ne_zero hbytes))
    rw [if_pos hmem, if_neg hbytes, ReportRun.meterReport, h.answered _ hmem]
    dsimp only
    rw [if_neg hbytes, if_neg hvalue, if_pos haccepts]
    rfl

theorem meterReport_key {report : MeterReport} {periodStart : Nat}
    (h : run.meterReport periodStart organizationId = some report) :
    report.idempotencyKey = (organizationId, run.now / hour) ∧ 0 < run.totalBytes periodStart organizationId := by
  rw [ReportRun.meterReport] at h
  dsimp only at h
  split_ifs at h with hbytes hvalue haccepts
  cases h
  exact ⟨rfl, Nat.pos_of_ne_zero hbytes⟩

/-- The GB of an event are those of its bytes. -/
def Valued (s : UsageMeter) : Prop := ∀ report ∈ s.reports, report.value = gigabytes report.bytes

theorem sum_roundedUp {reports : List MeterReport} (h : ∀ report ∈ reports, report.value = gigabytes report.bytes) :
    (reports.map fun report => roundedUp report.bytes).sum =
      (gigabyte * (reports.map (·.value)).sum : Int) - (reports.map (·.bytes)).sum := by
  induction reports with
  | nil => rfl
  | cons report reports ih =>
    rw [List.map_cons, List.map_cons, List.map_cons, List.sum_cons, List.sum_cons, List.sum_cons,
      ih fun r hr => h r (List.mem_cons_of_mem _ hr), roundedUp, ← h report List.mem_cons_self]
    push_cast
    ring

def reported (s : UsageMeter) (run : ReportRun) (organizations : List Uuid) : UsageMeter :=
  { s with
    reports := s.reports ++ organizations.filterMap (run.meterReport (s.periodStart run))
    reportedUpTo := max s.reportedUpTo (run.now / second)
    lastReport := if run.saved then some run.now else s.lastReport }

theorem reportWatchByokUsage_cases : s.reportWatchByokUsage run = s ∨
    run.connected = true ∧ s.periodStart run < run.now ∧
      ∃ organizations ∈ run.organizations, s.reportWatchByokUsage run = s.reported run organizations := by
  rw [reportWatchByokUsage]
  split
  · exact .inl rfl
  · next hruns =>
    rw [Bool.or_eq_true, not_or, Bool.not_eq_true', Bool.not_eq_false, decide_eq_true_eq, Nat.not_le] at hruns
    split
    · exact .inl rfl
    · next organizations horganizations => exact .inr ⟨hruns.1, hruns.2, organizations, horganizations, rfl⟩

theorem valued_reported {organizations : List Uuid} (hvalued : s.Valued) : (s.reported run organizations).Valued := by
  intro report hreport
  rcases List.mem_append.mp hreport with hold | hnew
  · exact hvalued report hold
  · obtain ⟨a, ha, hnew⟩ := List.mem_filterMap.mp hnew
    rw [ReportRun.meterReport] at hnew
    dsimp only at hnew
    split_ifs at hnew
    cases hnew
    rfl

section Reported
variable {organizations : List Uuid} (hnd : organizations.Nodup)
  (h : s.CountedRun run (s.periodStart run / second) (run.now / second) organizations)
include hnd h

theorem reportsOf_reported : (s.reported run organizations).reportsOf organizationId = s.reportsOf organizationId ++
    if s.bytesIn organizationId (s.periodStart run / second) (run.now / second) = 0 then []
    else [{ organizationId, hour := run.now / hour,
            value := gigabytes (s.bytesIn organizationId (s.periodStart run / second) (run.now / second)),
            bytes := s.bytesIn organizationId (s.periodStart run / second) (run.now / second) }] := by
  have hkey : ∀ a b, run.meterReport (s.periodStart run) a = some b → b.organizationId = a :=
    fun a b hb => congrArg Prod.fst (meterReport_key hb).1
  have hids : (organizations.map id).Nodup := by rwa [List.map_id]
  rw [reportsOf, reported, List.filter_append, ← meterReport_counted h]
  refine congrArg (s.reportsOf organizationId ++ ·) ?_
  split
  · next hmem => exact filter_filterMap_of_mem hkey hids hmem
  · next hnot =>
    have hnot : organizationId ∉ organizations.map id := by rwa [List.map_id]
    exact filter_filterMap_of_notMem hkey hnot

theorem reported_sums :
    (s.reported run organizations).reportedBytes organizationId = s.reportedBytes organizationId +
        s.bytesIn organizationId (s.periodStart run / second) (run.now / second) ∧
      (s.reported run organizations).reportedGb organizationId = s.reportedGb organizationId +
        gigabytes (s.bytesIn organizationId (s.periodStart run / second) (run.now / second)) := by
  rw [reportedBytes, reportedGb, reportsOf_reported hnd h, List.map_append, List.map_append, List.sum_append,
    List.sum_append]
  by_cases hbytes : s.bytesIn organizationId (s.periodStart run / second) (run.now / second) = 0
  · rw [if_pos hbytes, hbytes]
    exact ⟨rfl, rfl⟩
  · rw [if_neg hbytes]
    exact ⟨rfl, rfl⟩

theorem keys_reported (hmetered : s.Metered) :
    ((s.reported run organizations).reports.map (·.idempotencyKey)).Nodup := by
  rw [reported, List.map_append, List.nodup_append]
  refine ⟨hmetered.applied, ?_, fun key hkey key' hkey' heq => ?_⟩
  · rw [List.map_filterMap]
    refine hnd.filterMap fun a a' key hkey hkey' => ?_
    obtain ⟨report, hreport, rfl⟩ := Option.map_eq_some_iff.mp hkey
    obtain ⟨report', hreport', heq⟩ := Option.map_eq_some_iff.mp hkey'
    rw [(meterReport_key hreport).1, (meterReport_key hreport').1] at heq
    exact (congrArg Prod.fst heq).symm
  · obtain ⟨report, hreport, rfl⟩ := List.mem_map.mp hkey'
    obtain ⟨a, ha, hreport⟩ := List.mem_filterMap.mp hreport
    obtain ⟨hreportKey, hpos⟩ := meterReport_key hreport
    rw [h.answered a ha] at hpos
    exact h.firstInHour a ha hpos (hreportKey ▸ heq ▸ hkey)

theorem metered_reported (hmetered : s.Metered) (hvalued : s.Valued) : (s.reported run organizations).Metered := by
  have hbefore : ∀ organizationId, (s.reported run organizations).bytesBefore organizationId
      (s.reported run organizations).reportedUpTo = s.bytesBefore organizationId s.reportedUpTo +
        s.bytesIn organizationId (s.periodStart run / second) (run.now / second) :=
    fun organizationId => bytesBefore_max h.continues
  have hclose : ∀ organizationId,
      gigabyte * (s.reported run organizations).reportedGb organizationId <
          s.bytesBefore organizationId s.reportedUpTo +
            s.bytesIn organizationId (s.periodStart run / second) (run.now / second) + gigabyte ∧
        s.bytesBefore organizationId s.reportedUpTo +
            s.bytesIn organizationId (s.periodStart run / second) (run.now / second) <
          gigabyte * (s.reported run organizations).reportedGb organizationId + gigabyte := by
    intro organizationId
    have honce := hmetered.once organizationId
    rw [(reported_sums hnd h).2]
    by_cases hmem : organizationId ∈ organizations
    · have hrounded := h.rounded organizationId hmem
      have hsum : ((s.reportsOf organizationId).map fun report => roundedUp report.bytes).sum =
          (gigabyte * s.reportedGb organizationId : Int) - s.reportedBytes organizationId :=
        sum_roundedUp fun report hreport => hvalued report (List.mem_filter.mp hreport).1
      rw [hsum, honce, roundedUp] at hrounded
      rw [Nat.mul_add]
      omega
    · have hbytes : s.bytesIn organizationId (s.periodStart run / second) (run.now / second) = 0 := by
        by_contra hbytes
        obtain ⟨row, hrow, rfl, hstart, hstop, hpos⟩ := exists_row (Nat.pos_of_ne_zero hbytes)
        exact hmem (h.listed row hrow hstart hstop hpos).1
      rw [hbytes]
      exact ⟨hmetered.low organizationId, hmetered.high organizationId⟩
  refine ⟨fun organizationId => ?_, fun organizationId => ?_, fun organizationId => ?_, keys_reported hnd h hmetered⟩
  · rw [hbefore, (reported_sums hnd h).1, hmetered.once]
  · rw [hbefore]
    exact (hclose organizationId).1
  · rw [hbefore]
    exact (hclose organizationId).2

end Reported

theorem metered_ingest {row : UsageRow} (h : s.reportedUpTo ≤ row.date) (hmetered : s.Metered) :
    ({ s with usage := row :: s.usage } : UsageMeter).Metered := by
  have hbefore : ∀ organizationId, ({ s with usage := row :: s.usage } : UsageMeter).bytesBefore organizationId
      s.reportedUpTo = s.bytesBefore organizationId s.reportedUpTo :=
    fun organizationId => bytesAt_cons (decide_eq_false (Nat.not_lt.mpr h))
  refine ⟨fun organizationId => ?_, fun organizationId => ?_, fun organizationId => ?_, hmetered.applied⟩
  · rw [hbefore]
    exact hmetered.once organizationId
  · rw [hbefore]
    exact hmetered.low organizationId
  · rw [hbefore]
    exact hmetered.high organizationId

theorem metered_step {action : UsageAction} (h : s.Metered ∧ s.Valued) (hcounted : s.Counted action)
    (hs : s.step action = some s') : s'.Metered ∧ s'.Valued := by
  obtain ⟨hmetered, hvalued⟩ := h
  cases action with
  | ingest row =>
    cases hs
    exact ⟨metered_ingest hcounted hmetered, hvalued⟩
  | loseWatermark =>
    cases hs
    exact ⟨⟨hmetered.once, hmetered.low, hmetered.high, hmetered.applied⟩, hvalued⟩
  | report run =>
    rw [step] at hs
    split_ifs at hs with hnd
    cases hs
    rcases reportWatchByokUsage_cases with hkept | ⟨hconnected, hstart, organizations, horganizations, hreported⟩
    · rw [hkept]
      exact ⟨hmetered, hvalued⟩
    · rw [Option.mem_def.mp horganizations] at hnd
      rw [hreported]
      have hcounted := hcounted hconnected hstart organizations horganizations
      exact ⟨metered_reported hnd hcounted hmetered hvalued, valued_reported hvalued⟩

end UsageMeter

/-- In every history, if each run counts its period, what is reported is metered throughout. -/
theorem usage_metered (run : List UsageAction) (h : Meets UsageMeter.step UsageMeter.Counted {} run) :
    Always UsageMeter.step UsageMeter.Metered {} run := by
  have hclose : gigabyte * 0 < 0 + gigabyte := by decide
  have hstart : UsageMeter.Metered {} ∧ UsageMeter.Valued {} :=
    ⟨⟨fun _ => rfl, fun _ => hclose, fun _ => hclose, List.nodup_nil⟩, fun _ h => by cases h⟩
  exact (Always.of_step (fun _ _ _ => UsageMeter.metered_step) hstart h).imp fun _ => And.left

/-! ### Histories of one organization -/

/-- A run at a second that is answered so many bytes of logs. -/
def reportAt (t : Nat) (bytes : Option Nat) : UsageAction :=
  .report {
    now := t * second
    organizations := some [1]
    usage := fun _ _ _ => bytes.map (0, ·) }

def ingestAt (t bytes : Nat) : UsageAction := .ingest { organizationId := 1, date := t, bytes }

def hourlyReports : List UsageAction :=
  [ingestAt 100 2000000000, reportAt 3600 (some 2000000000), ingestAt 5000 1400000000, reportAt 7200 (some 1400000000)]

theorem hourlyReports_metered : Always UsageMeter.step UsageMeter.Metered {} hourlyReports :=
  usage_metered hourlyReports (by decide +kernel)

/-- The second event has the key of the first one. -/
def twoInAnHour : List UsageAction :=
  [ingestAt 100 1000000000, reportAt 3600 (some 1000000000), ingestAt 3605 1000000000, reportAt 3610 (some 1000000000)]

def twoBytes : List UsageAction := [ingestAt 100 1, reportAt 3600 (some 1), ingestAt 5000 1, reportAt 7200 (some 1)]

def failedQuery : List UsageAction := [ingestAt 100 1000000000, reportAt 3600 none]

theorem not_metered :
    ¬Always UsageMeter.step UsageMeter.Metered {} twoInAnHour ∧
      ¬Always UsageMeter.step UsageMeter.Metered {} twoBytes ∧
      ¬Always UsageMeter.step UsageMeter.Metered {} failedQuery := by
  refine ⟨fun h => ?_, fun h => ?_, fun h => ?_⟩
  · have hkeys : (exec UsageMeter.step {} twoInAnHour).map (fun s => decide (s.reports.map (·.idempotencyKey)).Nodup) =
        some false := by decide +kernel
    obtain ⟨s, hs, hkeys⟩ := Option.map_eq_some_iff.mp hkeys
    exact of_decide_eq_false hkeys (h.of_exec hs).applied
  · have hgb : (exec UsageMeter.step {} twoBytes).map (fun s => (s.reportedGb 1, s.bytesBefore 1 s.reportedUpTo)) =
        some (2, 2) := by decide +kernel
    obtain ⟨s, hs, hgb⟩ := Option.map_eq_some_iff.mp hgb
    obtain ⟨hreported, hbytes⟩ := Prod.mk.inj hgb
    have hlow := (h.of_exec hs).low 1
    rw [hreported, hbytes] at hlow
    exact absurd hlow (by decide)
  · have hlost : (exec UsageMeter.step {} failedQuery).map
        (fun s => (s.reportedBytes 1, s.bytesBefore 1 s.reportedUpTo)) = some (0, 1000000000) := by decide +kernel
    obtain ⟨s, hs, hlost⟩ := Option.map_eq_some_iff.mp hlost
    obtain ⟨hreported, hbytes⟩ := Prod.mk.inj hlost
    have honce := (h.of_exec hs).once 1
    rw [hreported, hbytes] at honce
    cases honce

end Reiver.Website
