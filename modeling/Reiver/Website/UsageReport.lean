import Reiver.Lib.Dict
import Reiver.Lib.Rounding
import Reiver.Lib.Run

/-! # Metered observability usage

The model of `report_watch_byok_usage` of `billing_worker.rs`. A run reports to the meter what ClickHouse answers for
the period since the watermark that the last run left in Redis. What was ingested, and when, is kept beside it. -/

namespace Reiver.Website

/-- Points in time are nanoseconds. The texts of a query and of a key have whole seconds and hours. -/
def second : Nat := 1000000000
def hour : Nat := 3600 * second

def gigabyte : Nat := 1000000000

/-- `(total_bytes as f64 / 1_000_000_000.0).ceil()`: the quotient has 53 binary digits, too. -/
def gigabytes (totalBytes : Nat) : Nat :=
  let n := toDouble totalBytes
  if n < gigabyte then (if n = 0 then 0 else 1)
  else
    let scale := 2 ^ (52 - (n / gigabyte).log2)
    (roundHalfEven gigabyte (n * scale) / gigabyte + scale - 1) / scale

structure UsageRow where
  organizationId : Uuid
  date : Nat
  bytes : Nat
deriving DecidableEq

/-- An event of the `observability_gb` meter: the idempotency key has the organization and the hour. The bytes are those
    that the value stands for. -/
structure MeterReport where
  organizationId : Uuid
  hour : Nat
  value : Nat
  bytes : Nat
deriving DecidableEq

def MeterReport.idempotencyKey (report : MeterReport) : Uuid × Nat := (report.organizationId, report.hour)

/-- What a run is answered: by Redis, by the database, by ClickHouse for spans and logs, and by the channel of the
    meter. -/
structure ReportRun where
  now : Nat
  connected : Bool := true
  readable : Bool := true
  organizations : Option (List Uuid)
  usage : Uuid → Nat → Nat → Option (Nat × Nat)
  accepts : Uuid → Bool := fun _ => true
  saved : Bool := true

structure UsageMeter where
  usage : List UsageRow := []
  lastReport : Option Nat := none
  reports : List MeterReport := []
  /-- The second up to which some run has reported. -/
  reportedUpTo : Nat := 0

inductive UsageAction where
  | ingest (row : UsageRow)
  | loseWatermark
  | report (run : ReportRun)

namespace ReportRun

/-- A query that fails is taken for no usage. The two `u64` are taken to add up without an overflow. -/
def totalBytes (run : ReportRun) (periodStart : Nat) (organizationId : Uuid) : Nat :=
  let usage := (run.usage organizationId (periodStart / second) (run.now / second)).getD (0, 0)
  usage.1 + usage.2

def meterReport (run : ReportRun) (periodStart : Nat) (organizationId : Uuid) : Option MeterReport :=
  let bytes := run.totalBytes periodStart organizationId
  if bytes = 0 then none
  else
    let value := gigabytes bytes
    if value = 0 then none
    else if run.accepts organizationId then some { organizationId, hour := run.now / Website.hour, value, bytes }
    else none

end ReportRun

namespace UsageMeter

/-- Without a watermark the period is an hour. -/
def periodStart (s : UsageMeter) (run : ReportRun) : Nat :=
  (if run.readable then s.lastReport else none).getD (run.now - hour)

def reportWatchByokUsage (run : ReportRun) (s : UsageMeter) : UsageMeter :=
  let periodStart := s.periodStart run
  if !run.connected || run.now ≤ periodStart then s
  else
    match run.organizations with
    | none => s
    | some organizations =>
      { s with
        reports := s.reports ++ organizations.filterMap (run.meterReport periodStart)
        reportedUpTo := max s.reportedUpTo (run.now / second)
        lastReport := if run.saved then some run.now else s.lastReport }

/-- The ids of the organizations are distinct. -/
def step (s : UsageMeter) : UsageAction → Option UsageMeter
  | .ingest row => some { s with usage := row :: s.usage }
  | .loseWatermark => some { s with lastReport := none }
  | .report run => if (run.organizations.getD []).Nodup then some (s.reportWatchByokUsage run) else none

/-! ### What is metered -/

/-- The bytes of an organization by the seconds in which they were ingested. -/
def bytesAt (s : UsageMeter) (organizationId : Uuid) (p : Nat → Bool) : Nat :=
  (s.usage.map fun row => if row.organizationId = organizationId ∧ p row.date = true then row.bytes else 0).sum

def bytesBefore (s : UsageMeter) (organizationId : Uuid) (t : Nat) : Nat := s.bytesAt organizationId (· < t)

def bytesIn (s : UsageMeter) (organizationId : Uuid) (start stop : Nat) : Nat :=
  s.bytesAt organizationId fun t => start ≤ t && t < stop

def reportsOf (s : UsageMeter) (organizationId : Uuid) : List MeterReport :=
  s.reports.filter (·.organizationId = organizationId)

def reportedGb (s : UsageMeter) (organizationId : Uuid) : Nat := ((s.reportsOf organizationId).map (·.value)).sum

def reportedBytes (s : UsageMeter) (organizationId : Uuid) : Nat := ((s.reportsOf organizationId).map (·.bytes)).sum

/-- Every byte up to the last report is reported once, the GB are right to less than one, and no two events have one
    key. -/
structure Metered (s : UsageMeter) : Prop where
  once : ∀ organizationId, s.reportedBytes organizationId = s.bytesBefore organizationId s.reportedUpTo
  low : ∀ organizationId,
    gigabyte * s.reportedGb organizationId < s.bytesBefore organizationId s.reportedUpTo + gigabyte
  high : ∀ organizationId,
    s.bytesBefore organizationId s.reportedUpTo < gigabyte * s.reportedGb organizationId + gigabyte
  applied : (s.reports.map (·.idempotencyKey)).Nodup

/-! ### When it is -/

/-- What reporting so many bytes adds beyond them. -/
def roundedUp (bytes : Nat) : Int := gigabyte * gigabytes bytes - bytes

/-- A report of a period that begins where the last one ended, with what each organization has used in it, the first one
    of its hour, and with less than a GB rounded up over all reports. -/
structure CountedRun (s : UsageMeter) (run : ReportRun) (start stop : Nat) (organizations : List Uuid) : Prop where
  continues : ∀ row ∈ s.usage, row.date < stop → (start ≤ row.date ↔ s.reportedUpTo ≤ row.date)
  listed : ∀ row ∈ s.usage, start ≤ row.date → row.date < stop → 0 < row.bytes →
    row.organizationId ∈ organizations ∧ run.accepts row.organizationId = true
  answered : ∀ organizationId ∈ organizations,
    run.totalBytes (s.periodStart run) organizationId = s.bytesIn organizationId start stop
  firstInHour : ∀ organizationId ∈ organizations, 0 < s.bytesIn organizationId start stop →
    (organizationId, run.now / hour) ∉ s.reports.map (·.idempotencyKey)
  rounded : ∀ organizationId ∈ organizations,
    (((s.reportsOf organizationId).map fun report => roundedUp report.bytes).sum +
      roundedUp (s.bytesIn organizationId start stop)).natAbs < gigabyte

def Counted (s : UsageMeter) : UsageAction → Prop
  | .ingest row => s.reportedUpTo ≤ row.date
  | .loseWatermark => True
  | .report run => run.connected = true → s.periodStart run < run.now → ∀ organizations ∈ run.organizations,
    s.CountedRun run (s.periodStart run / second) (run.now / second) organizations

set_option synthInstance.maxSize 400 in
instance (s : UsageMeter) (run : ReportRun) (start stop : Nat) (organizations : List Uuid) :
    Decidable (s.CountedRun run start stop organizations) :=
  decidable_of_iff
    ((∀ row ∈ s.usage, row.date < stop → (start ≤ row.date ↔ s.reportedUpTo ≤ row.date)) ∧
      (∀ row ∈ s.usage, start ≤ row.date → row.date < stop → 0 < row.bytes →
        row.organizationId ∈ organizations ∧ run.accepts row.organizationId = true) ∧
      (∀ organizationId ∈ organizations,
        run.totalBytes (s.periodStart run) organizationId = s.bytesIn organizationId start stop) ∧
      (∀ organizationId ∈ organizations, 0 < s.bytesIn organizationId start stop →
        (organizationId, run.now / hour) ∉ s.reports.map (·.idempotencyKey)) ∧
      ∀ organizationId ∈ organizations,
        (((s.reportsOf organizationId).map fun report => roundedUp report.bytes).sum +
          roundedUp (s.bytesIn organizationId start stop)).natAbs < gigabyte)
    ⟨fun h => ⟨h.1, h.2.1, h.2.2.1, h.2.2.2.1, h.2.2.2.2⟩,
      fun h => ⟨h.continues, h.listed, h.answered, h.firstInHour, h.rounded⟩⟩

instance : ∀ (s : UsageMeter) (action : UsageAction), Decidable (s.Counted action)
  | s, .ingest row => inferInstanceAs (Decidable (s.reportedUpTo ≤ row.date))
  | _, .loseWatermark => inferInstanceAs (Decidable True)
  | s, .report run => inferInstanceAs (Decidable (run.connected = true → s.periodStart run < run.now →
    ∀ organizations ∈ run.organizations,
      s.CountedRun run (s.periodStart run / second) (run.now / second) organizations))

end UsageMeter

end Reiver.Website
