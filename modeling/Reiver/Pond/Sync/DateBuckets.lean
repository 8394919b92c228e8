import Mathlib.Data.List.Dedup
import Reiver.Pond.Sync.Batches

/-! # The buckets of a partition by date

What `partition_batches_by_date` makes of the rows of its batches, whatever is read of a row and its schema. -/

namespace Reiver.Pond

def dateColumn (batches : List RecordBatch) : Option Nat := batches.head?.bind fun first => timestampColumn first.schema

def bucketDate (today : NaiveDate) (idx : Option Nat) (schema : Schema) (row : BatchRow) : NaiveDate :=
  idx.elim today fun idx => (extractDateFromRow schema idx row).getD today

section Buckets
variable {β : Type} {f : Schema → BatchRow → β} {today date : NaiveDate} {idx : Nat} {batches : List RecordBatch}

def bucketRowsBy (f : Schema → BatchRow → β) (buckets : Dict NaiveDate (List RecordBatch)) (date : NaiveDate) :
    List β :=
  rowsBy f ((buckets.lookup date).getD [])

def batchRowsBy (f : Schema → BatchRow → β) (today : NaiveDate) (idx : Nat) (date : NaiveDate) (b : RecordBatch) :
    List β :=
  (b.rows.filter fun row => (extractDateFromRow b.schema idx row).getD today = date).map (f b.schema)

theorem pushBucket_rowsBy (buckets : Dict NaiveDate (List RecordBatch)) (date' : NaiveDate) (b : RecordBatch) :
    bucketRowsBy f (pushBucket buckets date' b) date =
      bucketRowsBy f buckets date ++ if date = date' then b.rows.map (f b.schema) else [] := by
  rw [bucketRowsBy, pushBucket, Dict.lookup_insert']
  split
  · next h =>
    rw [Option.getD_some, rowsBy_append, rowsBy_singleton, h]
    rfl
  · rw [List.append_nil]
    rfl

theorem filterRecordBatch_date (b : RecordBatch) (date' : NaiveDate) :
    (b.filterRecordBatch ((b.rows.map fun row =>
      (extractDateFromRow b.schema idx row).getD today).map (· = date'))).rows =
      b.rows.filter fun row => (extractDateFromRow b.schema idx row).getD today = date' := by
  rw [List.map_map]
  exact b.filterRecordBatch_map fun row => decide ((extractDateFromRow b.schema idx row).getD today = date')

theorem splitDates_rowsBy (b : RecordBatch) {dates : List NaiveDate} (hnd : dates.Nodup)
    (buckets : Dict NaiveDate (List RecordBatch)) :
    bucketRowsBy f (dates.foldl (fun buckets date' => pushBucket buckets date' (b.filterRecordBatch
        ((b.rows.map fun row => (extractDateFromRow b.schema idx row).getD today).map (· = date')))) buckets) date =
      bucketRowsBy f buckets date ++ if date ∈ dates then batchRowsBy f today idx date b else [] := by
  induction dates generalizing buckets with
  | nil => simp
  | cons date' dates ih =>
    obtain ⟨hnot, hnd⟩ := List.nodup_cons.mp hnd
    rw [List.foldl_cons, ih hnd, pushBucket_rowsBy, filterRecordBatch_date, List.append_assoc]
    by_cases h : date = date'
    · subst h
      rw [if_pos rfl, if_neg hnot, if_pos List.mem_cons_self, List.append_nil]
      rfl
    · simp [h]

theorem bucketBatch_rowsBy (buckets : Dict NaiveDate (List RecordBatch)) (b : RecordBatch) :
    bucketRowsBy f (bucketBatch today idx buckets b) date = bucketRowsBy f buckets date ++
      batchRowsBy f today idx date b := by
  have hmem : date ∉ (b.rows.map fun row => (extractDateFromRow b.schema idx row).getD today).dedup →
      batchRowsBy f today idx date b = [] := by
    intro hnot
    rw [batchRowsBy, List.map_eq_nil_iff, List.filter_eq_nil_iff]
    intro row hrow hdate
    exact hnot (List.mem_dedup.mpr (List.mem_map.mpr ⟨row, hrow, of_decide_eq_true hdate⟩))
  unfold bucketBatch
  dsimp only
  split
  · next date' hone =>
    have hall : ∀ row ∈ b.rows, (extractDateFromRow b.schema idx row).getD today = date' := fun row hrow =>
      List.mem_singleton.mp (hone ▸ List.mem_dedup.mpr (List.mem_map_of_mem hrow))
    rw [pushBucket_rowsBy]
    by_cases h : date = date'
    · subst h
      rw [if_pos rfl, batchRowsBy, List.filter_eq_self.mpr fun row hrow => decide_eq_true (hall row hrow)]
    · rw [if_neg h, hmem (hone ▸ fun hd => h (List.mem_singleton.mp hd))]
  · next hne =>
    rw [splitDates_rowsBy b (List.nodup_dedup _) buckets]
    split
    · rfl
    · next hnot => rw [hmem hnot]

/-- A bucket holds batches of schemas that the batches have. -/
def BucketsWf (batches : List RecordBatch) (buckets : Dict NaiveDate (List RecordBatch)) : Prop :=
  ∀ date bs, buckets.lookup date = some bs → bs ≠ [] ∧ ∀ b ∈ bs, ∃ b' ∈ batches, b.schema = b'.schema

theorem pushBucket_wf {buckets : Dict NaiveDate (List RecordBatch)} {b b' : RecordBatch} (h : BucketsWf batches buckets)
    (hb : b ∈ batches) (hb' : b'.schema = b.schema) (date' : NaiveDate) :
    BucketsWf batches (pushBucket buckets date' b') := by
  intro date bs hbs
  rw [pushBucket, Dict.lookup_insert'] at hbs
  split at hbs
  · cases hbs
    refine ⟨by simp, fun x hx => ?_⟩
    rcases List.mem_append.mp hx with hx | hx
    · cases hold : buckets.lookup date' with
      | none => simp [hold] at hx
      | some bs =>
        rw [hold] at hx
        exact (h date' bs hold).2 x hx
    · rw [List.mem_singleton.mp hx]
      exact ⟨b, hb, hb'⟩
  · exact h date bs hbs

theorem bucketBatch_wf {buckets : Dict NaiveDate (List RecordBatch)} {b : RecordBatch} (h : BucketsWf batches buckets)
    (hb : b ∈ batches) : BucketsWf batches (bucketBatch today idx buckets b) := by
  have hfold : ∀ (dates : List NaiveDate) (mask : NaiveDate → List Bool) (buckets : Dict NaiveDate (List RecordBatch)),
      BucketsWf batches buckets → BucketsWf batches
        (dates.foldl (fun buckets date => pushBucket buckets date (b.filterRecordBatch (mask date))) buckets) := by
    intro dates mask
    induction dates with
    | nil => exact fun _ h => h
    | cons date dates ih =>
      intro buckets h
      have hpush : BucketsWf batches (pushBucket buckets date (b.filterRecordBatch (mask date))) :=
        pushBucket_wf h hb (show (b.filterRecordBatch (mask date)).schema = b.schema from rfl) date
      exact ih _ hpush
  unfold bucketBatch
  dsimp only
  split
  · exact pushBucket_wf h hb rfl _
  · exact hfold _ _ _ h

/-- A batch is pushed whole or in parts with rows, unless it has none. -/
theorem bucketBatch_forall {P : RecordBatch → Prop} {buckets : Dict NaiveDate (List RecordBatch)} {b : RecordBatch}
    (h : ∀ date bs, buckets.lookup date = some bs → ∀ b ∈ bs, P b)
    (hb : ∀ b' : RecordBatch, b'.schema = b.schema → b'.rows ≠ [] → P b') :
    ∀ date bs, (bucketBatch today idx buckets b).lookup date = some bs → ∀ b ∈ bs, P b := by
  have hpush : ∀ (buckets : Dict NaiveDate (List RecordBatch)) (date' : NaiveDate) (b' : RecordBatch), P b' →
      (∀ date bs, buckets.lookup date = some bs → ∀ b ∈ bs, P b) →
      ∀ date bs, (pushBucket buckets date' b').lookup date = some bs → ∀ b ∈ bs, P b := by
    intro buckets date' b' hb' h date bs hbs x hx
    rw [pushBucket, Dict.lookup_insert'] at hbs
    split at hbs
    · cases hbs
      rcases List.mem_append.mp hx with hx | hx
      · cases hold : buckets.lookup date' with
        | none =>
          rw [hold] at hx
          exact absurd hx List.not_mem_nil
        | some bs =>
          rw [hold] at hx
          exact h date' bs hold x hx
      · exact List.mem_singleton.mp hx ▸ hb'
    · exact h date bs hbs x hx
  unfold bucketBatch
  dsimp only
  split
  · next date' hone =>
    refine hpush _ _ _ (hb b rfl fun hnil => ?_) h
    rw [hnil] at hone
    cases hone
  · have hfold : ∀ (dates : List NaiveDate) (buckets : Dict NaiveDate (List RecordBatch)),
        (∀ date ∈ dates, ∃ row ∈ b.rows, (extractDateFromRow b.schema idx row).getD today = date) →
        (∀ date bs, buckets.lookup date = some bs → ∀ b ∈ bs, P b) →
        ∀ date bs, (dates.foldl (fun buckets date => pushBucket buckets date (b.filterRecordBatch
          ((b.rows.map fun row => (extractDateFromRow b.schema idx row).getD today).map (· = date)))) buckets).lookup
            date = some bs → ∀ b ∈ bs, P b := by
      intro dates
      induction dates with
      | nil => exact fun _ _ h => h
      | cons date' dates ih =>
        intro buckets hdates h
        refine ih _ (fun d hd => hdates d (List.mem_cons_of_mem _ hd)) (hpush _ _ _ (hb _ rfl fun hnil => ?_) h)
        obtain ⟨row, hrow, hdate⟩ := hdates date' List.mem_cons_self
        rw [filterRecordBatch_date, List.filter_eq_nil_iff] at hnil
        exact hnil row hrow (decide_eq_true hdate)
    exact hfold _ _ (fun date hdate => List.mem_map.mp (List.mem_dedup.mp hdate)) h

/-- What is read of the rows, with the date that each is put under. -/
def datedBy (f : Schema → BatchRow → β) (today : NaiveDate) (batches : List RecordBatch) : List (NaiveDate × β) :=
  rowsBy (fun schema row => (bucketDate today (dateColumn batches) schema row, f schema row)) batches

def readOn (date : NaiveDate) (rows : List (NaiveDate × β)) : List β := (rows.filter (·.1 = date)).map (·.2)

theorem readOn_datedBy (date : NaiveDate) : readOn date (datedBy f today batches) = batches.flatMap fun b =>
    (b.rows.filter fun row => bucketDate today (dateColumn batches) b.schema row = date).map (f b.schema) := by
  simp only [readOn, datedBy, rowsBy, List.filter_flatMap, List.map_flatMap, List.filter_map, List.map_map]
  rfl

/-- What `partition_batches_by_date` returns: distinct dates, for each a bucket of the rows that are put under it. -/
structure PartitionedBy (f : Schema → BatchRow → β) (today : NaiveDate) (batches : List RecordBatch)
    (buckets : List (NaiveDate × List RecordBatch)) : Prop where
  nodup : (buckets.map Prod.fst).Nodup
  nonempty : ∀ e ∈ buckets, e.2 ≠ []
  schemas : ∀ e ∈ buckets, ∀ b ∈ e.2, ∃ b' ∈ batches, b.schema = b'.schema
  rows : ∀ e ∈ buckets, rowsBy f e.2 = readOn e.1 (datedBy f today batches)
  complete : ∀ date, date ∉ buckets.map Prod.fst → readOn date (datedBy f today batches) = []

/-- Splitting by date keeps the rows of each date in order. -/
theorem partitionBatchesByDate_rowsBy (f : Schema → BatchRow → β) (today : NaiveDate) (batches : List RecordBatch) :
    PartitionedBy f today batches (partitionBatchesByDate today batches) := by
  cases batches with
  | nil => exact ⟨by simp [partitionBatchesByDate], fun _ h => absurd h List.not_mem_nil,
      fun _ h => absurd h List.not_mem_nil, fun _ h => absurd h List.not_mem_nil, fun _ _ => rfl⟩
  | cons first rest =>
    rw [partitionBatchesByDate]
    cases hidx : timestampColumn first.schema with
    | none =>
      have hrows : ∀ date, readOn date (datedBy f today (first :: rest)) =
          if date = today then rowsBy f (first :: rest) else [] := by
        intro date
        have hcol : dateColumn (first :: rest) = none := hidx
        rw [readOn_datedBy, hcol]
        split
        · next h =>
          refine List.flatMap_congr fun b _ => congrArg (List.map (f b.schema)) ?_
          exact List.filter_eq_self.mpr fun _ _ => decide_eq_true h.symm
        · next h =>
          refine List.flatMap_eq_nil_iff.mpr fun b _ => ?_
          rw [List.filter_eq_nil_iff.mpr fun _ _ hd => h (of_decide_eq_true hd).symm, List.map_nil]
      refine ⟨List.nodup_singleton _, ?_, ?_, ?_, fun date hdate => ?_⟩
      · rintro e he
        rw [List.mem_singleton.mp he]
        exact List.cons_ne_nil _ _
      · rintro e he b hb
        rw [List.mem_singleton.mp he] at hb
        exact ⟨b, hb, rfl⟩
      · rintro e he
        rw [List.mem_singleton.mp he, hrows, if_pos rfl]
      · rw [hrows, if_neg fun h => hdate (List.mem_singleton.mpr h)]
    | some idx =>
      have hfold : ∀ (bs : List RecordBatch) (buckets : Dict NaiveDate (List RecordBatch)),
          (∀ b ∈ bs, b ∈ first :: rest) → BucketsWf (first :: rest) buckets →
          BucketsWf (first :: rest) (bs.foldl (bucketBatch today idx) buckets) ∧
            ∀ date, bucketRowsBy f (bs.foldl (bucketBatch today idx) buckets) date =
              bucketRowsBy f buckets date ++ bs.flatMap (batchRowsBy f today idx date) := by
        intro bs
        induction bs with
        | nil => exact fun buckets _ h => ⟨h, fun date => (List.append_nil _).symm⟩
        | cons b bs ih =>
          intro buckets hbs h
          obtain ⟨hwf, hrows⟩ := ih (bucketBatch today idx buckets b) (fun c hc => hbs c (List.mem_cons_of_mem _ hc))
            (bucketBatch_wf h (hbs b List.mem_cons_self))
          refine ⟨hwf, fun date => ?_⟩
          rw [List.foldl_cons, hrows, bucketBatch_rowsBy, List.flatMap_cons, List.append_assoc]
      obtain ⟨hwf, hrows⟩ := hfold (first :: rest) ∅ (fun _ hb => hb) fun _ _ h => by cases h
      have hdated : ∀ date, readOn date (datedBy f today (first :: rest)) =
          bucketRowsBy f ((first :: rest).foldl (bucketBatch today idx) ∅) date := by
        intro date
        have hcol : dateColumn (first :: rest) = some idx := hidx
        rw [hrows, readOn_datedBy, hcol]
        rfl
      dsimp only
      generalize (first :: rest).foldl (bucketBatch today idx) ∅ = buckets at hwf hdated
      have hperm := List.perm_insertionSort (fun a b => a.1 ≤ b.1) buckets.pairs
      have hlook : ∀ e ∈ buckets.pairs.insertionSort fun a b => a.1 ≤ b.1, buckets.lookup e.1 = some e.2 :=
        fun e he => Dict.mem_pairs.mp (hperm.mem_iff.mp he)
      refine ⟨(hperm.map Prod.fst).nodup_iff.mpr buckets.pairs_nodup, fun e he => (hwf _ _ (hlook e he)).1,
        fun e he => (hwf _ _ (hlook e he)).2, fun e he => ?_, fun date hdate => ?_⟩
      · rw [hdated, bucketRowsBy, hlook e he, Option.getD_some]
      · rw [hdated, bucketRowsBy]
        cases hl : buckets.lookup date with
        | none => rfl
        | some bs =>
          exact absurd (List.mem_map_of_mem (f := Prod.fst) (hperm.mem_iff.mpr (Dict.mem_pairs.mpr hl))) hdate

theorem partitionBatchesByDate_filled (hidx : dateColumn batches = some idx) :
    ∀ e ∈ partitionBatchesByDate today batches, ∀ b ∈ e.2, b.rows ≠ [] := by
  have hfold : ∀ (bs : List RecordBatch) (buckets : Dict NaiveDate (List RecordBatch)),
      (∀ date bs, buckets.lookup date = some bs → ∀ b ∈ bs, b.rows ≠ []) →
      ∀ date bs', (bs.foldl (bucketBatch today idx) buckets).lookup date = some bs' → ∀ b ∈ bs', b.rows ≠ [] := by
    intro bs
    induction bs with
    | nil => exact fun _ h => h
    | cons b bs ih => exact fun buckets h => ih _ (bucketBatch_forall h fun _ _ hrows => hrows)
  cases batches with
  | nil => cases hidx
  | cons first rest =>
    have hcol : timestampColumn first.schema = some idx := hidx
    intro e he
    rw [partitionBatchesByDate, hcol] at he
    have hmem : e ∈ ((first :: rest).foldl (bucketBatch today idx) ∅).pairs :=
      (List.perm_insertionSort _ _).mem_iff.mp he
    exact hfold _ ∅ (fun _ _ h => by cases h) e.1 e.2 (Dict.mem_pairs.mp hmem)

theorem partitionBatchesByDate_none (hidx : dateColumn batches = none) :
    ∀ e ∈ partitionBatchesByDate today batches, e = (today, batches) := by
  cases batches with
  | nil => exact fun e he => absurd he List.not_mem_nil
  | cons first rest =>
    have hcol : timestampColumn first.schema = none := hidx
    intro e he
    rw [partitionBatchesByDate, hcol] at he
    exact List.mem_singleton.mp he

end Buckets

end Reiver.Pond
