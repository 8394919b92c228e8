import Reiver.Pond.Sync.JobMessages

/-! # Processed messages and their jobs

A job is in its transaction or in the table (`Consistent`), and what a statement of the consumer does to a row that is
not there is nothing. A run leaves every processed job done exactly if its steps are in time (`messages_concluded`). -/

namespace Reiver.Pond
namespace JobDispatch

variable {s t : JobDispatch}

structure Consistent (s : JobDispatch) : Prop where
  apart : ∀ id ∈ s.jobs, id ∉ s.transactions
  fresh : ∀ id tx, s.transactions.lookup id = some tx → tx.job.row.status = .pending
  working : ∀ message ∈ s.consumer.message, message.jobId ∉ s.processed

def Done (s : JobDispatch) (id : Uuid) : Prop :=
  ∃ job, s.jobs.lookup id = some job ∧ (job.row.status = .completed ∨ job.row.status = .failed)

theorem Done.mem {id : Uuid} (h : s.Done id) : id ∈ s.jobs := by
  obtain ⟨job, hjob, -⟩ := h
  exact Dict.mem_iff_lookup.mpr ⟨job, hjob⟩

/-! ### Updates -/

section Update
variable {id : Uuid} {f : JobRow → JobRow}

theorem update_eq : s.update id f = { s with jobs := (s.update id f).jobs } := by
  rw [update]
  split <;> rfl

theorem lookup_update (id' : Uuid) : (s.update id f).jobs.lookup id' =
    if id' = id then (s.jobs.lookup id).map fun job => { job with row := f job.row } else s.jobs.lookup id' := by
  rw [update]
  split
  · next job hjob =>
    rw [Dict.lookup_insert', hjob]
    rfl
  · next hnone =>
    split_ifs with h
    · rw [h, hnone]
      rfl
    · rfl

theorem mem_update {id' : Uuid} : id' ∈ (s.update id f).jobs ↔ id' ∈ s.jobs := by
  rw [← AList.lookup_isSome, ← AList.lookup_isSome, lookup_update]
  split_ifs with h
  · rw [Option.isSome_map, h]
  · rfl

theorem done_update_of_ne {id' : Uuid} (h : id' ≠ id) : (s.update id f).Done id' ↔ s.Done id' := by
  rw [Done, lookup_update, if_neg h]
  rfl

theorem done_update {job : WarehouseJob} (h : s.jobs.lookup id = some job) :
    (s.update id f).Done id ↔ (f job.row).status = .completed ∨ (f job.row).status = .failed := by
  rw [Done, lookup_update, if_pos rfl, h]
  constructor
  · rintro ⟨job', hjob', hfinal⟩
    cases hjob'
    exact hfinal
  · exact fun hfinal => ⟨_, rfl, hfinal⟩

end Update

theorem finalStatus_final {row : JobRow} {now : Int} {result : Except String Unit} :
    (row.updateStatus (finalStatus result).1 now (finalStatus result).2).status = .completed ∨
      (row.updateStatus (finalStatus result).1 now (finalStatus result).2).status = .failed := by
  cases result with
  | ok => exact .inl rfl
  | error error => exact .inr rfl

theorem finish_final_iff {row : JobRow} {now : Int} {result : Except String Unit} :
    ((row.finish now result).status = .completed ∨ (row.finish now result).status = .failed) ↔
      result = .ok () ∨ row.maxRetries ≤ row.retryCount + 1 := by
  cases result with
  | ok => exact iff_of_true (.inl rfl) (.inl rfl)
  | error error =>
    rw [JobRow.finish, JobRow.fail]
    dsimp only
    split_ifs with hleft
    · refine iff_of_false (by simp) ?_
      rintro (h | h)
      · cases h
      · omega
    · exact iff_of_true (.inr rfl) (.inr (by omega))

/-! ### Steps -/

theorem insertJob_eq {id : Uuid} {job : WarehouseJob} {conflicts : WarehouseJob → Bool}
    (h : s.insertJob id job conflicts = some t) :
    id ∉ s.jobs ∧ t = { s with transactions := s.transactions.insert id { job } } := by
  rw [insertJob] at h
  split_ifs at h with hrefused
  exact ⟨fun hid => hrefused (.inl hid), (Option.some.inj h).symm⟩

theorem consistent_insertJob {id : Uuid} {job : WarehouseJob} {conflicts : WarehouseJob → Bool}
    (h : s.Consistent) (hpending : job.row.status = .pending) (hstep : s.insertJob id job conflicts = some t) :
    t.Consistent := by
  obtain ⟨hid, rfl⟩ := insertJob_eq hstep
  refine ⟨fun id' hid' htx => ?_, fun id' tx htx => ?_, h.working⟩
  · rcases (AList.mem_insert _).mp htx with rfl | htx
    · exact hid hid'
    · exact h.apart id' hid' htx
  · have htx : (s.transactions.insert id { job }).lookup id' = some tx := htx
    rw [Dict.lookup_insert'] at htx
    split_ifs at htx
    · cases htx
      exact hpending
    · exact h.fresh id' tx htx

theorem concluded_insertJob {id : Uuid} {job : WarehouseJob} {conflicts : WarehouseJob → Bool}
    (h : s.Concluded) (hstep : s.insertJob id job conflicts = some t) : t.Concluded := by
  obtain ⟨-, rfl⟩ := insertJob_eq hstep
  exact ⟨fun id' hid' htx => h.final id' hid' fun hmem => htx ((AList.mem_insert _).mpr (.inr hmem)), h.once⟩

theorem lookup_erase_some {κ α : Type} [DecidableEq κ] {d : Dict κ α} {k k' : κ} {a : α}
    (h : (d.erase k).lookup k' = some a) : d.lookup k' = some a := by
  rw [Dict.lookup_erase'] at h
  split_ifs at h
  exact h

theorem consistent_erase {id : Uuid} (h : s.Consistent) :
    Consistent { s with transactions := s.transactions.erase id } :=
  ⟨fun id' hid' htx => h.apart id' hid' (AList.mem_erase.mp htx).2, fun _ _ htx => h.fresh _ _ (lookup_erase_some htx),
    h.working⟩

theorem concluded_erase {id : Uuid} (h : s.Consistent) (hs : s.Concluded) (hid : id ∈ s.transactions) :
    Concluded { s with transactions := s.transactions.erase id } ↔ id ∉ s.processed := by
  constructor
  · intro ht hprocessed
    have hdone : s.Done id := ht.final id hprocessed fun hmem => (AList.mem_erase.mp hmem).1 rfl
    exact h.apart id hdone.mem hid
  · intro hprocessed
    refine ⟨fun id' hid' htx => hs.final id' hid' fun hmem => htx ?_, hs.once⟩
    exact AList.mem_erase.mpr ⟨fun heq => hprocessed (heq ▸ hid'), hmem⟩

theorem consistent_commit {id : Uuid} {job : WarehouseJob} (h : s.Consistent) :
    Consistent { s with jobs := s.jobs.insert id job, transactions := s.transactions.erase id } := by
  refine ⟨fun id' hid' htx => ?_, fun _ _ htx => h.fresh _ _ (lookup_erase_some htx), h.working⟩
  obtain ⟨hne, htx⟩ := AList.mem_erase.mp htx
  exact h.apart id' (((AList.mem_insert _).mp hid').resolve_left hne) htx

theorem concluded_commit {id : Uuid} {tx : JobTransaction} (h : s.Consistent) (hs : s.Concluded)
    (hid : s.transactions.lookup id = some tx) :
    Concluded { s with jobs := s.jobs.insert id tx.job, transactions := s.transactions.erase id } ↔
      id ∉ s.processed := by
  constructor
  · intro ht hprocessed
    obtain ⟨job, hjob, hfinal⟩ := ht.final id hprocessed fun hmem => (AList.mem_erase.mp hmem).1 rfl
    have hjob : (s.jobs.insert id tx.job).lookup id = some job := hjob
    rw [AList.lookup_insert] at hjob
    cases hjob
    rw [h.fresh id tx hid] at hfinal
    rcases hfinal with hfinal | hfinal <;> cases hfinal
  · intro hprocessed
    refine ⟨fun id' hid' htx => ?_, hs.once⟩
    have hne : id' ≠ id := fun heq => hprocessed (heq ▸ hid')
    obtain ⟨job, hjob, hfinal⟩ := hs.final id' hid' fun hmem => htx (AList.mem_erase.mpr ⟨hne, hmem⟩)
    exact ⟨job, (AList.lookup_insert_ne hne).trans hjob, hfinal⟩

theorem concluded_update {id : Uuid} {f : JobRow → JobRow} {consumer : ConsumerPhase} (hs : s.Concluded)
    (hid : id ∉ s.processed) : Concluded { s.update id f with consumer } := by
  rw [update_eq]
  refine ⟨fun id' hid' htx => ?_, hs.once⟩
  have hne : id' ≠ id := fun heq => hid (heq ▸ hid')
  exact (done_update_of_ne hne).mpr (hs.final id' hid' htx)

theorem consistent_update {id : Uuid} {f : JobRow → JobRow} (h : s.Consistent) : (s.update id f).Consistent := by
  refine ⟨fun id' hid' => ?_, ?_, ?_⟩
  · rw [mem_update] at hid'
    rw [update_eq]
    exact h.apart id' hid'
  · rw [update_eq]
    exact h.fresh
  · rw [update_eq]
    exact h.working

/-- The row that the consumer marks at the end. -/
def finished (s : JobDispatch) (message : SyncJobKafkaMessage) (result : Except String Unit) : JobDispatch :=
  s.update message.jobId (·.updateStatus (finalStatus result).1 s.now (finalStatus result).2)

theorem finish_eq {message : SyncJobKafkaMessage} {partition offset : Nat} {result : Except String Unit} :
    s.finish message partition offset result =
      { s with
        jobs := (s.finished message result).jobs
        consumer := .processed partition offset
        processed := message.jobId :: s.processed } := by
  rw [finish, update_eq]
  rfl

theorem concluded_finish {message : SyncJobKafkaMessage} {partition offset : Nat} {result : Except String Unit}
    (hs : s.Concluded) : (s.finish message partition offset result).Concluded ↔
      message.jobId ∈ s.jobs ∨ message.jobId ∈ s.transactions := by
  rw [finish_eq]
  constructor
  · intro ht
    by_cases htx : message.jobId ∈ s.transactions
    · exact .inr htx
    · have hdone : (s.finished message result).Done message.jobId := ht.final message.jobId List.mem_cons_self htx
      exact .inl (mem_update.mp hdone.mem)
  · intro hthere
    refine ⟨fun id hid htx => ?_, hs.once⟩
    by_cases heq : id = message.jobId
    · subst heq
      obtain ⟨job, hjob⟩ := Dict.mem_iff_lookup.mp (hthere.resolve_right htx)
      exact (done_update hjob).mpr finalStatus_final
    · exact (done_update_of_ne heq).mpr (hs.final id ((List.mem_cons.mp hid).resolve_left heq) htx)

theorem concluded_claim {worker : WorkerId} {id : Uuid} {expires : Int} {job : WarehouseJob} (h : s.Consistent)
    (hs : s.Concluded) (hjob : s.jobs.lookup id = some job) (hpending : job.row.status = .pending) :
    (s.claim worker id expires job).Concluded ↔ (job.jobType.workerRuns = true → id ∉ s.consumed) := by
  have hid : id ∉ s.processed := by
    intro hprocessed
    obtain ⟨job', hjob', hfinal⟩ := hs.final id hprocessed (h.apart id (Dict.mem_iff_lookup.mpr ⟨job, hjob⟩))
    cases hjob.symm.trans hjob'
    rw [hpending] at hfinal
    rcases hfinal with hfinal | hfinal <;> cases hfinal
  have hfinal : ∀ id' ∈ s.processed, id' ∉ s.transactions → (s.claim worker id expires job).Done id' := by
    intro id' hid' htx
    have hne : id' ≠ id := fun heq => hid (heq ▸ hid')
    obtain ⟨job', hjob', hfinal⟩ := hs.final id' hid' htx
    exact ⟨job', (AList.lookup_insert_ne hne).trans hjob', hfinal⟩
  have hpolled : (s.claim worker id expires job).polled = if job.jobType.workerRuns then id :: s.polled else s.polled :=
    rfl
  constructor
  · intro ht hruns
    refine ht.once id ?_
    rw [hpolled, if_pos hruns]
    exact List.mem_cons_self
  · intro hconsumed
    refine ⟨hfinal, fun id' hid' => ?_⟩
    rw [hpolled] at hid'
    split_ifs at hid' with hruns
    · rcases List.mem_cons.mp hid' with rfl | hid'
      · exact hconsumed hruns
      · exact hs.once id' hid'
    · exact hs.once id' hid'

theorem concluded_complete {worker : WorkerId} {id : Uuid} {result : Except String Unit} (h : s.Consistent)
    (hs : s.Concluded) :
    Concluded { s.update id (·.finish s.now result) with executing := s.executing.erase worker } ↔
      (id ∈ s.processed → ∀ job ∈ s.jobs.lookup id, result = .ok () ∨ job.row.maxRetries ≤ job.row.retryCount + 1) := by
  constructor
  · intro ht hprocessed job hjob
    have htx := h.apart id (Dict.mem_iff_lookup.mpr ⟨job, hjob⟩)
    have hdone : (s.update id (·.finish s.now result)).Done id := by
      rw [update_eq] at ht
      exact ht.final id hprocessed htx
    exact finish_final_iff.mp ((done_update hjob).mp hdone)
  · intro hcond
    rw [update_eq]
    refine ⟨fun id' hid' htx => ?_, hs.once⟩
    by_cases heq : id' = id
    · subst heq
      obtain ⟨job, hjob, -⟩ := hs.final id' hid' htx
      exact (done_update hjob).mpr (finish_final_iff.mpr (hcond hid' job hjob))
    · exact (done_update_of_ne heq).mpr (hs.final id' hid' htx)

theorem concluded_execute {message : SyncJobKafkaMessage} {partition offset : Nat} {result : Except String Unit}
    (hs : s.Concluded) : (s.execute message partition offset result).Concluded ↔
      (message.jobType.consumerRuns = true → message.jobId ∉ s.polled) := by
  rw [execute]
  by_cases hruns : message.jobType.consumerRuns = true
  · rw [if_pos hruns]
    constructor
    · exact fun ht _ hpolled => ht.once message.jobId hpolled List.mem_cons_self
    · intro hpolled
      refine ⟨hs.final, fun id hid hmem => ?_⟩
      rcases List.mem_cons.mp hmem with rfl | hmem
      · exact hpolled hruns hid
      · exact hs.once id hid hmem
  · rw [if_neg hruns]
    exact iff_of_true ⟨hs.final, hs.once⟩ fun h => absurd h hruns

/-! ### Runs -/

theorem consistent_publish {id : Uuid} {partition : Nat} {delivered acknowledged : Bool} {tx : JobTransaction}
    (h : s.Consistent) (hid : s.transactions.lookup id = some tx) :
    (s.publish id partition delivered acknowledged tx).Consistent := by
  have hmem : id ∈ s.transactions := Dict.mem_iff_lookup.mpr ⟨tx, hid⟩
  cases acknowledged with
  | true =>
    refine ⟨fun id' hid' htx => ?_, fun id' tx' htx => ?_, h.working⟩
    · rcases (AList.mem_insert _).mp htx with rfl | htx
      · exact h.apart _ hid' hmem
      · exact h.apart id' hid' htx
    · have htx : (s.transactions.insert id { tx with published := true }).lookup id' = some tx' := htx
      rw [Dict.lookup_insert'] at htx
      split_ifs at htx
      · cases htx
        exact h.fresh id tx hid
      · exact h.fresh id' tx' htx
  | false =>
    have herased : Consistent { s with transactions := s.transactions.erase id } := consistent_erase h
    exact ⟨herased.apart, herased.fresh, herased.working⟩

theorem concluded_publish {id : Uuid} {partition : Nat} {delivered acknowledged : Bool} {tx : JobTransaction}
    (h : s.Consistent) (hs : s.Concluded) (hid : s.transactions.lookup id = some tx) :
    (s.publish id partition delivered acknowledged tx).Concluded ↔ acknowledged = true ∨ id ∉ s.processed := by
  have hmem : id ∈ s.transactions := Dict.mem_iff_lookup.mpr ⟨tx, hid⟩
  cases acknowledged with
  | true =>
    refine iff_of_true ⟨fun id' hid' htx => hs.final id' hid' fun hopen => htx ?_, hs.once⟩ (.inl rfl)
    exact (AList.mem_insert _).mpr (.inr hopen)
  | false =>
    rw [or_iff_right (by simp), ← concluded_erase h hs hmem]
    exact ⟨fun ht => ⟨ht.final, ht.once⟩, fun ht => ⟨ht.final, ht.once⟩⟩

theorem consistent_step {action : DispatchAction} (h : s.Consistent) (hstep : s.step action = some t) :
    t.Consistent := by
  have hidle : ∀ u : JobDispatch, u.jobs = s.jobs → u.transactions = s.transactions → u.consumer.message = none →
      u.Consistent := by
    intro u hjobs htransactions hmessage
    refine ⟨fun id hid => ?_, fun id tx htx => h.fresh id tx (htransactions ▸ htx), fun message hm => ?_⟩
    · rw [htransactions]
      exact h.apart id (hjobs ▸ hid)
    · rw [hmessage] at hm
      cases hm
  cases action with
  | tick seconds =>
    cases hstep
    exact ⟨h.apart, h.fresh, h.working⟩
  | scheduleSync id sourceId => exact consistent_insertJob h rfl hstep
  | scheduleTransition id sourceId jobType => exact consistent_insertJob h rfl hstep
  | publish id partition delivered acknowledged =>
    simp only [step] at hstep
    split at hstep
    · next tx hid =>
      split_ifs at hstep
      exact Option.some.inj hstep ▸ consistent_publish h hid
    · cases hstep
  | commit id =>
    simp only [step] at hstep
    split at hstep
    · split_ifs at hstep
      exact Option.some.inj hstep ▸ consistent_commit h
    · cases hstep
  | rollback id =>
    simp only [step] at hstep
    split_ifs at hstep
    exact Option.some.inj hstep ▸ consistent_erase h
  | deliver partition =>
    simp only [step] at hstep
    split at hstep
    · cases hstep
      refine ⟨h.apart, h.fresh, fun message hm => ?_⟩
      cases hm
      exact fun hmem => of_decide_eq_true (List.mem_filter.mp hmem).2 rfl
    · cases hstep
  | start ok =>
    simp only [step] at hstep
    split at hstep
    · next message partition offset hconsumer =>
      cases ok with
      | true =>
        have hupdated : (s.update message.jobId (·.updateStatus .running s.now none)).Consistent := consistent_update h
        refine Option.some.inj hstep ▸ ⟨hupdated.apart, hupdated.fresh, fun message' hm => ?_⟩
        cases hm
        have hworking := h.working message (by rw [hconsumer]; rfl)
        intro hmem
        rw [if_pos rfl, start, update_eq] at hmem
        exact hworking hmem
      | false => exact Option.some.inj hstep ▸ hidle _ rfl rfl rfl
    · cases hstep
  | execute result =>
    simp only [step] at hstep
    split at hstep
    · next message partition offset hconsumer =>
      have hworking := h.working message (by rw [hconsumer]; rfl)
      cases hstep
      rw [execute]
      by_cases hruns : message.jobType.consumerRuns = true
      · rw [if_pos hruns]
        refine ⟨h.apart, h.fresh, fun message' hm => ?_⟩
        cases hm
        exact hworking
      · rw [if_neg hruns]
        refine ⟨h.apart, h.fresh, fun message' hm => ?_⟩
        cases hm
        exact hworking
    · cases hstep
  | finish ok =>
    simp only [step] at hstep
    split at hstep
    · next message partition offset result hconsumer =>
      cases ok with
      | true =>
        have hupdated : (s.finished message result).Consistent := consistent_update h
        have heq := Option.some.inj hstep
        rw [if_pos rfl, finish_eq] at heq
        subst heq
        refine ⟨fun id hid htx => ?_, h.fresh, fun message' hm => by cases hm⟩
        exact h.apart id (mem_update.mp hid) htx
      | false => exact Option.some.inj hstep ▸ hidle _ rfl rfl rfl
    · cases hstep
  | commitOffset ok =>
    simp only [step] at hstep
    split at hstep
    · cases hstep
      exact hidle _ rfl rfl rfl
    · cases hstep
  | restart =>
    cases hstep
    exact hidle _ rfl rfl rfl
  | claim worker id expires =>
    simp only [step] at hstep
    split at hstep
    · next job hjob =>
      split_ifs at hstep
      refine Option.some.inj hstep ▸ ⟨fun id' hid' => ?_, h.fresh, h.working⟩
      rcases (AList.mem_insert _).mp hid' with rfl | hid'
      · exact h.apart _ (Dict.mem_iff_lookup.mpr ⟨job, hjob⟩)
      · exact h.apart id' hid'
    · cases hstep
  | complete worker result =>
    simp only [step] at hstep
    split at hstep
    · next id hid =>
      have hupdated : (s.update id (·.finish s.now result)).Consistent := consistent_update h
      exact Option.some.inj hstep ▸ ⟨hupdated.apart, hupdated.fresh, hupdated.working⟩
    · cases hstep
  | abandon worker =>
    cases hstep
    exact ⟨h.apart, h.fresh, h.working⟩

theorem concluded_step {action : DispatchAction} (h : s.Consistent) (hs : s.Concluded)
    (hstep : s.step action = some t) : t.Concluded ↔ s.Timely action := by
  cases action with
  | tick seconds =>
    cases hstep
    exact iff_of_true ⟨hs.final, hs.once⟩ trivial
  | scheduleSync id sourceId => exact iff_of_true (concluded_insertJob hs hstep) trivial
  | scheduleTransition id sourceId jobType => exact iff_of_true (concluded_insertJob hs hstep) trivial
  | publish id partition delivered acknowledged =>
    simp only [step] at hstep
    split at hstep
    · next tx hid =>
      split_ifs at hstep
      exact Option.some.inj hstep ▸ concluded_publish h hs hid
    · cases hstep
  | commit id =>
    simp only [step] at hstep
    split at hstep
    · next tx hid =>
      split_ifs at hstep
      exact Option.some.inj hstep ▸ concluded_commit h hs hid
    · cases hstep
  | rollback id =>
    simp only [step] at hstep
    split_ifs at hstep with hid
    exact Option.some.inj hstep ▸ concluded_erase h hs hid
  | deliver partition =>
    simp only [step] at hstep
    split at hstep
    · cases hstep
      exact iff_of_true ⟨fun id hid => hs.final id (List.mem_filter.mp hid).1, hs.once⟩ trivial
    · cases hstep
  | start ok =>
    simp only [step] at hstep
    split at hstep
    · next message partition offset hconsumer =>
      refine iff_of_true ?_ trivial
      cases ok with
      | true =>
        have hworking := h.working message (by rw [hconsumer]; rfl)
        exact Option.some.inj hstep ▸ concluded_update hs hworking
      | false => exact Option.some.inj hstep ▸ ⟨hs.final, hs.once⟩
    · cases hstep
  | execute result =>
    simp only [step] at hstep
    split at hstep
    · next message partition offset hconsumer =>
      have htimely : s.Timely (.execute result) ↔
          (message.jobType.consumerRuns = true → message.jobId ∉ s.polled) := by
        rw [Timely, hconsumer]
        exact ⟨fun hall => hall message rfl, fun hone _ hm => (by cases hm; exact hone)⟩
      rw [htimely]
      exact Option.some.inj hstep ▸ concluded_execute hs
    · cases hstep
  | finish ok =>
    simp only [step] at hstep
    split at hstep
    · next message partition offset result hconsumer =>
      cases ok with
      | true =>
        have htimely : s.Timely (.finish true) ↔ message.jobId ∈ s.jobs ∨ message.jobId ∈ s.transactions := by
          rw [Timely, hconsumer]
          exact ⟨fun hall => hall rfl message rfl, fun hone _ _ hm => (by cases hm; exact hone)⟩
        rw [htimely]
        exact Option.some.inj hstep ▸ concluded_finish hs
      | false => exact iff_of_true (Option.some.inj hstep ▸ ⟨hs.final, hs.once⟩) fun h => by cases h
    · cases hstep
  | commitOffset ok =>
    simp only [step] at hstep
    split at hstep
    · cases hstep
      exact iff_of_true ⟨hs.final, hs.once⟩ trivial
    · cases hstep
  | restart =>
    cases hstep
    exact iff_of_true ⟨hs.final, hs.once⟩ trivial
  | claim worker id expires =>
    simp only [step] at hstep
    split at hstep
    · next job hjob =>
      split_ifs at hstep with hguard
      have htimely : s.Timely (.claim worker id expires) ↔ (job.jobType.workerRuns = true → id ∉ s.consumed) := by
        rw [Timely, hjob]
        exact ⟨fun hall => hall job rfl, fun hone _ hm => (by cases hm; exact hone)⟩
      rw [htimely]
      exact Option.some.inj hstep ▸ concluded_claim h hs hjob hguard.2.1
    · cases hstep
  | complete worker result =>
    simp only [step] at hstep
    split at hstep
    · next id hid =>
      have htimely : s.Timely (.complete worker result) ↔ (id ∈ s.processed → ∀ job ∈ s.jobs.lookup id,
          result = .ok () ∨ job.row.maxRetries ≤ job.row.retryCount + 1) := by
        rw [Timely, hid]
        exact ⟨fun hall => hall id rfl, fun hone _ hm => (by cases hm; exact hone)⟩
      rw [htimely]
      exact Option.some.inj hstep ▸ concluded_complete h hs
    · cases hstep
  | abandon worker =>
    cases hstep
    exact iff_of_true ⟨hs.final, hs.once⟩ trivial

theorem consistent_start : Consistent {} :=
  ⟨fun _ hid => absurd hid (AList.notMem_empty _), fun _ _ htx => (by cases htx), fun _ hm => (by cases hm)⟩

theorem concluded_start : Concluded {} :=
  ⟨fun _ hid => absurd hid List.not_mem_nil, fun _ hid => absurd hid List.not_mem_nil⟩

/-- Processed messages leave their jobs done, and no job is run twice over, exactly in the runs whose steps are in
    time. -/
theorem messages_concluded (run : List DispatchAction) : Always step Concluded {} run ↔ Meets step Timely {} run :=
  always_iff_meets_of_inv (fun _ _ _ => consistent_step) (fun _ _ _ => concluded_step) consistent_start concluded_start

/-- The message is processed before its transaction commits, and the row stays pending; or the transaction is rolled
    back then; or a polling worker claims the job between the commit and the consumer. -/
theorem not_concluded :
    ¬Always step Concluded {}
      [.scheduleSync 1 7, .publish 1 0 true true, .deliver 0, .start true, .execute (.ok ()), .finish true, .commit 1] ∧
    ¬Always step Concluded {}
      [.scheduleSync 1 7, .publish 1 0 true true, .deliver 0, .start true, .execute (.ok ()), .finish true,
        .rollback 1] ∧
    ¬Always step Concluded {}
      [.scheduleSync 1 7, .publish 1 0 true true, .commit 1, .claim "w" 1 600, .deliver 0, .start true,
        .execute (.ok ())] := by
  refine ⟨fun h => ?_, fun h => ?_, fun h => ?_⟩
  · obtain ⟨job, hjob, hfinal⟩ := (h.of_exec rfl).final 1 List.mem_cons_self (by decide)
    cases hjob
    rcases hfinal with hfinal | hfinal <;> cases hfinal
  · obtain ⟨job, hjob, -⟩ := (h.of_exec rfl).final 1 List.mem_cons_self (by decide)
    cases hjob
  · exact (h.of_exec rfl).once 1 List.mem_cons_self List.mem_cons_self

end JobDispatch
end Reiver.Pond
