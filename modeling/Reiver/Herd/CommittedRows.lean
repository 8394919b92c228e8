import Reiver.Herd.MessageWorker

/-! # Rows below the committed offsets

The rows of every message handed out are stored or not yet stored or lost (`Tracked`): a step moves rows and makes none
disappear (`Moves`). So a commit is safe exactly if what is not stored of its messages was stored before. -/

namespace Reiver.Herd
namespace MessageWorker

variable {topic : A2aTopic} {s t : MessageWorker}

structure Tracked (topic : A2aTopic) (s : MessageWorker) : Prop where
  rows : ∀ partition, ∀ offset < s.handed partition, (topic.envelope partition offset).isSome = true →
    ∀ row ∈ messageRows partition offset, row ∈ s.stored ∨ s.Unstored row
  parsed : ∀ row, s.Unstored row → row.update = false →
    (topic.envelope row.partition row.offset).isSome = true ∧ row ∈ messageRows row.partition row.offset
  behind : ∀ partition, s.committed partition ≤ s.handed partition

/-- A step that leaves the offsets as they are moves rows towards the tables, or to those that are lost. -/
structure Moves (s t : MessageWorker) : Prop where
  handed : t.handed = s.handed
  committed : t.committed = s.committed
  stored : s.stored ⊆ t.stored
  kept : ∀ row, s.Unstored row → row ∈ t.stored ∨ t.Unstored row
  back : ∀ row, t.Unstored row → s.Unstored row ∨ row.update = true

theorem Moves.tracked (h : s.Moves t) (ht : Tracked topic s) : Tracked topic t where
  rows partition offset hoffset hparsed row hrow := by
    rw [h.handed] at hoffset
    rcases ht.rows partition offset hoffset hparsed row hrow with hstored | hrow
    · exact .inl (h.stored hstored)
    · exact h.kept row hrow
  parsed row hrow hupdate := by
    rcases h.back row hrow with hrow | hnew
    · exact ht.parsed row hrow hupdate
    · rw [hupdate] at hnew
      cases hnew
  behind partition := by
    rw [h.handed, h.committed]
    exact ht.behind partition

theorem Moves.nothingLost (h : s.Moves t) (hs : NothingLost topic s) : NothingLost topic t := by
  intro partition offset hoffset hparsed row hrow
  rw [h.committed] at hoffset
  exact h.stored (hs partition offset hoffset hparsed row hrow)

/-! ### The inserters -/

theorem mem_buffered {row : Row} : row ∈ s.buffered ↔ ∃ table, row ∈ s.buffer table := by
  rw [buffered, List.mem_append, List.mem_append]
  constructor
  · rintro ((h | h) | h)
    · exact ⟨_, h⟩
    · exact ⟨_, h⟩
    · exact ⟨_, h⟩
  · rintro ⟨table, h⟩
    cases table with
    | tasks => exact .inl (.inl h)
    | messages => exact .inl (.inr h)
    | requestLog => exact .inr h

theorem exists_clear {buffer : Table → List Row} {table : Table} {row : Row} :
    (∃ other, row ∈ buffer other) ↔ row ∈ buffer table ∨ ∃ other, row ∈ Function.update buffer table [] other := by
  constructor
  · rintro ⟨other, h⟩
    by_cases heq : other = table
    · exact .inl (heq ▸ h)
    · exact .inr ⟨other, by rwa [Function.update_of_ne heq]⟩
  · rintro (h | ⟨other, h⟩)
    · exact ⟨table, h⟩
    · by_cases heq : other = table
      · rw [heq, Function.update_self] at h
        exact absurd h List.not_mem_nil
      · rw [Function.update_of_ne heq] at h
        exact ⟨other, h⟩

theorem exists_push {buffer : Table → List Row} {table : Table} {new row : Row} :
    (∃ other, row ∈ Function.update buffer table (buffer table ++ [new]) other) ↔
      row = new ∨ ∃ other, row ∈ buffer other := by
  constructor
  · rintro ⟨other, h⟩
    by_cases heq : other = table
    · rw [heq, Function.update_self, List.mem_append, List.mem_singleton] at h
      exact h.symm.imp_right fun h => ⟨table, h⟩
    · rw [Function.update_of_ne heq] at h
      exact .inr ⟨other, h⟩
  · rintro (rfl | ⟨other, h⟩)
    · exact ⟨table, by rw [Function.update_self]; exact List.mem_append_right _ (List.mem_singleton_self _)⟩
    · by_cases heq : other = table
      · subst heq
        exact ⟨other, by rw [Function.update_self]; exact List.mem_append_left _ h⟩
      · exact ⟨other, by rwa [Function.update_of_ne heq]⟩

def Held (s : MessageWorker) (row : Row) : Prop := (∃ table, row ∈ s.buffer table) ∨ row ∈ s.lost

theorem unstored_iff {row : Row} : s.Unstored row ↔ row ∈ s.phase.rows ∨ s.Held row := Iff.rfl

theorem held_insert {table : Table} {row : Row} :
    s.Held row ↔ row ∈ s.buffer table ∨ (s.insert table).Held row :=
  (or_congr exists_clear Iff.rfl).trans or_assoc

theorem held_abort {table : Table} {row : Row} : (s.abort table).Held row ↔ s.Held row := by
  have hlost : row ∈ (s.abort table).lost ↔ row ∈ s.lost ∨ row ∈ s.buffer table := List.mem_append
  have hbuffer : (∃ other, row ∈ s.buffer other) ↔ row ∈ s.buffer table ∨ ∃ other, row ∈ (s.abort table).buffer other :=
    exists_clear
  rw [Held, Held, hlost, hbuffer]
  tauto

theorem held_dropWriter {row : Row} : s.dropWriter.Held row ↔ s.Held row := by
  have hlost : row ∈ s.dropWriter.lost ↔ row ∈ s.lost ∨ ∃ table, row ∈ s.buffer table := by
    rw [← mem_buffered]
    exact List.mem_append
  have hbuffer : ¬∃ table, row ∈ s.dropWriter.buffer table := fun ⟨_, h⟩ => List.not_mem_nil h
  rw [Held, Held, hlost]
  tauto

theorem held_write {row new : Row} {outcome : WriteOutcome} :
    (s.write new outcome).Held row ↔ row = new ∨ s.Held row := by
  cases outcome with
  | written =>
    have hbuffer : (∃ table, row ∈ (s.write new .written).buffer table) ↔ row = new ∨ ∃ table, row ∈ s.buffer table :=
      exists_push
    rw [Held, hbuffer, or_assoc]
    rfl
  | rejected =>
    have hlost : row ∈ (s.write new .rejected).lost ↔ row ∈ s.lost ∨ row = new := by
      rw [← List.mem_singleton]
      exact List.mem_append
    rw [Held, hlost, ← or_assoc, or_comm]
    rfl
  | aborted =>
    have hlost : row ∈ (s.write new .aborted).lost ↔ row ∈ (s.abort new.table).lost ∨ row = new := by
      rw [← List.mem_singleton]
      exact List.mem_append
    have habort : (s.abort new.table).Held row ↔ s.Held row := held_abort
    rw [← habort, Held, hlost, ← or_assoc, or_comm]
    rfl

/-! ### Steps that leave the offsets -/

theorem moves_of_unstored (hhanded : t.handed = s.handed) (hcommitted : t.committed = s.committed)
    (hstored : s.stored ⊆ t.stored) (h : ∀ row, t.Unstored row ↔ s.Unstored row) : s.Moves t :=
  ⟨hhanded, hcommitted, hstored, fun row hrow => .inr ((h row).mpr hrow), fun row hrow => .inl ((h row).mp hrow)⟩

theorem unstored_of_none {row : Row} (hnone : s.phase.rows = []) : s.Unstored row ↔ s.Held row := by
  rw [unstored_iff, hnone]
  exact or_iff_right List.not_mem_nil

theorem moves_of_held (hs : s.phase.rows = []) (ht : t.phase.rows = []) (h : ∀ row, t.Held row ↔ s.Held row)
    (hhanded : t.handed = s.handed) (hcommitted : t.committed = s.committed) (hstored : t.stored = s.stored) :
    s.Moves t :=
  moves_of_unstored hhanded hcommitted (fun _ hrow => hstored ▸ hrow) fun row => by
    rw [unstored_of_none hs, unstored_of_none ht]
    exact h row

theorem moves_insert {table : Table} {phase : WorkerPhase} (hs : s.phase.rows = []) (hphase : phase.rows = []) :
    s.Moves { s.insert table with phase } := by
  have hnew : ∀ r, ({ s.insert table with phase } : MessageWorker).Unstored r ↔ (s.insert table).Held r :=
    fun _ => unstored_of_none (s := { s.insert table with phase }) hphase
  refine ⟨rfl, rfl, List.subset_append_left _ _, fun r hr => ?_, fun r hr => .inl ?_⟩
  · rw [unstored_of_none hs, held_insert] at hr
    exact hr.imp (List.mem_append_right _) (hnew r).mpr
  · rw [unstored_of_none hs, held_insert]
    exact .inr ((hnew r).mp hr)

theorem moves_phase {phase : WorkerPhase} (hs : s.phase.rows = []) (hupdate : ∀ row ∈ phase.rows, row.update = true) :
    s.Moves { s with phase } := by
  refine ⟨rfl, rfl, List.Subset.refl _, fun r hr => .inr (.inr ?_), fun r hr => ?_⟩
  · exact (unstored_of_none hs).mp hr
  · rcases hr with hr | hr
    · exact .inr (hupdate r hr)
    · exact .inl (.inr hr)

theorem update_of_mem {partition offset responses : Nat} {row : Row} (h : row ∈ updateRows partition offset responses) :
    row.update = true := by
  rcases List.mem_cons.mp h with rfl | h
  · rfl
  · rw [List.eq_of_mem_replicate h]

theorem write_frame {row : Row} {outcome : WriteOutcome} :
    (s.write row outcome).handed = s.handed ∧ (s.write row outcome).committed = s.committed ∧
      (s.write row outcome).stored = s.stored := by
  cases outcome <;> exact ⟨rfl, rfl, rfl⟩

theorem moves_writeRow {row : Row} {rest : List Row} {outcome : WriteOutcome}
    (hphase : s.phase = .buffering (row :: rest)) :
    s.Moves (s.writeRow topic row rest outcome) := by
  obtain ⟨hhanded, hcommitted, hstored⟩ := @write_frame s row outcome
  have hstored : s.stored ⊆ (s.write row outcome).stored := fun r hr => hstored ▸ hr
  have hrows : ∀ r, s.Unstored r ↔ r ∈ rest ∨ (s.write row outcome).Held r := fun r => by
    rw [unstored_iff, hphase, held_write, ← or_assoc]
    exact or_congr_left (List.mem_cons.trans or_comm)
  have hskip : s.Moves { s.write row outcome with
      lost := (s.write row outcome).lost ++ rest, phase := .committing [.tasks, .messages, .requestLog] } := by
    refine moves_of_unstored hhanded hcommitted hstored fun r => ?_
    refine (or_iff_right List.not_mem_nil).trans ((or_congr_right List.mem_append).trans ?_)
    rw [hrows, ← or_assoc, or_comm]
    rfl
  cases outcome with
  | written =>
    refine moves_of_unstored hhanded hcommitted hstored fun r => ?_
    have hrest : (s.writeRow topic row rest .written).phase.rows = rest := by
      cases rest with
      | nil =>
        rw [writeRow]
        dsimp only
        split <;> rfl
      | cons next rest => rfl
    rw [hrows, unstored_iff, hrest]
    rfl
  | rejected => exact hskip
  | aborted => exact hskip

theorem moves_writeUpdate {row : Row} {rest : List Row} {outcome : WriteOutcome}
    (hphase : s.phase = .updating (row :: rest)) :
    s.Moves (s.writeUpdate row rest outcome) := by
  obtain ⟨hhanded, hcommitted, hstored⟩ := @write_frame s row outcome
  refine moves_of_unstored hhanded hcommitted (fun r hr => (hstored ▸ hr : r ∈ (s.write row outcome).stored)) fun r =>
    ?_
  have hrest : (s.writeUpdate row rest outcome).phase.rows = rest := by
    cases rest <;> rfl
  have hheld : (s.writeUpdate row rest outcome).Held r ↔ r = row ∨ s.Held r := held_write
  rw [unstored_iff, hrest, hheld, unstored_iff, hphase, ← or_assoc]
  exact or_congr_left (or_comm.trans List.mem_cons.symm)

theorem moves_commitTable {table : Table} {rest tables : List Table} {period ok : Bool}
    (hphase : s.phase = .committing tables) :
    s.Moves (s.commitTable table rest period ok) := by
  have hnone : s.phase.rows = [] := by rw [hphase]; rfl
  have hnext : (WorkerPhase.commit rest).rows = [] := by cases rest <;> rfl
  unfold commitTable
  split_ifs
  · exact moves_insert hnone hnext
  · exact moves_of_held hnone rfl (fun _ => held_abort) rfl rfl rfl
  · exact moves_of_held hnone hnext (fun _ => Iff.rfl) rfl rfl rfl

theorem moves_endTable {table : Table} {rest tables : List Table} {ok : Bool} (hphase : s.phase = .ending tables) :
    s.Moves (s.endTable table rest ok) := by
  have hnone : s.phase.rows = [] := by rw [hphase]; rfl
  have hnext : (WorkerPhase.finish rest).rows = [] := by cases rest <;> rfl
  rw [endTable]
  split_ifs
  · exact moves_insert hnone hnext
  · exact moves_of_held hnone rfl (fun _ => held_dropWriter) rfl rfl rfl

/-! ### Runs -/

theorem step_cases {action : WorkerAction} (h : s.step topic action = some t) :
    s.Moves t ∨ (∃ partition, action = .next partition ∧ s.phase = .polling ∧ t = s.deliver topic partition) ∨
      (∃ partition, action = .autoCommit partition ∧
        t = { s with committed := Function.update s.committed partition (s.handed partition) }) ∨
      (action = .restart ∧ t = s.restart) := by
  cases action with
  | next partition =>
    simp only [step] at h
    split_ifs at h with hphase
    exact .inr (.inl ⟨partition, rfl, hphase, (Option.some.inj h).symm⟩)
  | write outcome =>
    simp only [step] at h
    split at h
    · next hphase => exact .inl (Option.some.inj h ▸ moves_writeRow hphase)
    · next hphase => exact .inl (Option.some.inj h ▸ moves_writeUpdate hphase)
    · cases h
  | forward responses =>
    simp only [step] at h
    split at h
    · next partition offset envelope hphase =>
      refine .inl (Option.some.inj h ▸ moves_phase (by rw [hphase]; rfl) fun r hr => ?_)
      split_ifs at hr
      · exact absurd hr List.not_mem_nil
      · exact update_of_mem hr
    · cases h
  | commit period ok =>
    simp only [step] at h
    split at h
    · next hphase => exact .inl (Option.some.inj h ▸ moves_commitTable hphase)
    · cases h
  | streamEnd =>
    simp only [step] at h
    split_ifs at h with hphase
    exact .inl (Option.some.inj h ▸ moves_of_held (by rw [hphase]; rfl) rfl (fun _ => held_dropWriter) rfl rfl rfl)
  | shutdown =>
    simp only [step] at h
    split_ifs at h with hphase
    exact .inl (Option.some.inj h ▸ moves_of_held (by rw [hphase]; rfl) rfl (fun _ => Iff.rfl) rfl rfl rfl)
  | finish ok =>
    simp only [step] at h
    split at h
    · next hphase => exact .inl (Option.some.inj h ▸ moves_endTable hphase)
    · cases h
  | autoCommit partition => exact .inr (.inr (.inl ⟨partition, rfl, (Option.some.inj h).symm⟩))
  | restart => exact .inr (.inr (.inr ⟨rfl, (Option.some.inj h).symm⟩))

theorem mem_messageRows {partition offset : Nat} {row : Row} :
    row ∈ messageRows partition offset ↔ row.partition = partition ∧ row.offset = offset ∧ row.update = false := by
  obtain ⟨p, o, table, update⟩ := row
  cases table <;> simp [messageRows]

theorem tracked_deliver {partition : Nat} (h : Tracked topic s) (hphase : s.phase = .polling) :
    Tracked topic (s.deliver topic partition) := by
  have hnone : s.phase.rows = [] := by rw [hphase]; rfl
  have hrows : (s.deliver topic partition).phase.rows =
      if (topic.envelope partition (s.handed partition)).isSome = true then messageRows partition (s.handed partition)
      else [] := by
    rw [deliver, A2aTopic.envelope]
    dsimp only
    cases topic.payload partition (s.handed partition) with
    | none => rfl
    | some payload =>
      dsimp only [Option.bind_some]
      split <;> simp_all [WorkerPhase.rows]
  have hhanded : ∀ p, (s.deliver topic partition).handed p =
      if p = partition then s.handed partition + 1 else s.handed p := fun p => Function.update_apply ..
  refine ⟨fun p offset hoffset hparsed row hrow => ?_, fun row hrow hupdate => ?_, fun p => ?_⟩
  · have hold : offset < s.handed p → row ∈ s.stored ∨ (s.deliver topic partition).Unstored row := fun hlt =>
      (h.rows p offset hlt hparsed row hrow).imp_right fun hrow => .inr ((unstored_of_none hnone).mp hrow)
    rw [hhanded] at hoffset
    split_ifs at hoffset with hp
    · subst hp
      rcases Nat.lt_succ_iff_lt_or_eq.mp hoffset with hlt | rfl
      · exact hold hlt
      · refine .inr (.inl ?_)
        rwa [hrows, if_pos hparsed]
    · exact hold hoffset
  · rcases hrow with hrow | hrow
    · rw [hrows] at hrow
      split_ifs at hrow with hparsed
      · obtain ⟨rfl, hoffset, -⟩ := mem_messageRows.mp hrow
        rw [hoffset]
        exact ⟨hparsed, hrow⟩
      · exact absurd hrow List.not_mem_nil
    · exact h.parsed row (.inr hrow) hupdate
  · rw [hhanded]
    split_ifs with hp
    · exact hp ▸ Nat.le_succ_of_le (h.behind _)
    · exact h.behind p

theorem unstored_restart {row : Row} : s.restart.Unstored row ↔ s.Unstored row := by
  have hheld : s.dropWriter.Held row ↔ s.Held row := held_dropWriter
  refine (or_iff_right List.not_mem_nil).trans ((or_congr_right List.mem_append).trans ?_)
  rw [unstored_iff, ← hheld, ← or_assoc, or_comm]
  rfl

theorem tracked_step {action : WorkerAction} (h : Tracked topic s) (hstep : s.step topic action = some t) :
    Tracked topic t := by
  rcases step_cases hstep with hmoves | ⟨partition, -, hphase, rfl⟩ | ⟨partition, -, rfl⟩ | ⟨-, rfl⟩
  · exact hmoves.tracked h
  · exact tracked_deliver h hphase
  · refine ⟨h.rows, h.parsed, fun p => ?_⟩
    dsimp only
    rw [Function.update_apply]
    split_ifs with hp
    · exact hp ▸ le_rfl
    · exact h.behind p
  · refine ⟨fun p offset hoffset hparsed row hrow => ?_, fun row hrow => h.parsed row (unstored_restart.mp hrow),
      fun _ => le_rfl⟩
    have hlt : offset < s.handed p := Nat.lt_of_lt_of_le hoffset (h.behind p)
    exact (h.rows p offset hlt hparsed row hrow).imp_right unstored_restart.mpr

theorem nothingLost_autoCommit {partition : Nat} (h : Tracked topic s) (hs : NothingLost topic s) :
    NothingLost topic { s with committed := Function.update s.committed partition (s.handed partition) } ↔
      s.Settled (.autoCommit partition) := by
  have hcommitted : ∀ p, Function.update s.committed partition (s.handed partition) p =
      if p = partition then s.handed partition else s.committed p := fun p => Function.update_apply ..
  constructor
  · intro hnew row hrow hupdate hpartition hoffset
    obtain ⟨hparsed, hmem⟩ := h.parsed row hrow hupdate
    refine hnew row.partition row.offset ?_ hparsed row hmem
    dsimp only
    rwa [hcommitted, if_pos hpartition]
  · intro hsettled p offset hoffset hparsed row hrow
    dsimp only at hoffset
    rw [hcommitted] at hoffset
    split_ifs at hoffset with hp
    · subst hp
      obtain ⟨hpartition, hrowOffset, hupdate⟩ := mem_messageRows.mp hrow
      refine (h.rows p offset hoffset hparsed row hrow).elim id fun hrow => ?_
      exact hsettled row hrow hupdate hpartition (hrowOffset ▸ hoffset)
    · exact hs p offset hoffset hparsed row hrow

theorem nothingLost_step {action : WorkerAction} (h : Tracked topic s) (hs : NothingLost topic s)
    (hstep : s.step topic action = some t) : NothingLost topic t ↔ s.Settled action := by
  by_cases haction : ∃ partition, action = .autoCommit partition
  · obtain ⟨partition, rfl⟩ := haction
    exact Option.some.inj hstep ▸ nothingLost_autoCommit h hs
  · refine iff_of_true ?_ ?_
    · rcases step_cases hstep with hmoves | ⟨partition, -, -, rfl⟩ | ⟨partition, hcommit, -⟩ | ⟨-, rfl⟩
      · exact hmoves.nothingLost hs
      · exact hs
      · exact absurd ⟨partition, hcommit⟩ haction
      · exact hs
    · cases action with
      | autoCommit partition => exact absurd ⟨partition, rfl⟩ haction
      | _ => trivial

theorem tracked_start : Tracked topic {} :=
  ⟨fun _ _ hoffset => absurd hoffset (Nat.not_lt_zero _), fun row hrow => by
    rcases hrow with hrow | ⟨_, hrow⟩ | hrow <;> exact absurd hrow List.not_mem_nil, fun _ => le_rfl⟩

/-- No message is lost in a run exactly if every commit of a partition finds the rows of its messages stored, those in
    the inserters, those still to be written and those lost in a failure. -/
theorem offsets_safe (topic : A2aTopic) (run : List WorkerAction) :
    Always (step topic) (NothingLost topic) {} run ↔ Meets (step topic) Settled {} run :=
  always_iff_meets_of_inv (fun _ _ _ => tracked_step) (fun _ _ _ => nothingLost_step) tracked_start
    fun _ _ hoffset => absurd hoffset (Nat.not_lt_zero _)

/-- The offset of a message is committed while its rows are in the inserters, and where its first row was not
    written. -/
theorem not_offsets_safe :
    ¬Always (step ⟨fun _ _ => some "m", fun _ => some ⟨0, "tasks/cancel"⟩⟩)
      (NothingLost ⟨fun _ _ => some "m", fun _ => some ⟨0, "tasks/cancel"⟩⟩) {}
      [.next 0, .write .written, .write .written, .write .written, .forward 0, .commit false true, .commit false true,
        .commit false true, .autoCommit 0] ∧
    ¬Always (step ⟨fun _ _ => some "m", fun _ => some ⟨0, "tasks/cancel"⟩⟩)
      (NothingLost ⟨fun _ _ => some "m", fun _ => some ⟨0, "tasks/cancel"⟩⟩) {}
      [.next 0, .write .rejected, .commit true true, .commit true true, .commit true true, .autoCommit 0] := by
  constructor <;>
  · intro h
    have hmem := h.of_exec rfl 0 0 Nat.one_pos rfl ⟨0, 0, .tasks, false⟩ List.mem_cons_self
    exact absurd hmem List.not_mem_nil

end MessageWorker
end Reiver.Herd
