import Reiver.Core.Billing.MeterService
import Reiver.Lib.Dict

/-! # What becomes of accepted events

An event has no record while it is in the channel, and a failed attempt for each of its retries while it is pending
(`Sound`). A flush adds one record to each pending event (`records_flushPending`). -/

namespace Reiver.Core
namespace MeterService

variable {s s' t : MeterService}

structure Sound (s : MeterService) : Prop where
  nodup : s.live.Nodup
  old : ∀ id ∈ s.live, id < s.accepted
  unseen : ∀ id, id ∈ s.queue.map (·.id) ∨ s.accepted ≤ id → s.records id = []
  tried : ∀ event ∈ s.pending, event.retries ≤ maxRetriesPerEvent ∧ (s.records event.id).length = event.retries ∧
    ∀ r ∈ s.records event.id, r.isFailure = true
  once : ∀ id, (s.records id).countP (·.isSent) ≤ 1
  bounded : ∀ id, (s.records id).countP (·.isFailure) ≤ maxRetriesPerEvent + 1

/-! ### Records -/

theorem others_of_isFailure {r : FlushRecord} (h : r.isFailure = true) :
    r.isSent = false ∧ r.isUnbillable = false := by
  cases r with
  | attempt id request sent =>
    cases sent with
    | false => exact ⟨rfl, rfl⟩
    | true => cases h
  | dropped id customer => cases h

theorem settled_append {records : List FlushRecord} {r : FlushRecord} {n : Nat} (hlength : records.length = n)
    (hfailed : ∀ x ∈ records, x.isFailure = true) (hn : n ≤ maxRetriesPerEvent) :
    Settled (records ++ [r]) ↔
      r.isSent = true ∨ (r.isFailure = true ∧ maxRetriesPerEvent ≤ n) ∨ r.isUnbillable = true := by
  have hsent : records.any (·.isSent) = false := List.any_eq_false.mpr fun x hx => by
    rw [(others_of_isFailure (hfailed x hx)).1]
    exact Bool.false_ne_true
  have hunbillable : records.any (·.isUnbillable) = false := List.any_eq_false.mpr fun x hx => by
    rw [(others_of_isFailure (hfailed x hx)).2]
    exact Bool.false_ne_true
  have hcount : records.countP (·.isFailure) = n := hlength ▸ List.countP_eq_length.mpr hfailed
  rw [Settled, List.any_append, List.any_append, List.countP_append, hsent, hunbillable, hcount]
  refine or_congr (by simp) (or_congr ?_ (by simp))
  cases hr : r.isFailure with
  | false =>
    simp [hr]
    omega
  | true => simp [hr]

theorem not_settled {records : List FlushRecord} {n : Nat} (hlength : records.length = n)
    (hfailed : ∀ x ∈ records, x.isFailure = true) (hn : n ≤ maxRetriesPerEvent) : ¬Settled records := by
  have hcount : records.countP (·.isFailure) = n := hlength ▸ List.countP_eq_length.mpr hfailed
  rintro (hsent | hfailures | hunbillable)
  · obtain ⟨x, hx, hsent⟩ := List.any_eq_true.mp hsent
    rw [(others_of_isFailure (hfailed x hx)).1] at hsent
    cases hsent
  · omega
  · obtain ⟨x, hx, hunbillable⟩ := List.any_eq_true.mp hunbillable
    rw [(others_of_isFailure (hfailed x hx)).2] at hunbillable
    cases hunbillable

theorem Sound.stops (h : s.Sound) : ∀ id ∈ s.live, ¬Settled (s.records id) := by
  intro id hid
  rcases List.mem_append.mp hid with hqueue | hpending
  · rw [h.unseen id (.inl hqueue)]
    exact not_settled rfl (fun _ hx => by cases hx) (Nat.zero_le _)
  · obtain ⟨event, hevent, rfl⟩ := List.mem_map.mp hpending
    obtain ⟨hretries, hlength, hfailed⟩ := h.tried event hevent
    exact not_settled hlength hfailed hretries

theorem Sound.delivered_iff (h : s.Sound) :
    s.Delivered ↔ ∀ id < s.accepted, id ∈ s.live ∨ Settled (s.records id) :=
  ⟨Delivered.kept, fun hkept => ⟨hkept, h.stops, h.once, h.bounded⟩⟩

/-! ### A flush -/

section Flush
variable {sent : Nat → Bool}

theorem flushEvent_id {ok : Bool} {event : PendingFlush} : (s.flushEvent ok event).1.id = event.id := by
  rw [flushEvent]
  split <;> rfl

theorem flushEvent_retry {ok : Bool} {event retry : PendingFlush} (h : (s.flushEvent ok event).2 = some retry) :
    retry.id = event.id ∧ retry.retries = event.retries + 1 ∧ event.retries < maxRetriesPerEvent ∧
      (s.flushEvent ok event).1.isFailure = true := by
  rw [flushEvent] at h ⊢
  split at h
  · cases h
  · next hcached =>
    dsimp only at h
    split_ifs at h with hends
    obtain ⟨hsent, hretries⟩ := not_or.mp (Bool.or_eq_true _ _ ▸ hends)
    cases h
    refine ⟨rfl, rfl, by simpa using hretries, ?_⟩
    simpa [FlushRecord.isFailure] using hsent

theorem zipIdx_ids {pending : List PendingFlush} : pending.zipIdx.map (·.1.id) = pending.map (·.id) := by
  have hids : (pending.zipIdx.map Prod.fst).map (·.id) = pending.zipIdx.map (·.1.id) := List.map_map
  rw [← hids, List.zipIdx_map_fst]

theorem records_flushPending_of_mem (h : (s.pending.map (·.id)).Nodup) {e : PendingFlush × Nat}
    (he : e ∈ s.pending.zipIdx) :
    (s.flushPending sent).records e.1.id = s.records e.1.id ++ [(s.flushEvent (sent e.2) e.1).1] := by
  have hkey : ∀ (a : PendingFlush × Nat) b, some (s.flushEvent (sent a.2) a.1).1 = some b → b.id = a.1.id :=
    fun a b hb => Option.some.inj hb ▸ flushEvent_id
  rw [records, flushPending, List.filter_append, ← List.filterMap_eq_map]
  exact congrArg (s.records e.1.id ++ ·) (filter_filterMap_of_mem hkey (zipIdx_ids ▸ h) he)

theorem records_flushPending_of_notMem {id : Nat} (h : id ∉ s.pending.map (·.id)) :
    (s.flushPending sent).records id = s.records id := by
  have hkey : ∀ (a : PendingFlush × Nat) b, some (s.flushEvent (sent a.2) a.1).1 = some b → b.id = a.1.id :=
    fun a b hb => Option.some.inj hb ▸ flushEvent_id
  rw [records, flushPending, List.filter_append, ← List.filterMap_eq_map]
  exact (congrArg (s.records id ++ ·) (filter_filterMap_of_notMem hkey (zipIdx_ids ▸ h))).trans (List.append_nil _)

theorem exists_zipIdx {event : PendingFlush} (h : event ∈ s.pending) : ∃ e ∈ s.pending.zipIdx, e.1 = event :=
  List.mem_map.mp ((List.zipIdx_map_fst 0 s.pending).symm ▸ h)

theorem mem_of_zipIdx {e : PendingFlush × Nat} (h : e ∈ s.pending.zipIdx) : e.1 ∈ s.pending :=
  List.zipIdx_map_fst 0 s.pending ▸ List.mem_map_of_mem h

theorem mem_retry_iff (h : (s.pending.map (·.id)).Nodup) {e : PendingFlush × Nat} (he : e ∈ s.pending.zipIdx) :
    e.1.id ∈ (s.flushPending sent).pending.map (·.id) ↔ (s.flushEvent (sent e.2) e.1).2.isSome = true := by
  have hkey : ∀ (a : PendingFlush × Nat) b, (s.flushEvent (sent a.2) a.1).2 = some b → b.id = a.1.id :=
    fun a b hb => (flushEvent_retry hb).1
  have hfilter := filter_filterMap_of_mem hkey (zipIdx_ids ▸ h) he
  constructor
  · intro hmem
    obtain ⟨retry, hretry, hid⟩ := List.mem_map.mp hmem
    have hmem : retry ∈ (s.flushEvent (sent e.2) e.1).2.toList :=
      hfilter ▸ List.mem_filter.mpr ⟨hretry, decide_eq_true hid⟩
    exact Option.isSome_of_mem (Option.mem_toList.mp hmem)
  · intro hsome
    obtain ⟨retry, hretry⟩ := Option.isSome_iff_exists.mp hsome
    exact (flushEvent_retry hretry).1 ▸ List.mem_map_of_mem (List.mem_filterMap.mpr ⟨e, he, hretry⟩)

theorem settled_flush_iff (h : s.Sound) {e : PendingFlush × Nat} (he : e ∈ s.pending.zipIdx) :
    Settled ((s.flushPending sent).records e.1.id) ↔
      if (s.customerCache.lookup e.1.organizationId).isSome = true then
        sent e.2 = true ∨ maxRetriesPerEvent ≤ e.1.retries
      else s.stripeCustomers e.1.organizationId = none := by
  obtain ⟨hretries, hlength, hfailed⟩ := h.tried e.1 (mem_of_zipIdx he)
  rw [records_flushPending_of_mem (List.nodup_append.mp h.nodup).2.1 he, settled_append hlength hfailed hretries,
    flushEvent]
  cases s.customerCache.lookup e.1.organizationId with
  | none => simp [FlushRecord.isSent, FlushRecord.isFailure, FlushRecord.isUnbillable]
  | some stripeCustomerId =>
    cases hsent : sent e.2 with
    | false => simp [FlushRecord.isSent, FlushRecord.isFailure, FlushRecord.isUnbillable]
    | true => simp [FlushRecord.isSent]

theorem retried_iff {e : PendingFlush × Nat} : (s.flushEvent (sent e.2) e.1).2.isSome = true ↔
    (s.customerCache.lookup e.1.organizationId).isSome = true ∧
      ¬(sent e.2 = true ∨ maxRetriesPerEvent ≤ e.1.retries) := by
  rw [flushEvent]
  cases s.customerCache.lookup e.1.organizationId with
  | none => simp
  | some stripeCustomerId =>
    cases sent e.2 with
    | false => simp
    | true => simp

theorem sound_flushPending (h : s.Sound) : (s.flushPending sent).Sound := by
  have hnodup := List.nodup_append.mp h.nodup
  have hretries : ((s.flushPending sent).pending.map (·.id)).Sublist (s.pending.map (·.id)) := by
    have h : ((s.flushPending sent).pending.map (·.id)).Sublist (s.pending.zipIdx.map (·.1.id)) :=
      map_filterMap_sublist fun _ _ hb => (flushEvent_retry hb).1
    rwa [zipIdx_ids] at h
  have hlive : (s.flushPending sent).live.Sublist s.live := hretries.append_left _
  have hadded : ∀ (p : FlushRecord → Bool) (n : Nat), (∀ id, (s.records id).countP p ≤ n) →
      (∀ event ∈ s.pending, (s.records event.id).countP p < n) →
      ∀ id, ((s.flushPending sent).records id).countP p ≤ n := by
    intro p n hold hpending id
    by_cases hid : id ∈ s.pending.map (·.id)
    · obtain ⟨event, hevent, rfl⟩ := List.mem_map.mp hid
      obtain ⟨e, he, rfl⟩ := exists_zipIdx hevent
      rw [records_flushPending_of_mem hnodup.2.1 he, List.countP_append]
      have hone := List.countP_le_length (p := p) (l := [(s.flushEvent (sent e.2) e.1).1])
      have hlt := hpending e.1 hevent
      rw [List.length_singleton] at hone
      omega
    · rw [records_flushPending_of_notMem hid]
      exact hold id
  refine ⟨hlive.nodup h.nodup, fun id hid => h.old id (hlive.subset hid), fun id hid => ?_, fun retry hretry => ?_,
    hadded _ _ h.once fun event hevent => ?_, hadded _ _ h.bounded fun event hevent => ?_⟩
  · rw [records_flushPending_of_notMem]
    · exact h.unseen id hid
    · intro hpending
      rcases hid with hqueue | hnew
      · exact hnodup.2.2 id hqueue id hpending rfl
      · exact Nat.not_lt.mpr hnew (h.old id (List.mem_append_right _ hpending))
  · obtain ⟨e, he, hleft⟩ := List.mem_filterMap.mp hretry
    obtain ⟨hid, hcount, hlt, hfailure⟩ := flushEvent_retry hleft
    obtain ⟨-, hlength, hfailed⟩ := h.tried e.1 (mem_of_zipIdx he)
    rw [hid, hcount, records_flushPending_of_mem hnodup.2.1 he]
    refine ⟨hlt, ?_, fun r hr => ?_⟩
    · rw [List.length_append, hlength]
      rfl
    · rcases List.mem_append.mp hr with hr | hr
      · exact hfailed r hr
      · exact List.mem_singleton.mp hr ▸ hfailure
  · obtain ⟨-, -, hfailed⟩ := h.tried event hevent
    rw [List.countP_eq_zero.mpr fun r hr => by rw [(others_of_isFailure (hfailed r hr)).1]; exact Bool.false_ne_true]
    exact Nat.one_pos
  · obtain ⟨hle, hlength, -⟩ := h.tried event hevent
    exact Nat.lt_succ_of_le ((List.countP_le_length.trans hlength.le).trans hle)

theorem kept_flushPending (h : s.Sound) (hkept : ∀ id < s.accepted, id ∈ s.live ∨ Settled (s.records id)) :
    (∀ id < s.accepted, id ∈ (s.flushPending sent).live ∨ Settled ((s.flushPending sent).records id)) ↔
      ∀ event ∈ s.pending, s.Billed event := by
  have hnodup := List.nodup_append.mp h.nodup
  have hevent : ∀ e ∈ s.pending.zipIdx,
      (e.1.id ∈ (s.flushPending sent).live ∨ Settled ((s.flushPending sent).records e.1.id)) ↔ s.Billed e.1 := by
    intro e he
    have hqueue : e.1.id ∉ s.queue.map (·.id) := fun hqueue =>
      hnodup.2.2 _ hqueue _ (List.mem_map_of_mem (mem_of_zipIdx he)) rfl
    have hlive : e.1.id ∈ (s.flushPending sent).live ↔ (s.flushEvent (sent e.2) e.1).2.isSome = true := by
      rw [← mem_retry_iff hnodup.2.1 he, live, List.mem_append]
      exact or_iff_right hqueue
    rw [hlive, settled_flush_iff h he, retried_iff, Billed]
    by_cases hcached : (s.customerCache.lookup e.1.organizationId).isSome = true
    · rw [if_pos hcached, and_iff_right hcached]
      exact iff_of_true (Classical.em _).symm (.inl hcached)
    · rw [if_neg hcached, or_iff_right fun hretry => hcached hretry.1, or_iff_right hcached]
  constructor
  · intro hall event hmem
    obtain ⟨e, he, rfl⟩ := exists_zipIdx hmem
    exact (hevent e he).mp (hall e.1.id (h.old _ (List.mem_append_right _ (List.mem_map_of_mem hmem))))
  · intro hbilled id hid
    by_cases hpending : id ∈ s.pending.map (·.id)
    · obtain ⟨event, hmem, rfl⟩ := List.mem_map.mp hpending
      obtain ⟨e, he, rfl⟩ := exists_zipIdx hmem
      exact (hevent e he).mpr (hbilled e.1 hmem)
    · rw [records_flushPending_of_notMem hpending]
      exact (hkept id hid).imp_left fun hlive =>
        List.mem_append_left _ ((List.mem_append.mp hlive).resolve_right hpending)

theorem kept_close (h : s.Sound) (hqueue : s.queue = [])
    (hkept : ∀ id < s.accepted, id ∈ s.live ∨ Settled (s.records id)) :
    (∀ id < s.accepted, Settled ((s.flushPending sent).records id)) ↔ s.Reaches (.close sent) := by
  have hnodup := List.nodup_append.mp h.nodup
  have hevent : ∀ e ∈ s.pending.zipIdx, Settled ((s.flushPending sent).records e.1.id) ↔
      s.Billed e.1 ∧ ((s.customerCache.lookup e.1.organizationId).isSome = true →
        sent e.2 = true ∨ maxRetriesPerEvent ≤ e.1.retries) := by
    intro e he
    rw [settled_flush_iff h he, Billed]
    by_cases hcached : (s.customerCache.lookup e.1.organizationId).isSome = true
    · rw [if_pos hcached]
      exact ⟨fun hends => ⟨.inl hcached, fun _ => hends⟩, fun hends => hends.2 hcached⟩
    · rw [if_neg hcached, or_iff_right hcached]
      exact ⟨fun hnone => ⟨hnone, fun h => absurd h hcached⟩, And.left⟩
  constructor
  · intro hall e he
    refine (hevent e he).mp (hall e.1.id (h.old _ (List.mem_append_right _ ?_)))
    exact List.mem_map_of_mem (mem_of_zipIdx he)
  · intro hreaches id hid
    by_cases hpending : id ∈ s.pending.map (·.id)
    · obtain ⟨event, hmem, rfl⟩ := List.mem_map.mp hpending
      obtain ⟨e, he, rfl⟩ := exists_zipIdx hmem
      exact (hevent e he).mpr (hreaches e he)
    · rw [records_flushPending_of_notMem hpending]
      refine (hkept id hid).resolve_left fun hlive => hpending ((List.mem_append.mp hlive).resolve_left ?_)
      rw [hqueue]
      exact List.not_mem_nil

end Flush

/-! ### The other steps -/

/-- What the loop does besides leaves the events where they are. -/
structure SameEvents (s t : MeterService) : Prop where
  queue : t.queue = s.queue
  pending : t.pending = s.pending
  accepted : t.accepted = s.accepted
  log : t.log = s.log

theorem SameEvents.sound (hsame : SameEvents s t) (h : s.Sound) : t.Sound := by
  obtain ⟨hqueue, hpending, haccepted, hlog⟩ := hsame
  cases s
  cases t
  cases hqueue
  cases hpending
  cases haccepted
  cases hlog
  exact ⟨h.nodup, h.old, h.unseen, h.tried, h.once, h.bounded⟩

theorem SameEvents.kept (hsame : SameEvents s t) (hkept : ∀ id < s.accepted, id ∈ s.live ∨ Settled (s.records id)) :
    ∀ id < t.accepted, id ∈ t.live ∨ Settled (t.records id) := by
  intro id hid
  rw [live, records, hsame.queue, hsame.pending, hsame.log]
  exact hkept id (hsame.accepted ▸ hid)

theorem sameEvents_countFlush : SameEvents s s.countFlush := by
  rw [countFlush]
  split_ifs <;> exact ⟨rfl, rfl, rfl, rfl⟩

section SendEvent
variable {meter : MeterName} {organizationId : Uuid} {value : Int} {key : String}

theorem live_sendEvent (h : ¬(value ≤ 0 ∨ channelCapacity ≤ s.queue.length)) :
    (s.sendEvent meter organizationId value key).live.Perm (s.accepted :: s.live) := by
  rw [sendEvent, if_neg h, live, live]
  dsimp only
  rw [List.map_append, List.append_assoc]
  exact List.perm_middle

theorem sound_sendEvent (h : s.Sound) : (s.sendEvent meter organizationId value key).Sound := by
  by_cases hrefused : value ≤ 0 ∨ channelCapacity ≤ s.queue.length
  · rwa [sendEvent, if_pos hrefused]
  have hlive : (s.sendEvent meter organizationId value key).live.Perm (s.accepted :: s.live) := live_sendEvent hrefused
  have hnew : s.accepted ∉ s.live := fun hmem => Nat.lt_irrefl _ (h.old _ hmem)
  have hnodup := hlive.nodup_iff.mpr (List.nodup_cons.mpr ⟨hnew, h.nodup⟩)
  have hold : ∀ id ∈ (s.sendEvent meter organizationId value key).live, id < s.accepted + 1 := by
    intro id hid
    rcases List.mem_cons.mp (hlive.mem_iff.mp hid) with rfl | hid
    · exact Nat.lt_succ_self _
    · exact Nat.lt_succ_of_lt (h.old id hid)
  rw [sendEvent, if_neg hrefused] at hnodup hold ⊢
  refine ⟨hnodup, hold, fun id hid => h.unseen id ?_, h.tried, h.once, h.bounded⟩
  rcases hid with hqueue | hid
  · rw [List.map_append, List.mem_append] at hqueue
    exact hqueue.imp_right fun hid => (List.mem_singleton.mp hid).ge
  · exact .inr (Nat.le_of_succ_le hid)

theorem kept_sendEvent (hkept : ∀ id < s.accepted, id ∈ s.live ∨ Settled (s.records id)) :
    ∀ id < (s.sendEvent meter organizationId value key).accepted,
      id ∈ (s.sendEvent meter organizationId value key).live ∨
        Settled ((s.sendEvent meter organizationId value key).records id) := by
  by_cases hrefused : value ≤ 0 ∨ channelCapacity ≤ s.queue.length
  · rwa [sendEvent, if_pos hrefused]
  intro id hid
  rw [(live_sendEvent hrefused).mem_iff]
  rw [sendEvent, if_neg hrefused] at hid ⊢
  rcases Nat.lt_succ_iff_lt_or_eq.mp hid with hold | rfl
  · exact (hkept id hold).imp_left (List.mem_cons_of_mem _)
  · exact .inl List.mem_cons_self

end SendEvent

theorem live_push {event : UsageEvent} {queue : List UsageEvent} (hqueue : s.queue = event :: queue) :
    (s.push event queue).live.Perm s.live := by
  rw [live, live, push, hqueue]
  dsimp only
  rw [List.map_append, List.map_cons, ← List.append_assoc]
  exact List.perm_append_singleton _ _

theorem sound_push {event : UsageEvent} {queue : List UsageEvent} (hqueue : s.queue = event :: queue) (h : s.Sound) :
    (s.push event queue).Sound := by
  have hlive := live_push hqueue
  have hrecords : s.records event.id = [] := h.unseen _ (.inl (hqueue ▸ List.mem_map_of_mem List.mem_cons_self))
  refine ⟨hlive.nodup_iff.mpr h.nodup, fun id hid => h.old id (hlive.mem_iff.mp hid),
    fun id hid => h.unseen id (hid.imp_left fun hmem => ?_), fun e he => ?_, h.once, h.bounded⟩
  · rw [hqueue]
    exact List.mem_cons_of_mem _ hmem
  · rcases List.mem_append.mp he with he | he
    · exact h.tried e he
    · cases List.mem_singleton.mp he
      have hnone : (s.push event queue).records event.id = [] := hrecords
      refine ⟨Nat.zero_le _, ?_, fun r hr => ?_⟩
      · exact congrArg List.length hnone
      · exact absurd (hnone ▸ hr) List.not_mem_nil

theorem kept_push {event : UsageEvent} {queue : List UsageEvent} (hqueue : s.queue = event :: queue)
    (hkept : ∀ id < s.accepted, id ∈ s.live ∨ Settled (s.records id)) :
    ∀ id < s.accepted, id ∈ (s.push event queue).live ∨ Settled ((s.push event queue).records id) :=
  fun id hid => (hkept id hid).imp_left (live_push hqueue).mem_iff.mpr

/-! ### Runs -/

/-- A step sends an event, moves one into `pending`, leaves the events, flushes, or ends the loop. -/
theorem step_cases {action : MeterAction} (h : s.step action = some t) :
    (∃ meter organizationId value key, action = .sendEvent meter organizationId value key ∧
      t = s.sendEvent meter organizationId value key) ∨
    (∃ event queue, s.queue = event :: queue ∧ t = s.push event queue ∧ (action = .receive ∨ action = .tryReceive)) ∨
    (SameEvents s t ∧ ∀ sent, action ≠ .flush sent ∧ action ≠ .close sent) ∨
    (∃ sent, action = .flush sent ∧ t = (s.flushPending sent).countFlush) ∨
    (∃ sent, action = .close sent ∧ s.queue = [] ∧
      t = { s.flushPending sent with pending := [], phase := .finished }) := by
  have hnot : ∀ a : MeterAction, (∀ sent, a ≠ .flush sent) → (∀ sent, a ≠ .close sent) →
      ∀ sent, a ≠ .flush sent ∧ a ≠ .close sent := fun _ hflush hclose sent => ⟨hflush sent, hclose sent⟩
  cases action with
  | sendEvent meter organizationId value key =>
    simp only [step] at h
    split_ifs at h with hsenders
    exact .inl ⟨meter, organizationId, value, key, rfl, (Option.some.inj h).symm⟩
  | dropSenders =>
    cases h
    exact .inr (.inr (.inl ⟨⟨rfl, rfl, rfl, rfl⟩, hnot _ (by simp) (by simp)⟩))
  | setCustomer organizationId customer =>
    cases h
    exact .inr (.inr (.inl ⟨⟨rfl, rfl, rfl, rfl⟩, hnot _ (by simp) (by simp)⟩))
  | receive =>
    simp only [step] at h
    split at h
    · next hphase hqueue => exact .inr (.inl ⟨_, _, hqueue, (Option.some.inj h).symm, .inl rfl⟩)
    · cases h
  | timeout =>
    simp only [step] at h
    split at h
    · split_ifs at h with hsenders
      cases h
      exact .inr (.inr (.inl ⟨⟨rfl, rfl, rfl, rfl⟩, hnot _ (by simp) (by simp)⟩))
    · cases h
  | tryReceive =>
    simp only [step] at h
    split at h
    · next hphase hqueue => exact .inr (.inl ⟨_, _, hqueue, (Option.some.inj h).symm, .inr rfl⟩)
    · cases h
      exact .inr (.inr (.inl ⟨⟨rfl, rfl, rfl, rfl⟩, hnot _ (by simp) (by simp)⟩))
    · cases h
  | resolve found =>
    simp only [step] at h
    split_ifs at h with hphase
    cases h
    exact .inr (.inr (.inl ⟨⟨rfl, rfl, rfl, rfl⟩, hnot _ (by simp) (by simp)⟩))
  | flush sent =>
    simp only [step] at h
    split_ifs at h with hphase
    exact .inr (.inr (.inr (.inl ⟨sent, rfl, (Option.some.inj h).symm⟩)))
  | close sent =>
    simp only [step] at h
    split at h
    · next hphase hqueue =>
      split_ifs at h with hsenders
      exact .inr (.inr (.inr (.inr ⟨sent, rfl, hqueue, (Option.some.inj h).symm⟩)))
    · cases h

theorem sound_close {sent : Nat → Bool} (h : s.Sound) :
    ({ s.flushPending sent with pending := [], phase := .finished } : MeterService).Sound := by
  have hflushed : (s.flushPending sent).Sound := sound_flushPending h
  have hlive : ({ s.flushPending sent with pending := [], phase := .finished } : MeterService).live.Sublist
      (s.flushPending sent).live := (List.nil_sublist _).append_left _
  exact ⟨hlive.nodup hflushed.nodup, fun id hid => hflushed.old id (hlive.subset hid), hflushed.unseen,
    fun _ he => absurd he List.not_mem_nil, hflushed.once, hflushed.bounded⟩

theorem sound_step {action : MeterAction} (h : s.Sound) (hstep : s.step action = some t) : t.Sound := by
  rcases step_cases hstep with ⟨meter, organizationId, value, key, -, rfl⟩ | ⟨event, queue, hqueue, rfl, -⟩ |
    ⟨hsame, -⟩ | ⟨sent, -, rfl⟩ | ⟨sent, -, -, rfl⟩
  · exact sound_sendEvent h
  · exact sound_push hqueue h
  · exact hsame.sound h
  · exact sameEvents_countFlush.sound (sound_flushPending h)
  · exact sound_close h

theorem delivered_step {action : MeterAction} (h : s.Sound) (hdelivered : s.Delivered)
    (hstep : s.step action = some t) : t.Delivered ↔ s.Reaches action := by
  have hkept := hdelivered.kept
  rw [(sound_step h hstep).delivered_iff]
  rcases step_cases hstep with ⟨meter, organizationId, value, key, rfl, rfl⟩ | ⟨event, queue, hqueue, rfl, haction⟩ |
    ⟨hsame, haction⟩ | ⟨sent, rfl, rfl⟩ | ⟨sent, rfl, hqueue, rfl⟩
  · exact iff_of_true (kept_sendEvent hkept) trivial
  · refine iff_of_true (kept_push hqueue hkept) ?_
    rcases haction with rfl | rfl <;> trivial
  · refine iff_of_true (hsame.kept hkept) ?_
    cases action with
    | flush sent => exact absurd rfl (haction sent).1
    | close sent => exact absurd rfl (haction sent).2
    | _ => trivial
  · have hsame : SameEvents (s.flushPending sent) (s.flushPending sent).countFlush := sameEvents_countFlush
    have hback : SameEvents (s.flushPending sent).countFlush (s.flushPending sent) :=
      ⟨hsame.queue.symm, hsame.pending.symm, hsame.accepted.symm, hsame.log.symm⟩
    exact (Iff.intro hback.kept hsame.kept).trans (kept_flushPending h hkept)
  · rw [← kept_close h hqueue hkept]
    refine forall₂_congr fun id _ => or_iff_right ?_
    show id ∉ s.queue.map (·.id) ++ []
    rw [hqueue]
    exact List.not_mem_nil

theorem sound_start (customers : Uuid → Option String) : Sound { stripeCustomers := customers } :=
  ⟨List.nodup_nil, fun _ hid => absurd hid List.not_mem_nil, fun _ _ => rfl, fun _ he => absurd he List.not_mem_nil,
    fun _ => Nat.zero_le _, fun _ => Nat.zero_le _⟩

theorem delivered_start (customers : Uuid → Option String) : Delivered { stripeCustomers := customers } :=
  ⟨fun _ hid => absurd hid (Nat.not_lt_zero _), fun _ hid => absurd hid List.not_mem_nil,
    fun _ => Nat.zero_le _, fun _ => Nat.zero_le _⟩

/-- Accepted events are delivered throughout a run exactly if each flush finds the customers there are, and the end of
    the loop finds no event that would be tried again. -/
theorem accepted_delivered (customers : Uuid → Option String) (run : List MeterAction) :
    Always step Delivered { stripeCustomers := customers } run ↔
      Meets step Reaches { stripeCustomers := customers } run :=
  always_iff_meets_of_inv (fun _ _ _ => sound_step) (fun _ _ _ => delivered_step)
    (sound_start customers) (delivered_start customers)

/-- A database error at the look-up loses an event of a customer, and so does one failed attempt at the end. -/
theorem not_delivered :
    ¬Always step Delivered { stripeCustomers := fun _ => some "cus" }
      [.sendEvent .sessionScans 0 1 "key", .receive, .tryReceive, .resolve fun _ => false, .flush fun _ => true] ∧
    ¬Always step Delivered { stripeCustomers := fun _ => some "cus" }
      [.sendEvent .sessionScans 0 1 "key", .receive, .tryReceive, .resolve fun _ => true, .flush fun _ => false,
        .dropSenders, .close fun _ => false] := by
  constructor
  · intro h
    have hkept := (h.of_exec rfl).kept 0 (by decide)
    revert hkept
    decide
  · intro h
    have hkept := (h.of_exec rfl).kept 0 (by decide)
    revert hkept
    decide

end MeterService
end Reiver.Core
