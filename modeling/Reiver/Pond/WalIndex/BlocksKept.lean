import Reiver.Lib.Run
import Reiver.Pond.WalIndex.Blocks

/-! # Keys stay in their blocks

What a sequence of assignments and deletions keeps: every live key is found in the block that it was assigned to, also
after evictions from the cache, and the rows are counted right (`Consistent`). The code keeps this exactly in the runs
whose steps meet `Kept` (`assigned_consistent_iff`). -/

namespace Reiver.Pond
open PrimaryKey BlockManager

/-- A block manager with the live keys and the blocks that they were assigned to. -/
structure Assigned where
  manager : BlockManager
  live : List (PrimaryKey × BlockId)

namespace Assigned

def start : Assigned := ⟨.new, []⟩

def IsLive (s : Assigned) (pk : PrimaryKey) : Prop := pk ∈ s.live.map Prod.fst

instance (s : Assigned) (pk : PrimaryKey) : Decidable (s.IsLive pk) := inferInstanceAs (Decidable (_ ∈ _))

end Assigned

inductive BlockCall where
  | assign (pk : PrimaryKey)
  | delete (pk : PrimaryKey)
  /-- The cache drops an entry. -/
  | evict (text : String)

def blockStep (threshold : Nat) (s : Assigned) : BlockCall → Option Assigned
  | .assign pk =>
    let (assigned, manager) := s.manager.assignBlock threshold pk
    some ⟨manager, if s.IsLive pk then s.live else s.live ++ [(pk, assigned.1)]⟩
  | .delete pk => some ⟨(s.manager.handleDelete pk).2, s.live.filter (·.1 ≠ pk)⟩
  | .evict text => some { s with manager := s.manager.popPk text }

/-- Every live key is found in its block, whatever was evicted; assigning it again changes nothing; and the rows are
    the live keys. -/
structure Consistent (threshold : Nat) (s : Assigned) : Prop where
  found : ∀ e ∈ s.live, ∀ evicted : List String,
    ((evicted.foldl popPk s.manager).findBlockForPk e.1).1 = some e.2
  repeated : ∀ e ∈ s.live, (s.manager.assignBlock threshold e.1).1 = (e.2, false)
  counted : s.manager.totalRowCount = s.live.length

/-- Where the range index looks for a key that is not live: it must lead to the block that takes the key, without
    taking another live key from its block. -/
def Placed (threshold : Nat) (s : Assigned) (pk : PrimaryKey) : Prop :=
  match s.manager.receiver threshold with
  | some block =>
    (∃ e ∈ rangeEntry s.manager.blockRangeIndex pk, e.2 = block.id) ∧
      ∀ e ∈ s.live, e.1.toStringRepr = pk.toStringRepr → e.2 = block.id
  | none =>
    let start := (Block.newWithPk s.manager.nextBlockId pk).pkStartKey
    (start ≤ pk ∧ ∀ e ∈ rangeEntry s.manager.blockRangeIndex pk, e.1 ≤ start) ∧
      (∀ e ∈ s.live, start ≤ e.1 → ∃ e' ∈ rangeEntry s.manager.blockRangeIndex e.1, ¬e'.1 ≤ start) ∧
        ∀ e ∈ s.live, e.1.toStringRepr ≠ pk.toStringRepr

/-- When a call keeps every key in its block: a new key is not found yet and gets its place, and a key that is not live
    is not found in a block with rows when it is deleted. -/
def Kept (threshold : Nat) (s : Assigned) : BlockCall → Prop
  | .assign pk => s.IsLive pk ∨ (s.manager.findBlockForPk pk).1 = none ∧ Placed threshold s pk
  | .delete pk => s.IsLive pk ∨ ∀ id ∈ (s.manager.findBlockForPk pk).1, ∀ b ∈ s.manager.getBlock id, b.rowCount = 0
  | .evict _ => True

/-! ### What is kept along the way -/

/-- The live keys are found by the range index alone, the cache does not contradict it, and every block counts its live
    keys. -/
structure Tracked (s : Assigned) : Prop where
  wellformed : s.manager.Wellformed
  nodup : (s.live.map Prod.fst).Nodup
  cached : ∀ e ∈ s.live, ∀ id ∈ s.manager.pkToBlock.lookup e.1.toStringRepr, id = e.2
  ranged : ∀ e ∈ s.live, s.manager.rangeLookup e.1 = some e.2
  texts : ∀ e ∈ s.live, ∀ e' ∈ s.live, e.1.toStringRepr = e'.1.toStringRepr → e.2 = e'.2
  counted : ∀ b ∈ s.manager.blocks, b.rowCount = s.live.countP (·.2 = b.id)
  total : s.manager.totalRowCount = s.live.length

section Steps
variable {threshold : Nat} {s s' : Assigned} {m : BlockManager} {live : List (PrimaryKey × BlockId)} {pk : PrimaryKey}
  {id : BlockId}

theorem findBlockForPk_of_range (hrange : m.rangeLookup pk = some id)
    (hcached : ∀ id' ∈ m.pkToBlock.lookup pk.toStringRepr, id' = id) : (m.findBlockForPk pk).1 = some id := by
  rw [findBlockForPk]
  cases hcache : m.pkToBlock.lookup pk.toStringRepr with
  | some id' =>
    rw [hcached id' hcache]
  | none => simp only [hrange]

theorem lookup_foldl_popPk (evicted : List String) (text : String) :
    ∀ id ∈ (evicted.foldl popPk m).pkToBlock.lookup text, id ∈ m.pkToBlock.lookup text := by
  induction evicted generalizing m with
  | nil => exact fun id h => h
  | cons text' evicted ih =>
    intro id h
    have h := ih id h
    have h : (m.pkToBlock.erase text').lookup text = some id := h
    by_cases heq : text = text'
    · subst heq
      rw [AList.lookup_erase] at h
      cases h
    · rwa [AList.lookup_erase_ne heq] at h

theorem rangeLookup_foldl_popPk (evicted : List String) :
    (evicted.foldl popPk m).rangeLookup pk = m.rangeLookup pk := by
  induction evicted generalizing m with
  | nil => rfl
  | cons text evicted ih => exact ih

theorem Tracked.consistent (h : Tracked s) : Consistent threshold s where
  found e he evicted := by
    refine findBlockForPk_of_range ?_ fun id hid => h.cached e he id (lookup_foldl_popPk evicted _ id hid)
    rw [rangeLookup_foldl_popPk]
    exact h.ranged e he
  repeated e he := by
    rw [assignBlock_found (findBlockForPk_of_range (h.ranged e he) (h.cached e he))]
  counted := h.total

theorem Tracked.fresh (h : Tracked ⟨m, live⟩) {e : PrimaryKey × BlockId} (he : e ∈ live) : e.2 < m.nextBlockId := by
  obtain ⟨b, hb⟩ : ∃ b, m.getBlock e.2 = some b := rangeLookup_block (h.ranged e he)
  rw [← getBlock_id hb]
  exact h.wellformed.fresh b (getBlock_mem hb)

theorem Tracked.of_cache (h : Tracked ⟨m, live⟩) {m' : BlockManager} (hwf : m'.Wellformed)
    (hblocks : m'.blocks = m.blocks) (hindex : m'.blockRangeIndex = m.blockRangeIndex)
    (hcache : ∀ e ∈ live, ∀ id ∈ m'.pkToBlock.lookup e.1.toStringRepr, id = e.2) : Tracked ⟨m', live⟩ where
  wellformed := hwf
  nodup := h.nodup
  cached := hcache
  ranged e he := rangeLookup_mono (h.ranged e he) (by rw [hindex]) fun b hb hcontains =>
    ⟨b, by rw [getBlock, hblocks]; exact hb, hcontains⟩
  texts := h.texts
  counted b hb := h.counted b (hblocks ▸ hb)
  total := by
    rw [totalRowCount, hblocks]
    exact h.total

theorem Tracked.putPk (h : Tracked ⟨m, live⟩) {b : Block} (hb : m.getBlock id = some b)
    (htexts : ∀ e ∈ live, e.1.toStringRepr = pk.toStringRepr → id = e.2) : Tracked ⟨m.putPk pk id, live⟩ := by
  refine h.of_cache (h.wellformed.putPk hb) rfl rfl fun e he id' hid => ?_
  have hid : (m.pkToBlock.insert pk.toStringRepr id).lookup e.1.toStringRepr = some id' := hid
  rw [Dict.lookup_insert'] at hid
  split_ifs at hid with heq
  · cases hid
    exact htexts e he heq
  · exact h.cached e he id' hid

theorem Tracked.popPk (h : Tracked ⟨m, live⟩) {text : String} : Tracked ⟨m.popPk text, live⟩ :=
  h.of_cache h.wellformed.popPk rfl rfl fun e he id' hid => h.cached e he id' (lookup_foldl_popPk [text] _ id' hid)

theorem Tracked.findBlockForPk_live (h : Tracked ⟨m, live⟩) (he : (pk, id) ∈ live) :
    (m.findBlockForPk pk).1 = some id ∧ Tracked ⟨(m.findBlockForPk pk).2, live⟩ := by
  have hfound := findBlockForPk_of_range (h.ranged _ he) (h.cached _ he)
  refine ⟨hfound, ?_⟩
  rcases findBlockForPk_some hfound with ⟨-, hm⟩ | ⟨-, hrange, hm⟩
  · rwa [hm]
  · obtain ⟨b, hb⟩ := rangeLookup_block hrange
    rw [hm]
    exact h.putPk hb fun e' he' htext => h.texts _ he e' he' htext.symm

/-- A block changes without leaving a key out, and counts the live keys that it has then. -/
theorem Tracked.updateBlock (h : Tracked ⟨m, live⟩) {f : Block → Block} {b : Block} (hb : m.getBlock id = some b)
    (hf : ∀ b, (f b).id = b.id) (hcontains : ∀ text, b.containsPk text = true → (f b).containsPk text = true)
    {live' : List (PrimaryKey × BlockId)} (hnodup : (live'.map Prod.fst).Nodup)
    (hlive : ∀ e ∈ live', e ∈ live ∨ e.2 = id ∧ (f b).containsPk e.1.toStringRepr = true ∧
      (∃ entry ∈ rangeEntry m.blockRangeIndex e.1, entry.2 = id) ∧
        (∀ id' ∈ m.pkToBlock.lookup e.1.toStringRepr, id' = id) ∧
          ∀ e' ∈ live', e'.1.toStringRepr = e.1.toStringRepr → e'.2 = id)
    (hcount : (f b).rowCount = live'.countP (·.2 = id))
    (hothers : ∀ id', id' ≠ id → live'.countP (·.2 = id') = live.countP (·.2 = id'))
    (hlength : live'.length + b.rowCount = live.length + (f b).rowCount) : Tracked ⟨m.updateBlock id f, live'⟩ where
  wellformed := h.wellformed.updateBlock hf
  nodup := hnodup
  cached e he id' hid := by
    rcases hlive e he with hold | ⟨hid', -, -, hcached, -⟩
    · exact h.cached e hold id' hid
    · exact (hcached id' hid).trans hid'.symm
  ranged e he := by
    have hget : (m.updateBlock id f).getBlock id = some (f b) := by
      rw [getBlock_updateBlock hf, hb, Option.map_some, if_pos (getBlock_id hb)]
    rcases hlive e he with hold | ⟨hid, hnew, ⟨entry, hentry, hentryId⟩, -, -⟩
    · refine rangeLookup_mono (h.ranged e hold) rfl fun c hc hcontained => ?_
      by_cases hid : e.2 = id
      · rw [hid] at hc ⊢
        cases hb.symm.trans hc
        exact ⟨_, hget, hcontains _ hcontained⟩
      · have hne : c.id ≠ id := fun heq => hid ((getBlock_id hc).symm.trans heq)
        exact ⟨c, by rw [getBlock_updateBlock hf, hc, Option.map_some, if_neg hne], hcontained⟩
    · show (rangeEntry m.blockRangeIndex e.1).bind _ = _
      rw [hentry, Option.bind_some, hentryId, hget, Option.bind_some, if_pos hnew, hid]
  texts e he e' he' htext := by
    rcases hlive e he with hold | ⟨hid, -, -, -, hsame⟩
    · rcases hlive e' he' with hold' | ⟨hid', -, -, -, hsame'⟩
      · exact h.texts e hold e' hold' htext
      · exact (hsame' e he htext).trans hid'.symm
    · exact hid.trans (hsame e' he' htext.symm).symm
  counted c' hc' := by
    obtain ⟨c, hc, rfl⟩ := List.mem_map.mp hc'
    by_cases hid : c.id = id
    · have hcb : c = b := by
        refine List.inj_on_of_nodup_map h.wellformed.nodup hc (getBlock_mem hb) ?_
        exact hid.trans (getBlock_id hb).symm
      rw [if_pos hid, hcb, hf b, getBlock_id hb]
      exact hcount
    · rw [if_neg hid, hothers _ hid]
      exact h.counted c hc
  total := by
    have htotal : m.totalRowCount = live.length := h.total
    have hupdate : (m.updateBlock id f).totalRowCount + b.rowCount = m.totalRowCount + (f b).rowCount :=
      totalRowCount_updateBlock h.wellformed.nodup hb
    show (m.updateBlock id f).totalRowCount = live'.length
    omega

theorem countP_append_singleton (live : List (PrimaryKey × BlockId)) (e : PrimaryKey × BlockId) (id : BlockId) :
    (live ++ [e]).countP (·.2 = id) = live.countP (·.2 = id) + if e.2 = id then 1 else 0 := by
  rw [List.countP_append, List.countP_singleton]
  simp only [decide_eq_true_eq]

theorem nodup_append_singleton (hnd : (live.map Prod.fst).Nodup) (hnew : pk ∉ live.map Prod.fst) :
    ((live ++ [(pk, id)]).map Prod.fst).Nodup := by
  rw [List.map_append, List.map_singleton]
  refine List.nodup_append.mpr ⟨hnd, List.nodup_singleton _, fun pk' hpk' pk'' hpk'' heq => ?_⟩
  rw [heq, List.mem_singleton.mp hpk''] at hpk'
  exact hnew hpk'

theorem Tracked.closeActive (h : Tracked ⟨m, live⟩) : Tracked ⟨m.closeActive, live⟩ := by
  rw [BlockManager.closeActive]
  cases hactive : m.activeBlockId.bind m.getBlock with
  | none => exact h
  | some b =>
    obtain ⟨id, -, hb⟩ := Option.bind_eq_some_iff.mp hactive
    have hid := getBlock_id hb
    rw [← hid] at hb
    show Tracked ⟨m.updateBlock b.id Block.close, live⟩
    exact h.updateBlock (f := Block.close) hb (fun _ => rfl) (fun _ hcontains => hcontains) h.nodup
      (fun e he => .inl he) (h.counted b (getBlock_mem hb)) (fun _ _ => rfl) rfl

theorem Tracked.join (h : Tracked ⟨m, live⟩) {b : Block} (hb : m.getBlock b.id = some b) (hnew : pk ∉ live.map Prod.fst)
    (hcached : m.pkToBlock.lookup pk.toStringRepr = none)
    (hentry : ∃ e ∈ rangeEntry m.blockRangeIndex pk, e.2 = b.id)
    (htexts : ∀ e ∈ live, e.1.toStringRepr = pk.toStringRepr → e.2 = b.id) :
    Tracked ⟨(m.updateBlock b.id (·.addRow pk.toStringRepr)).putPk pk b.id, live ++ [(pk, b.id)]⟩ := by
  have htexts' : ∀ e ∈ live ++ [(pk, b.id)], e.1.toStringRepr = pk.toStringRepr → e.2 = b.id := by
    intro e he htext
    rcases List.mem_append.mp he with he | he
    · exact htexts e he htext
    · rw [List.mem_singleton.mp he]
  have hupdated : Tracked ⟨m.updateBlock b.id (·.addRow pk.toStringRepr), live ++ [(pk, b.id)]⟩ := by
    refine h.updateBlock (f := fun b => b.addRow pk.toStringRepr) hb (fun _ => rfl)
      (fun _ hcontains => Block.containsPk_addRow (.inl hcontains)) ?_ ?_ ?_ ?_ ?_
    · exact nodup_append_singleton h.nodup hnew
    · intro e he
      rcases List.mem_append.mp he with he | he
      · exact .inl he
      · rw [List.mem_singleton.mp he]
        refine .inr ⟨rfl, Block.containsPk_addRow (.inr rfl), hentry, fun id' hid => ?_, htexts'⟩
        rw [hcached] at hid
        cases hid
    · rw [countP_append_singleton, if_pos rfl]
      exact congrArg (· + 1) (h.counted b (getBlock_mem hb))
    · intro id' hid
      rw [countP_append_singleton, if_neg hid.symm, Nat.add_zero]
    · rw [List.length_append]
      show live.length + 1 + b.rowCount = live.length + (b.rowCount + 1)
      omega
  have hget : (m.updateBlock b.id (·.addRow pk.toStringRepr)).getBlock b.id = some (b.addRow pk.toStringRepr) := by
    rw [getBlock_updateBlock (f := fun b => b.addRow pk.toStringRepr) (fun _ => rfl), hb, Option.map_some, if_pos rfl]
  exact hupdated.putPk hget fun e he htext => (htexts' e he htext).symm

theorem foldr_append_singleton (blocks : List Block) (b : Block) :
    (blocks ++ [b]).foldr (fun b n => b.rowCount + n) 0 = blocks.foldr (fun b n => b.rowCount + n) 0 + b.rowCount := by
  induction blocks with
  | nil => exact Nat.add_comm _ _
  | cons c blocks ih =>
    rw [List.cons_append, List.foldr_cons, List.foldr_cons, ih]
    omega

/-- A new block takes a new key. -/
theorem Tracked.opened (h : Tracked ⟨m, live⟩) (hnew : pk ∉ live.map Prod.fst) {start : PrimaryKey}
    (hstart : (Block.newWithPk m.nextBlockId pk).pkStartKey = start)
    (hplace : start ≤ pk ∧ ∀ e ∈ rangeEntry m.blockRangeIndex pk, e.1 ≤ start)
    (hkeep : ∀ e ∈ live, start ≤ e.1 → ∃ e' ∈ rangeEntry m.blockRangeIndex e.1, ¬e'.1 ≤ start)
    (htexts : ∀ e ∈ live, e.1.toStringRepr ≠ pk.toStringRepr) :
    Tracked ⟨(m.assignNew pk).2, live ++ [(pk, m.nextBlockId)]⟩ := by
  have hfresh : ∀ e ∈ live, e.2 < m.nextBlockId := fun _ he => h.fresh he
  have hindex : (m.assignNew pk).2.blockRangeIndex = m.blockRangeIndex ++ [(start, m.nextBlockId)] := by
    rw [← hstart]
    rfl
  have hget := @assignNew_getBlock m pk h.wellformed
  refine ⟨h.wellformed.assignNew, nodup_append_singleton h.nodup hnew, ?_, ?_, ?_, ?_, ?_⟩
  · intro e he id hid
    have hid : (m.pkToBlock.insert pk.toStringRepr m.nextBlockId).lookup e.1.toStringRepr = some id := hid
    rw [Dict.lookup_insert'] at hid
    rcases List.mem_append.mp he with he | he
    · rw [if_neg (htexts e he)] at hid
      exact h.cached e he id hid
    · rw [List.mem_singleton.mp he, if_pos rfl] at hid
      rw [List.mem_singleton.mp he]
      exact (Option.some.inj hid).symm
  · intro e he
    rcases List.mem_append.mp he with he | he
    · refine rangeLookup_mono (h.ranged e he) ?_ fun b hb hcontains => ?_
      · rw [hindex, rangeEntry_append, if_neg]
        rintro ⟨hle, hall⟩
        obtain ⟨e', he', hlt⟩ := hkeep e he hle
        exact hlt (hall e' he')
      · exact ⟨b, by rw [hget, if_neg (hfresh e he).ne, hb], hcontains⟩
    · rw [List.mem_singleton.mp he]
      show (rangeEntry (m.assignNew pk).2.blockRangeIndex pk).bind _ = some m.nextBlockId
      rw [hindex, rangeEntry_append, if_pos hplace, Option.bind_some]
      dsimp only
      rw [hget, if_pos rfl, Option.bind_some, if_pos (Block.containsPk_addRow (.inr rfl))]
  · have hsame : ∀ e ∈ live ++ [(pk, m.nextBlockId)], e.1.toStringRepr = pk.toStringRepr → e = (pk, m.nextBlockId) := by
      intro e he htext
      rcases List.mem_append.mp he with he | he
      · exact absurd htext (htexts e he)
      · exact List.mem_singleton.mp he
    intro e he e' he' htext
    rcases List.mem_append.mp he with hold | hlast
    · rcases List.mem_append.mp he' with hold' | hlast'
      · exact h.texts e hold e' hold' htext
      · rw [List.mem_singleton.mp hlast'] at htext
        exact absurd htext (htexts e hold)
    · rw [List.mem_singleton.mp hlast] at htext ⊢
      rw [hsame e' he' htext.symm]
  · intro b hb
    have hb : b ∈ (m.assignNew pk).2.blocks := hb
    rw [assignNew_blocks h.wellformed] at hb
    rw [countP_append_singleton]
    rcases List.mem_append.mp hb with hb | hb
    · rw [if_neg (h.wellformed.fresh b hb).ne', Nat.add_zero]
      exact h.counted b hb
    · have hnone : live.countP (fun e => e.2 = b.id) = 0 := by
        refine List.countP_eq_zero.mpr fun e he heq => ?_
        rw [List.mem_singleton.mp hb] at heq
        exact (hfresh e he).ne (of_decide_eq_true heq)
      rw [hnone, List.mem_singleton.mp hb]
      show 1 = 0 + if m.nextBlockId = m.nextBlockId then 1 else 0
      rw [if_pos rfl]
  · show (m.assignNew pk).2.totalRowCount = _
    have htotal : m.blocks.foldr (fun b n => b.rowCount + n) 0 = live.length := h.total
    rw [totalRowCount, assignNew_blocks h.wellformed, foldr_append_singleton, htotal, List.length_append]
    rfl

theorem countP_filter_ne (hnd : (live.map Prod.fst).Nodup) (he : (pk, id) ∈ live) :
    (live.filter (·.1 ≠ pk)).length + 1 = live.length ∧
      (live.filter (·.1 ≠ pk)).countP (·.2 = id) + 1 = live.countP (·.2 = id) ∧
        ∀ id', id' ≠ id → (live.filter (·.1 ≠ pk)).countP (·.2 = id') = live.countP (·.2 = id') := by
  obtain ⟨before, after, rfl⟩ := List.append_of_mem he
  rw [List.map_append, List.map_cons] at hnd
  obtain ⟨-, hafter, hdisjoint⟩ := List.nodup_append.mp hnd
  have hbefore : ∀ e ∈ before, e.1 ≠ pk := fun e he =>
    hdisjoint _ (List.mem_map_of_mem he) _ List.mem_cons_self
  have hafter : ∀ e ∈ after, e.1 ≠ pk := fun e he heq =>
    (List.nodup_cons.mp hafter).1 (List.mem_map.mpr ⟨e, he, heq⟩)
  have hfilter : (before ++ (pk, id) :: after).filter (·.1 ≠ pk) = before ++ after := by
    rw [List.filter_append, List.filter_eq_self.mpr fun e he => decide_eq_true (hbefore e he),
      List.filter_cons_of_neg (by simp), List.filter_eq_self.mpr fun e he => decide_eq_true (hafter e he)]
  have hcount : ∀ p : PrimaryKey × BlockId → Bool, (before ++ (pk, id) :: after).countP p =
      (before ++ after).countP p + if p (pk, id) then 1 else 0 := by
    intro p
    rw [List.countP_append, List.countP_cons, List.countP_append]
    omega
  rw [hfilter]
  refine ⟨by simp only [List.length_append, List.length_cons]; omega, ?_, fun id' hid => ?_⟩
  · rw [hcount]
    simp
  · rw [hcount]
    simp [hid.symm]

theorem Tracked.remove (h : Tracked ⟨m, live⟩) (he : (pk, id) ∈ live) :
    Tracked ⟨m.updateBlock id Block.removeRow, live.filter (·.1 ≠ pk)⟩ := by
  obtain ⟨b, hb⟩ : ∃ b, m.getBlock id = some b := rangeLookup_block (h.ranged _ he)
  have hnd : (live.map Prod.fst).Nodup := h.nodup
  obtain ⟨hlength, hcount, hothers⟩ := countP_filter_ne hnd he
  have hrows : b.rowCount = live.countP (·.2 = id) := by
    rw [← getBlock_id hb]
    exact h.counted b (getBlock_mem hb)
  have hremoved : b.removeRow.rowCount = b.rowCount - 1 := rfl
  refine h.updateBlock (f := Block.removeRow) hb (fun _ => rfl) (fun _ hcontains => hcontains) ?_
    (fun e he => .inl (List.mem_of_mem_filter he)) ?_ hothers ?_
  · exact hnd.sublist (List.filter_sublist.map _)
  · omega
  · omega

theorem mem_live_of_isLive (hlive : pk ∈ live.map Prod.fst) : ∃ id, (pk, id) ∈ live := by
  obtain ⟨⟨pk', id⟩, he, rfl⟩ := List.mem_map.mp hlive
  exact ⟨id, he⟩

theorem Tracked.removeNone (h : Tracked ⟨m, live⟩) {b : Block} (hb : m.getBlock id = some b) (hempty : b.rowCount = 0) :
    Tracked ⟨m.updateBlock id Block.removeRow, live⟩ := by
  have hrows : b.rowCount = live.countP (·.2 = id) := by
    rw [← getBlock_id hb]
    exact h.counted b (getBlock_mem hb)
  have hremoved : b.removeRow.rowCount = b.rowCount - 1 := rfl
  exact h.updateBlock (f := Block.removeRow) hb (fun _ => rfl) (fun _ hcontains => hcontains) h.nodup
    (fun e he => .inl he) (by omega) (fun _ _ => rfl) (by omega)

theorem filter_of_not_isLive (hlive : pk ∉ live.map Prod.fst) : live.filter (·.1 ≠ pk) = live :=
  List.filter_eq_self.mpr fun _ he => decide_eq_true fun heq => hlive (heq ▸ List.mem_map_of_mem he)

theorem receiver_getBlock {b : Block} (hb : m.receiver threshold = some b) : m.getBlock b.id = some b := by
  obtain ⟨id, -, hget⟩ := Option.bind_eq_some_iff.mp (Option.filter_eq_some_iff.mp hb).1
  rw [getBlock_id hget]
  exact hget

theorem closeActive_rest :
    m.closeActive.nextBlockId = m.nextBlockId ∧ m.closeActive.blockRangeIndex = m.blockRangeIndex ∧
      m.closeActive.pkToBlock = m.pkToBlock := by
  rw [closeActive]
  split
  · exact ⟨rfl, rfl, rfl⟩
  · exact ⟨rfl, rfl, rfl⟩

theorem found_block (h : m.Wellformed) (hfound : (m.findBlockForPk pk).1 = some id) : ∃ b, m.getBlock id = some b := by
  rcases findBlockForPk_some hfound with ⟨hcache, -⟩ | ⟨-, hrange, -⟩
  · exact h.cached _ _ hcache
  · exact rangeLookup_block hrange

theorem Tracked.removeNone_found (h : Tracked ⟨m, live⟩) (hfound : (m.findBlockForPk pk).1 = some id) {b : Block}
    (hb : m.getBlock id = some b) (hempty : b.rowCount = 0) :
    Tracked ⟨((m.findBlockForPk pk).2.updateBlock id Block.removeRow).popPk pk.toStringRepr, live⟩ := by
  have hremoved := h.removeNone hb hempty
  rcases findBlockForPk_some hfound with ⟨-, hm⟩ | ⟨-, -, hm⟩
  · rw [hm]
    exact hremoved.popPk
  · rw [hm]
    refine hremoved.of_cache ((h.wellformed.putPk hb).updateBlock (f := Block.removeRow) fun _ => rfl).popPk
      rfl rfl fun e he id' hid => ?_
    have hid : ((m.pkToBlock.insert pk.toStringRepr id).erase pk.toStringRepr).lookup e.1.toStringRepr = some id' := hid
    by_cases htext : e.1.toStringRepr = pk.toStringRepr
    · rw [htext, AList.lookup_erase] at hid
      cases hid
    · rw [AList.lookup_erase_ne htext, Dict.lookup_insert', if_neg htext] at hid
      exact h.cached e he id' hid

/-- A call that meets its condition keeps everything. -/
theorem Tracked.step (h : Tracked s) {call : BlockCall} (hkept : Kept threshold s call)
    (hstep : blockStep threshold s call = some s') : Tracked s' := by
  obtain ⟨m, live⟩ := s
  cases call with
  | evict text =>
    cases hstep
    exact h.popPk
  | delete pk =>
    cases hstep
    show Tracked ⟨(m.handleDelete pk).2, live.filter (·.1 ≠ pk)⟩
    by_cases hlive : pk ∈ live.map Prod.fst
    · obtain ⟨id, he⟩ := mem_live_of_isLive hlive
      obtain ⟨hfound, htracked⟩ := h.findBlockForPk_live he
      rw [handleDelete_found hfound]
      exact (htracked.remove he).popPk
    · rw [filter_of_not_isLive hlive]
      cases hfound : (m.findBlockForPk pk).1 with
      | none =>
        rw [handleDelete_none hfound]
        exact h
      | some id =>
        obtain ⟨b, hb⟩ := found_block h.wellformed hfound
        have hempty : b.rowCount = 0 := (hkept.resolve_left hlive) id hfound b hb
        rw [handleDelete_found hfound]
        exact h.removeNone_found hfound hb hempty
  | assign pk =>
    cases hstep
    show Tracked ⟨(m.assignBlock threshold pk).2, if pk ∈ live.map Prod.fst then live else
      live ++ [(pk, (m.assignBlock threshold pk).1.1)]⟩
    by_cases hlive : pk ∈ live.map Prod.fst
    · obtain ⟨id, he⟩ := mem_live_of_isLive hlive
      obtain ⟨hfound, htracked⟩ := h.findBlockForPk_live he
      rw [if_pos hlive, assignBlock_found hfound]
      exact htracked
    · obtain ⟨hnone, hplaced⟩ := hkept.resolve_left hlive
      rw [if_neg hlive]
      have hcached := (findBlockForPk_none hnone).1
      rw [Placed] at hplaced
      cases hreceiver : m.receiver threshold with
      | some b =>
        rw [assignBlock_joined hnone hreceiver]
        simp only [hreceiver] at hplaced
        exact h.join (receiver_getBlock hreceiver) hlive hcached hplaced.1 hplaced.2
      | none =>
        rw [assignBlock_opened hnone hreceiver]
        simp only [hreceiver] at hplaced
        obtain ⟨hplace, hkeep, htexts⟩ := hplaced
        obtain ⟨hnext, hindex, -⟩ := @closeActive_rest m
        rw [← hnext, ← hindex] at hplace
        rw [← hnext, ← hindex] at hkeep
        exact h.closeActive.opened hlive rfl hplace hkeep htexts

theorem Consistent.cached (h : Consistent threshold s) {e : PrimaryKey × BlockId} (he : e ∈ s.live) :
    ∀ id ∈ s.manager.pkToBlock.lookup e.1.toStringRepr, id = e.2 := by
  intro id hid
  have hfound : (s.manager.findBlockForPk e.1).1 = some e.2 := h.found e he []
  rcases findBlockForPk_some hfound with ⟨hcache, -⟩ | ⟨hcache, -⟩
  · exact Option.some.inj (hid.symm.trans hcache)
  · cases hid.symm.trans hcache

theorem Consistent.ranged (h : Consistent threshold s) {e : PrimaryKey × BlockId} (he : e ∈ s.live) :
    s.manager.rangeLookup e.1 = some e.2 := by
  have hfound : ((s.manager.popPk e.1.toStringRepr).findBlockForPk e.1).1 = some e.2 := h.found e he [e.1.toStringRepr]
  rcases findBlockForPk_some hfound with ⟨hcache, -⟩ | ⟨-, hrange, -⟩
  · have hcache : (s.manager.pkToBlock.erase e.1.toStringRepr).lookup e.1.toStringRepr = some e.2 := hcache
    rw [AList.lookup_erase] at hcache
    cases hcache
  · exact hrange

/-- A call after which every key is in its block has met its condition. -/
theorem Tracked.kept (h : Tracked s) {call : BlockCall} (hstep : blockStep threshold s call = some s')
    (hc : Consistent threshold s') : Kept threshold s call := by
  obtain ⟨m, live⟩ := s
  cases call with
  | evict text => trivial
  | delete pk =>
    refine or_iff_not_imp_left.mpr fun hlive id hfound b hb => ?_
    cases hstep
    have hcounted : (m.handleDelete pk).2.totalRowCount = (live.filter (·.1 ≠ pk)).length := hc.counted
    have htotal : m.totalRowCount = live.length := h.total
    rw [filter_of_not_isLive hlive, handleDelete_found hfound] at hcounted
    have hblocks : (m.findBlockForPk pk).2.blocks = m.blocks := findBlockForPk_blocks
    have hupdate := @totalRowCount_updateBlock (m.findBlockForPk pk).2 id Block.removeRow
      (by rw [hblocks]; exact h.wellformed.nodup) b (by rw [getBlock, hblocks]; exact hb)
    have hsame : (m.findBlockForPk pk).2.totalRowCount = m.totalRowCount := by
      rw [totalRowCount, hblocks]
      rfl
    have hpop : (((m.findBlockForPk pk).2.updateBlock id Block.removeRow).popPk pk.toStringRepr).totalRowCount =
        ((m.findBlockForPk pk).2.updateBlock id Block.removeRow).totalRowCount := rfl
    have hremoved : b.removeRow.rowCount = b.rowCount - 1 := rfl
    dsimp only at hcounted
    omega
  | assign pk =>
    refine or_iff_not_imp_left.mpr fun hlive => ?_
    have hlive : pk ∉ live.map Prod.fst := hlive
    cases hstep
    have hc : Consistent threshold ⟨(m.assignBlock threshold pk).2, if pk ∈ live.map Prod.fst then live else
      live ++ [(pk, (m.assignBlock threshold pk).1.1)]⟩ := hc
    rw [if_neg hlive] at hc
    have htotal : m.totalRowCount = live.length := h.total
    cases hfound : (m.findBlockForPk pk).1 with
    | some id =>
      rw [assignBlock_found hfound] at hc
      have hcounted : (m.findBlockForPk pk).2.totalRowCount = (live ++ [(pk, id)]).length := hc.counted
      rw [totalRowCount, findBlockForPk_blocks, List.length_append, List.length_singleton] at hcounted
      rw [totalRowCount] at htotal
      omega
    | none =>
      refine ⟨rfl, ?_⟩
      have hlast : ∀ id : BlockId, (pk, id) ∈ live ++ [(pk, id)] := fun id =>
        List.mem_append_right _ (List.mem_singleton_self _)
      rw [Placed]
      cases hreceiver : m.receiver threshold with
      | some b =>
        simp only
        rw [assignBlock_joined hfound hreceiver] at hc
        have hentry := rangeLookup_entry (hc.ranged (hlast b.id))
        refine ⟨hentry, fun e he htext => ?_⟩
        refine (hc.cached (List.mem_append_left _ he) b.id ?_).symm
        show (m.pkToBlock.insert pk.toStringRepr b.id).lookup e.1.toStringRepr = some b.id
        rw [htext, AList.lookup_insert]
      | none =>
        simp only
        rw [assignBlock_opened hfound hreceiver] at hc
        obtain ⟨hnext, hindex, -⟩ := @closeActive_rest m
        have hc : Consistent threshold ⟨(m.closeActive.assignNew pk).2, live ++ [(pk, m.nextBlockId)]⟩ := hnext ▸ hc
        -- The entry that is found in the index with the new block.
        have hentry : ∀ e ∈ live ++ [(pk, m.nextBlockId)], ∃ entry ∈ rangeEntry (m.blockRangeIndex ++
            [((Block.newWithPk m.nextBlockId pk).pkStartKey, m.nextBlockId)]) e.1, entry.2 = e.2 := by
          intro e he
          rw [← hnext, ← hindex]
          exact rangeLookup_entry (hc.ranged he)
        refine ⟨?_, fun e he hle => ?_, fun e he htext => ?_⟩
        · obtain ⟨entry, hmem, hid⟩ := hentry _ (hlast m.nextBlockId)
          rw [rangeEntry_append] at hmem
          split_ifs at hmem with hplace
          · exact hplace
          · exact absurd hid (h.wellformed.indexed entry (rangeEntry_mem hmem)).ne
        · obtain ⟨entry, hmem, hid⟩ := hentry e (List.mem_append_left _ he)
          rw [rangeEntry_append] at hmem
          split_ifs at hmem with hplace
          · cases hmem
            exact absurd hid.symm (h.fresh he).ne
          · rw [and_iff_right hle] at hplace
            push Not at hplace
            exact hplace
        · have hcached := hc.cached (List.mem_append_left _ he) m.nextBlockId ?_
          · exact (h.fresh he).ne hcached.symm
          · rw [← hnext]
            show (m.closeActive.pkToBlock.insert pk.toStringRepr m.closeActive.nextBlockId).lookup _ = _
            rw [htext, AList.lookup_insert]

end Steps

theorem tracked_start : Tracked .start where
  wellformed := ⟨List.nodup_nil, fun _ h => absurd h List.not_mem_nil, fun _ h => absurd h List.not_mem_nil,
    fun _ _ h => by cases h⟩
  nodup := List.nodup_nil
  cached _ h := absurd h List.not_mem_nil
  ranged _ h := absurd h List.not_mem_nil
  texts _ h := absurd h List.not_mem_nil
  counted _ h := absurd h List.not_mem_nil
  total := rfl

/-- A run keeps every live key in its block, and counts the live keys, exactly if all its calls meet their
    conditions. -/
theorem assigned_consistent_iff (threshold : Nat) (run : List BlockCall) :
    Always (blockStep threshold) (Consistent threshold) .start run ↔
      Meets (blockStep threshold) (Kept threshold) .start run :=
  always_iff_meets_of_strong (fun _ h => h.consistent) (fun _ _ _ h hstep hc => h.kept hstep hc)
    (fun _ _ _ h hkept hstep => h.step hkept hstep) tracked_start

/-- A key that lies between two others is taken for one that is there. -/
theorem betweenKeys_not_consistent :
    ∃ s, exec (blockStep 20000) .start [.assign (.int64 1), .assign (.int64 10), .assign (.int64 5)] = some s ∧
      s.live.length = 3 ∧ s.manager.totalRowCount = 2 ∧ ¬Consistent 20000 s := by
  refine ⟨_, rfl, by decide +kernel, by decide +kernel, fun h => ?_⟩
  exact absurd h.counted (by decide +kernel)

/-- A key below the first one of its block is lost with its cache entry. -/
example : ((blockStep 20000 .start (.assign (.int64 10))).bind fun s =>
    (blockStep 20000 s (.assign (.int64 5))).bind fun s => (blockStep 20000 s (.evict "5")).map fun s =>
      (s.manager.findBlockForPk (.int64 5)).1) = some none := by
  decide +kernel

end Reiver.Pond
