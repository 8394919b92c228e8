import Mathlib.Data.List.Induction
import Reiver.Lib.Dict
import Reiver.Pond.WalIndex.InvertedIndex

/-! # Blocks of primary keys

The model of `wal_index/block.rs`. A key is looked up in a bounded cache, then under the greatest start of a block that
is not above it, in an index that holds the starts as they were when the blocks were made. The threshold for a split is
the configured block size times two, as the code computes it. -/

namespace Reiver.Pond
open PrimaryKey

abbrev BlockId := Nat

structure Block where
  id : BlockId
  pkStart : String
  pkEnd : String
  rowCount : Nat
  isClosed : Bool
  isNumericPk : Bool

namespace Block

def newWithPk (id : BlockId) (pk : PrimaryKey) : Block where
  id := id
  pkStart := pk.toStringRepr
  pkEnd := pk.toStringRepr
  rowCount := 0
  isClosed := false
  isNumericPk :=
    match pk with
    | .int64 _ => true
    | _ => false

/-- A text as a number, the least one if it is none. -/
def numericKey (pk : String) : Int := ((parseI64 pk).getD Int64.minValue).toInt

def comparePks (b : Block) (pk1 pk2 : String) : Ordering :=
  if b.isNumericPk then compare (numericKey pk1) (numericKey pk2) else compare pk1 pk2

def containsPk (b : Block) (pk : String) : Bool := b.comparePks pk b.pkStart ≠ .lt ∧ b.comparePks pk b.pkEnd ≠ .gt

def addRow (b : Block) (pk : String) : Block :=
  { b with
    rowCount := b.rowCount + 1
    pkStart := if b.comparePks pk b.pkStart = .lt then pk else b.pkStart
    pkEnd := if b.comparePks pk b.pkEnd = .gt then pk else b.pkEnd }

def removeRow (b : Block) : Block := { b with rowCount := b.rowCount - 1 }

def shouldSplit (b : Block) (threshold : Nat) : Bool := !b.isClosed && b.rowCount > threshold

def close (b : Block) : Block := { b with isClosed := true }

def pkStartKey (b : Block) : PrimaryKey := parse b.pkStart b.isNumericPk

end Block

structure BlockManager where
  blocks : List Block
  nextBlockId : BlockId
  activeBlockId : Option BlockId
  pkToBlock : Dict String BlockId
  -- In the order of insertion: a later entry replaces one of the same key.
  blockRangeIndex : List (PrimaryKey × BlockId)

namespace BlockManager

def new : BlockManager := ⟨[], 1, none, ∅, []⟩

def getBlock (m : BlockManager) (id : BlockId) : Option Block := m.blocks.find? (·.id = id)

def updateBlock (m : BlockManager) (id : BlockId) (f : Block → Block) : BlockManager :=
  { m with blocks := m.blocks.map fun b => if b.id = id then f b else b }

def insertBlock (m : BlockManager) (b : Block) : BlockManager :=
  { m with blocks := m.blocks.filter (·.id ≠ b.id) ++ [b] }

def putPk (m : BlockManager) (pk : PrimaryKey) (id : BlockId) : BlockManager :=
  { m with pkToBlock := m.pkToBlock.insert pk.toStringRepr id }

def popPk (m : BlockManager) (text : String) : BlockManager := { m with pkToBlock := m.pkToBlock.erase text }

/-- `range(..=pk).next_back()`: the entry with the greatest key that is not above `pk`. -/
def rangeEntry (index : List (PrimaryKey × BlockId)) (pk : PrimaryKey) : Option (PrimaryKey × BlockId) :=
  index.foldl (fun best e => if e.1 ≤ pk ∧ ∀ b ∈ best, b.1 ≤ e.1 then some e else best) none

def rangeLookup (m : BlockManager) (pk : PrimaryKey) : Option BlockId :=
  (rangeEntry m.blockRangeIndex pk).bind fun e =>
    (m.getBlock e.2).bind fun block => if block.containsPk pk.toStringRepr then some e.2 else none

def findBlockForPk (m : BlockManager) (pk : PrimaryKey) : Option BlockId × BlockManager :=
  match m.pkToBlock.lookup pk.toStringRepr with
  | some id => (some id, m)
  | none =>
    match m.rangeLookup pk with
    | some id => (some id, m.putPk pk id)
    | none => (none, m)

def assignNew (m : BlockManager) (pk : PrimaryKey) : (BlockId × Bool) × BlockManager :=
  let id := m.nextBlockId
  let block := Block.newWithPk id pk
  let m := { m.insertBlock block with nextBlockId := id + 1, activeBlockId := some id }
  let m := m.updateBlock id (·.addRow pk.toStringRepr)
  let m := { m with blockRangeIndex := m.blockRangeIndex ++ [(block.pkStartKey, id)] }
  ((id, true), m.putPk pk id)

def assignBlock (threshold : Nat) (m : BlockManager) (pk : PrimaryKey) : (BlockId × Bool) × BlockManager :=
  match m.findBlockForPk pk with
  | (some id, m) => ((id, false), m)
  | (none, m) =>
    match m.activeBlockId.bind m.getBlock with
    | some block =>
      if block.shouldSplit threshold then (m.updateBlock block.id Block.close).assignNew pk
      else ((block.id, false), (m.updateBlock block.id (·.addRow pk.toStringRepr)).putPk pk block.id)
    | none => m.assignNew pk

def handleDelete (m : BlockManager) (pk : PrimaryKey) : Option BlockId × BlockManager :=
  match m.findBlockForPk pk with
  | (some id, m) => (some id, (m.updateBlock id Block.removeRow).popPk pk.toStringRepr)
  | (none, m) => (none, m)

def getAllBlockIds (m : BlockManager) : List BlockId := m.blocks.map (·.id)

def totalRowCount (m : BlockManager) : Nat := m.blocks.foldr (fun b n => b.rowCount + n) 0

end BlockManager

end Reiver.Pond

/-! # What block lookups find

A block only grows wider, the range index only gains entries, and the operations of a block manager are told apart by
what the lookup finds. -/

namespace Reiver.Pond
open PrimaryKey

/-! ### Blocks -/

namespace Block
variable {b : Block} {pk text : String}

theorem comparePks_ne_lt {x y : String} :
    b.comparePks x y ≠ .lt ↔ if b.isNumericPk then numericKey y ≤ numericKey x else y ≤ x := by
  rw [comparePks]
  split_ifs
  · rw [ne_eq, compare_lt_iff_lt, not_lt]
  · rw [ne_eq, compare_lt_iff_lt, not_lt]

theorem comparePks_ne_gt {x y : String} :
    b.comparePks x y ≠ .gt ↔ if b.isNumericPk then numericKey x ≤ numericKey y else x ≤ y := by
  rw [comparePks]
  split_ifs
  · rw [ne_eq, compare_gt_iff_gt, not_lt]
  · rw [ne_eq, compare_gt_iff_gt, not_lt]

theorem containsPk_iff : b.containsPk text = true ↔
    if b.isNumericPk then numericKey b.pkStart ≤ numericKey text ∧ numericKey text ≤ numericKey b.pkEnd
    else b.pkStart ≤ text ∧ text ≤ b.pkEnd := by
  rw [containsPk, decide_eq_true_eq, comparePks_ne_lt, comparePks_ne_gt]
  split_ifs
  · rfl
  · rfl

theorem widen {α : Type} [LinearOrder α] {first last a new : α} (h : first ≤ a ∧ a ≤ last ∨ a = new) :
    (if new < first then new else first) ≤ a ∧ a ≤ if last < new then new else last := by
  rcases h with ⟨hfirst, hlast⟩ | rfl
  · constructor
    · split_ifs with hlt
      · exact hlt.le.trans hfirst
      · exact hfirst
    · split_ifs with hlt
      · exact hlast.trans hlt.le
      · exact hlast
  · constructor
    · split_ifs with hlt
      · exact le_refl _
      · exact not_lt.mp hlt
    · split_ifs with hlt
      · exact le_refl _
      · exact not_lt.mp hlt

theorem containsPk_addRow (h : b.containsPk text = true ∨ text = pk) : (b.addRow pk).containsPk text = true := by
  rw [containsPk_iff] at h ⊢
  simp only [addRow, comparePks]
  by_cases hnumeric : b.isNumericPk = true
  · simp only [hnumeric, if_true] at h ⊢
    simp only [apply_ite numericKey, compare_lt_iff_lt, compare_gt_iff_gt]
    exact widen (h.imp_right (congrArg numericKey))
  · simp only [hnumeric, Bool.false_eq_true, if_false] at h ⊢
    simp only [compare_lt_iff_lt, compare_gt_iff_gt]
    exact widen h

end Block

/-! ### The structures of a block manager -/

namespace BlockManager
variable {m m' : BlockManager} {pk : PrimaryKey} {id : BlockId} {f : Block → Block} {threshold : Nat}

theorem getBlock_id {b : Block} (h : m.getBlock id = some b) : b.id = id := by
  rw [getBlock] at h
  exact of_decide_eq_true (List.find?_some (p := fun b : Block => decide (b.id = id)) h)

theorem getBlock_mem {b : Block} (h : m.getBlock id = some b) : b ∈ m.blocks := List.mem_of_find?_eq_some h

theorem getBlock_updateBlock (hf : ∀ b, (f b).id = b.id) (id' : BlockId) :
    (m.updateBlock id f).getBlock id' = (m.getBlock id').map fun b => if b.id = id then f b else b := by
  have hid : ∀ b : Block, (if b.id = id then f b else b).id = b.id := fun b => by
    split_ifs
    · exact hf b
    · rfl
  rw [getBlock, updateBlock, List.find?_map]
  refine congrArg (Option.map _) (congrArg (List.find? · m.blocks) (funext fun b => ?_))
  rw [Function.comp_apply, hid]

theorem rangeEntry_append {index : List (PrimaryKey × BlockId)} {e : PrimaryKey × BlockId} :
    rangeEntry (index ++ [e]) pk =
      if e.1 ≤ pk ∧ ∀ b ∈ rangeEntry index pk, b.1 ≤ e.1 then some e else rangeEntry index pk := by
  rw [rangeEntry, List.foldl_append]
  rfl

theorem rangeEntry_mem {index : List (PrimaryKey × BlockId)} {e : PrimaryKey × BlockId}
    (h : rangeEntry index pk = some e) : e ∈ index := by
  induction index using List.reverseRecOn with
  | nil => cases h
  | append_singleton index e' ih =>
    rw [rangeEntry_append] at h
    split_ifs at h
    · cases h
      exact List.mem_append_right _ (List.mem_singleton_self _)
    · exact List.mem_append_left _ (ih h)

theorem rangeLookup_mono (h : m.rangeLookup pk = some id)
    (hentry : rangeEntry m'.blockRangeIndex pk = rangeEntry m.blockRangeIndex pk)
    (hblock : ∀ b, m.getBlock id = some b → b.containsPk pk.toStringRepr = true →
      ∃ b', m'.getBlock id = some b' ∧ b'.containsPk pk.toStringRepr = true) : m'.rangeLookup pk = some id := by
  obtain ⟨e, he, h⟩ := Option.bind_eq_some_iff.mp h
  obtain ⟨b, hb, h⟩ := Option.bind_eq_some_iff.mp h
  split_ifs at h with hcontains
  cases h
  obtain ⟨b', hb', hcontains'⟩ := hblock b hb hcontains
  rw [rangeLookup, hentry, he, Option.bind_some, hb', Option.bind_some, if_pos hcontains']

theorem rangeLookup_entry (h : m.rangeLookup pk = some id) : ∃ e ∈ rangeEntry m.blockRangeIndex pk, e.2 = id := by
  obtain ⟨e, he, h⟩ := Option.bind_eq_some_iff.mp h
  obtain ⟨b, -, h⟩ := Option.bind_eq_some_iff.mp h
  split_ifs at h
  cases h
  exact ⟨e, he, rfl⟩

theorem rangeLookup_block (h : m.rangeLookup pk = some id) : ∃ b, m.getBlock id = some b := by
  obtain ⟨e, -, h⟩ := Option.bind_eq_some_iff.mp h
  obtain ⟨b, hb, h⟩ := Option.bind_eq_some_iff.mp h
  split_ifs at h
  cases h
  exact ⟨b, hb⟩

/-- The ids in use are below the next one, and the cache and the index hold ids in use. -/
structure Wellformed (m : BlockManager) : Prop where
  nodup : (m.blocks.map (·.id)).Nodup
  fresh : ∀ b ∈ m.blocks, b.id < m.nextBlockId
  indexed : ∀ e ∈ m.blockRangeIndex, e.2 < m.nextBlockId
  cached : ∀ text id, m.pkToBlock.lookup text = some id → ∃ b, m.getBlock id = some b

theorem totalRowCount_updateBlock (hnd : (m.blocks.map (·.id)).Nodup) {b : Block} (hb : m.getBlock id = some b) :
    (m.updateBlock id f).totalRowCount + b.rowCount = m.totalRowCount + (f b).rowCount := by
  have hmem := getBlock_mem hb
  have hid := getBlock_id hb
  rw [totalRowCount, totalRowCount, updateBlock]
  dsimp only
  generalize m.blocks = blocks at hnd hmem
  induction blocks with
  | nil => exact absurd hmem List.not_mem_nil
  | cons c blocks ih =>
    obtain ⟨hc, hnd⟩ := List.nodup_cons.mp hnd
    have hc : ∀ c' ∈ blocks, c'.id ≠ c.id := fun c' hmem heq => hc (List.mem_map.mpr ⟨c', hmem, heq⟩)
    rw [List.map_cons, List.foldr_cons, List.foldr_cons]
    by_cases hbc : b = c
    · subst hbc
      have hsame : blocks.map (fun c => if c.id = id then f c else c) = blocks := by
        refine (List.map_congr_left fun c hmem => if_neg fun heq => ?_).trans (List.map_id _)
        exact hc c hmem (heq.trans hid.symm)
      rw [if_pos hid, hsame]
      omega
    · have hmem := (List.mem_cons.mp hmem).resolve_left hbc
      have hne : c.id ≠ id := fun heq => hc b hmem (hid.trans heq.symm)
      have ih := ih hnd hmem
      rw [if_neg hne]
      omega

/-! ### What the operations do -/

theorem findBlockForPk_some (h : (m.findBlockForPk pk).1 = some id) :
    m.pkToBlock.lookup pk.toStringRepr = some id ∧ (m.findBlockForPk pk).2 = m ∨
      m.pkToBlock.lookup pk.toStringRepr = none ∧ m.rangeLookup pk = some id ∧
        (m.findBlockForPk pk).2 = m.putPk pk id := by
  rw [findBlockForPk] at h ⊢
  cases hcache : m.pkToBlock.lookup pk.toStringRepr with
  | some id' =>
    rw [hcache] at h
    cases h
    exact .inl ⟨rfl, rfl⟩
  | none =>
    rw [hcache] at h
    cases hrange : m.rangeLookup pk with
    | some id' =>
      simp only [hrange] at h
      cases h
      exact .inr ⟨rfl, rfl, rfl⟩
    | none =>
      simp only [hrange] at h
      cases h

theorem findBlockForPk_none (h : (m.findBlockForPk pk).1 = none) :
    m.pkToBlock.lookup pk.toStringRepr = none ∧ m.rangeLookup pk = none ∧ m.findBlockForPk pk = (none, m) := by
  rw [findBlockForPk] at h ⊢
  cases hcache : m.pkToBlock.lookup pk.toStringRepr with
  | some id' =>
    rw [hcache] at h
    cases h
  | none =>
    rw [hcache] at h
    cases hrange : m.rangeLookup pk with
    | some id' =>
      simp only [hrange] at h
      cases h
    | none => exact ⟨rfl, rfl, rfl⟩

def receiver (threshold : Nat) (m : BlockManager) : Option Block :=
  (m.activeBlockId.bind m.getBlock).filter fun block => !block.shouldSplit threshold

/-- The manager with its active block closed. -/
def closeActive (m : BlockManager) : BlockManager :=
  match m.activeBlockId.bind m.getBlock with
  | some block => m.updateBlock block.id Block.close
  | none => m

theorem assignBlock_found (h : (m.findBlockForPk pk).1 = some id) :
    m.assignBlock threshold pk = ((id, false), (m.findBlockForPk pk).2) := by
  rw [assignBlock]
  generalize m.findBlockForPk pk = found at h
  obtain ⟨found, m'⟩ := found
  cases h
  rfl

theorem assignBlock_joined (h : (m.findBlockForPk pk).1 = none) {block : Block}
    (hb : m.receiver threshold = some block) :
    m.assignBlock threshold pk =
      ((block.id, false), (m.updateBlock block.id (·.addRow pk.toStringRepr)).putPk pk block.id) := by
  obtain ⟨hactive, hsplit⟩ := Option.filter_eq_some_iff.mp hb
  rw [assignBlock, (findBlockForPk_none h).2.2]
  dsimp only
  rw [hactive]
  dsimp only
  rw [if_neg (by simpa using hsplit)]

theorem assignBlock_opened (h : (m.findBlockForPk pk).1 = none) (hb : m.receiver threshold = none) :
    m.assignBlock threshold pk = m.closeActive.assignNew pk := by
  rw [assignBlock, (findBlockForPk_none h).2.2, closeActive]
  dsimp only
  rw [receiver] at hb
  cases hactive : m.activeBlockId.bind m.getBlock with
  | none => rfl
  | some block =>
    have hsplit : block.shouldSplit threshold = true := by
      have hfilter := Option.filter_eq_none_iff.mp (hactive ▸ hb) block rfl
      simpa using hfilter
    dsimp only
    rw [if_pos hsplit]

theorem handleDelete_found (h : (m.findBlockForPk pk).1 = some id) : m.handleDelete pk =
    (some id, ((m.findBlockForPk pk).2.updateBlock id Block.removeRow).popPk pk.toStringRepr) := by
  rw [handleDelete]
  generalize m.findBlockForPk pk = found at h
  obtain ⟨found, m'⟩ := found
  cases h
  rfl

theorem handleDelete_none (h : (m.findBlockForPk pk).1 = none) : m.handleDelete pk = (none, m) := by
  rw [handleDelete, (findBlockForPk_none h).2.2]

theorem findBlockForPk_blocks : (m.findBlockForPk pk).2.blocks = m.blocks := by
  cases h : (m.findBlockForPk pk).1 with
  | none => rw [(findBlockForPk_none h).2.2]
  | some id =>
    rcases findBlockForPk_some h with ⟨-, hm⟩ | ⟨-, -, hm⟩
    · rw [hm]
    · rw [hm]
      rfl

theorem updateBlock_ids (hf : ∀ b, (f b).id = b.id) : (m.updateBlock id f).blocks.map (·.id) = m.blocks.map (·.id) := by
  rw [updateBlock, List.map_map]
  refine List.map_congr_left fun b _ => ?_
  show (if b.id = id then f b else b).id = b.id
  split_ifs
  · exact hf b
  · rfl

theorem Wellformed.updateBlock (h : m.Wellformed) (hf : ∀ b, (f b).id = b.id) : (m.updateBlock id f).Wellformed where
  nodup := by
    rw [updateBlock_ids hf]
    exact h.nodup
  fresh b hb := by
    obtain ⟨c, hc, rfl⟩ := List.mem_map.mp hb
    have hid : (if c.id = id then f c else c).id = c.id := by
      split_ifs
      · exact hf c
      · rfl
    rw [hid]
    exact h.fresh c hc
  indexed := h.indexed
  cached text id' hcached := by
    obtain ⟨b, hb⟩ := h.cached text id' hcached
    exact ⟨_, by rw [getBlock_updateBlock hf, hb]; rfl⟩

theorem Wellformed.putPk (h : m.Wellformed) {b : Block} (hb : m.getBlock id = some b) : (m.putPk pk id).Wellformed where
  nodup := h.nodup
  fresh := h.fresh
  indexed := h.indexed
  cached text id' hcached := by
    have hcached : (m.pkToBlock.insert pk.toStringRepr id).lookup text = some id' := hcached
    rw [Dict.lookup_insert'] at hcached
    split_ifs at hcached
    · cases hcached
      exact ⟨b, hb⟩
    · exact h.cached text id' hcached

theorem Wellformed.popPk (h : m.Wellformed) {text : String} : (m.popPk text).Wellformed where
  nodup := h.nodup
  fresh := h.fresh
  indexed := h.indexed
  cached text' id' hcached := by
    have hcached : (m.pkToBlock.erase text).lookup text' = some id' := hcached
    by_cases heq : text' = text
    · subst heq
      rw [AList.lookup_erase] at hcached
      cases hcached
    · rw [AList.lookup_erase_ne heq] at hcached
      exact h.cached text' id' hcached

theorem assignNew_blocks (h : m.Wellformed) : (m.assignNew pk).2.blocks =
    m.blocks ++ [(Block.newWithPk m.nextBlockId pk).addRow pk.toStringRepr] := by
  have hne : ∀ b ∈ m.blocks, b.id ≠ m.nextBlockId := fun b hb => (h.fresh b hb).ne
  have hfilter : m.blocks.filter (·.id ≠ m.nextBlockId) = m.blocks :=
    List.filter_eq_self.mpr fun b hb => decide_eq_true (hne b hb)
  have hmap : m.blocks.map (fun b => if b.id = m.nextBlockId then b.addRow pk.toStringRepr else b) = m.blocks :=
    (List.map_congr_left fun b hb => if_neg (hne b hb)).trans (List.map_id _)
  show (m.blocks.filter (·.id ≠ m.nextBlockId) ++ [Block.newWithPk m.nextBlockId pk]).map
    (fun b => if b.id = m.nextBlockId then b.addRow pk.toStringRepr else b) = _
  have hid : (Block.newWithPk m.nextBlockId pk).id = m.nextBlockId := rfl
  rw [hfilter, List.map_append, hmap, List.map_singleton, if_pos hid]

theorem assignNew_getBlock (h : m.Wellformed) (id' : BlockId) : (m.assignNew pk).2.getBlock id' =
    if id' = m.nextBlockId then some ((Block.newWithPk m.nextBlockId pk).addRow pk.toStringRepr)
      else m.getBlock id' := by
  have hnew : ((Block.newWithPk m.nextBlockId pk).addRow pk.toStringRepr).id = m.nextBlockId := rfl
  rw [getBlock, assignNew_blocks h, List.find?_append, getBlock]
  by_cases hid : id' = m.nextBlockId
  · have hnone : m.blocks.find? (fun b => decide (b.id = id')) = none :=
      List.find?_eq_none.mpr fun b hb heq => (h.fresh b hb).ne ((of_decide_eq_true heq).trans hid)
    rw [hnone, if_pos hid, Option.none_or, List.find?_singleton, if_pos (decide_eq_true (hnew.trans hid.symm))]
  · have hne : ¬decide (((Block.newWithPk m.nextBlockId pk).addRow pk.toStringRepr).id = id') = true :=
      fun heq => hid ((of_decide_eq_true heq).symm.trans hnew)
    rw [if_neg hid, List.find?_singleton, if_neg hne, Option.or_none]

theorem Wellformed.assignNew (h : m.Wellformed) : (m.assignNew pk).2.Wellformed where
  nodup := by
    rw [assignNew_blocks h, List.map_append, List.map_singleton]
    refine List.nodup_append.mpr ⟨h.nodup, List.nodup_singleton _, ?_⟩
    intro id hid id' hid' heq
    obtain ⟨b, hb, rfl⟩ := List.mem_map.mp hid
    exact (h.fresh b hb).ne (heq.trans (List.mem_singleton.mp hid'))
  fresh b hb := by
    show b.id < m.nextBlockId + 1
    rw [assignNew_blocks h] at hb
    rcases List.mem_append.mp hb with hb | hb
    · exact Nat.lt_succ_of_lt (h.fresh b hb)
    · rw [List.mem_singleton.mp hb]
      exact Nat.lt_succ_self _
  indexed e he := by
    show e.2 < m.nextBlockId + 1
    rcases List.mem_append.mp he with he | he
    · exact Nat.lt_succ_of_lt (h.indexed e he)
    · rw [List.mem_singleton.mp he]
      exact Nat.lt_succ_self _
  cached text id hcached := by
    have hcached : (m.pkToBlock.insert pk.toStringRepr m.nextBlockId).lookup text = some id := hcached
    rw [assignNew_getBlock h]
    split_ifs with hid
    · exact ⟨_, rfl⟩
    · rw [Dict.lookup_insert'] at hcached
      split_ifs at hcached
      · exact absurd (Option.some.inj hcached).symm hid
      · exact h.cached text id hcached

end BlockManager

end Reiver.Pond
