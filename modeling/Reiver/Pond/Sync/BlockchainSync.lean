import Reiver.Lib.Fallible
import Reiver.Lib.HashChain
import Reiver.Lib.Int64
import Reiver.Lib.Run
import Reiver.Lib.Upsert

/-! # Sync of a blockchain

A cycle fetches the blocks behind the last synced height into buffer tables; after a reorganisation it purges the
buffers from the fork on and merges the new rows into the files. Another worker flushes the older rows of a buffer to
a file. The rows of the blocks are stored once, as the chain had them at the last checkpoint
(`blocks_storedOnce`). -/

namespace Reiver.Pond

/-! ### Files -/

/-- The names of the files of a table: `h{min}-{max}.parquet` and `h{min}-{max}_{seq}.parquet`. -/
inductive ChainFile where
  | flushed (min max : Nat)
  | merged (min max seq : Nat)
deriving DecidableEq

def ChainFile.filename : ChainFile → List Char
  | .flushed min max => 'h' :: (Nat.toDigits 10 min ++ '-' :: (Nat.toDigits 10 max ++ ".parquet".toList))
  | .merged min max seq =>
    'h' :: (Nat.toDigits 10 min ++ '-' :: (Nat.toDigits 10 max ++ '_' :: (Nat.toDigits 10 seq ++ ".parquet".toList)))

def parseHeightRange : List Char → Option (Nat × Nat)
  | 'h' :: rest => do
    let dash ← rest.findIdx? (· = '-')
    let underscore ← rest.findIdx? (· = '_')
    let min ← parseDigits (rest.take dash)
    let max ← parseDigits ((rest.take underscore).drop (dash + 1))
    some (min, max)
  | _ => none

/-- A file without heights in its name is always looked into. -/
def fileOverlapsRange (file : ChainFile) (reorgFrom reorgTo : Nat) : Bool :=
  match parseHeightRange file.filename with
  | some (fileFrom, fileTo) => fileFrom ≤ reorgTo && fileTo ≥ reorgFrom
  | none => true

theorem findIdx?_first {l : List Char} {c : Char} (hc : c ∉ l) (rest : List Char) :
    (l ++ c :: rest).findIdx? (· = c) = some l.length := by
  have hnone : l.findIdx? (· = c) = none :=
    List.findIdx?_eq_none_iff.mpr fun d hd => decide_eq_false fun hdc => hc (hdc ▸ hd)
  rw [List.findIdx?_append, hnone, List.findIdx?_cons, if_pos (decide_eq_true rfl)]
  simp

theorem notMem_toDigits {c : Char} (hc : c.isDigit = false) (n : Nat) : c ∉ Nat.toDigits 10 n := by
  intro hmem
  have hdigit := Nat.isDigit_of_mem_toDigits (by decide) (by decide) hmem
  rw [hc] at hdigit
  cases hdigit

theorem parseHeightRange_merged (min max seq : Nat) :
    parseHeightRange (ChainFile.merged min max seq).filename = some (min, max) := by
  let heights := Nat.toDigits 10 min ++ '-' :: Nat.toDigits 10 max
  let tail := Nat.toDigits 10 seq ++ ".parquet".toList
  have hname : Nat.toDigits 10 min ++ '-' :: (Nat.toDigits 10 max ++ '_' :: tail) = heights ++ '_' :: tail := by
    simp [heights]
  have hnot : '_' ∉ heights := by
    simp [heights, notMem_toDigits (c := '_') rfl]
  have hmax : heights.drop ((Nat.toDigits 10 min).length + 1) = Nat.toDigits 10 max := by
    rw [show heights = (Nat.toDigits 10 min ++ ['-']) ++ Nat.toDigits 10 max by simp [heights]]
    exact List.drop_left' (by simp)
  rw [ChainFile.filename, parseHeightRange, findIdx?_first (notMem_toDigits rfl min) _, Option.bind_eq_bind,
    Option.bind_some, hname, findIdx?_first hnot]
  rw [Option.bind_some, List.take_left, hmax, ← hname, List.take_left, parseDigits_toDigits,
    parseDigits_toDigits]
  rfl

theorem parseHeightRange_flushed (min max : Nat) : parseHeightRange (ChainFile.flushed min max).filename = none := by
  have hnone :
    (Nat.toDigits 10 min ++ '-' :: (Nat.toDigits 10 max ++ ".parquet".toList)).findIdx? (· = '_') = none := by
    refine List.findIdx?_eq_none_iff.mpr fun d hd => decide_eq_false fun hdc => ?_
    have hmem : '_' ∈ Nat.toDigits 10 min ++ '-' :: (Nat.toDigits 10 max ++ ".parquet".toList) := hdc ▸ hd
    simp [notMem_toDigits (c := '_') rfl] at hmem
  rw [ChainFile.filename, parseHeightRange, findIdx?_first (notMem_toDigits rfl min) _, Option.bind_eq_bind,
    Option.bind_some, hnone]
  rfl

theorem fileOverlapsRange_merged {min max seq reorgFrom reorgTo : Nat} :
    fileOverlapsRange (.merged min max seq) reorgFrom reorgTo = true ↔ min ≤ reorgTo ∧ reorgFrom ≤ max := by
  rw [fileOverlapsRange, parseHeightRange_merged]
  simp

theorem fileOverlapsRange_flushed {min max reorgFrom reorgTo : Nat} :
    fileOverlapsRange (.flushed min max) reorgFrom reorgTo = true := by
  rw [fileOverlapsRange, parseHeightRange_flushed]

/-! ### State -/

/-- The tables of a chain. The rows of a block carry its height. -/
structure ChainSchema (T B R K : Type) where
  allTables : List T
  rows : T → Nat → B → List R
  height : T → R → Nat
  primaryKey : T → R → K
  height_rows : ∀ t h b, ∀ r ∈ rows t h b, height t r = h

/-- The row of `blockchain_global_sources`, the buffer tables and the files. -/
structure ChainStore (T R η : Type) where
  lastSynced : Nat := 0
  tipHashes : List (Nat × η) := []
  buffer : T → List R
  files : T → List (ChainFile × List R)

/-- The store and the chain that the node has. -/
structure ChainWorld (T B R η : Type) where
  store : ChainStore T R η
  node : List B

/-- The other requests to the stores come through. -/
inductive ChainAction (T B : Type) where
  | reorganise (node : List B)
  /-- The chain when the blocks and when the hashes are fetched, the tables purged and written, and the old files that
      could not be deleted. -/
  | sync (fetched hashed : List B) (purged written : T → Bool) (undeleted : List ChainFile)
  /-- Whether the rows were deleted from the buffer. -/
  | flush (t : T) (deleted : Bool)

section Steps
variable {T B R K η : Type} [DecidableEq T] [DecidableEq K] [DecidableEq η]
variable (H : ChainHashing B η) (S : ChainSchema T B R K) (split : List R → List (List R)) (confirmationDepth : Nat)

/-! ### The node -/

/-- The hashes of some heights; nothing if the node does not know one of them. -/
def blockHashes (node : List B) (heights : List Nat) : Option (List (Nat × η)) :=
  heights.mapM fun h => node[h]?.map fun b => (h, H.hash b)

def fetchBlockRange (node : List B) (fromHeight toHeight : Nat) : Option (List (Nat × B)) :=
  (List.range' fromHeight (toHeight + 1 - fromHeight)).mapM fun h => node[h]?.map fun b => (h, b)

/-- The heights that count as mutable under a tip. -/
def tipWindow (tip : Nat) : List Nat :=
  let start := tip - (max confirmationDepth 1 - 1)
  List.range' start (tip + 1 - start)

def buildTipHashes (node : List B) (tip : Nat) : Option (List (Nat × η)) :=
  blockHashes H node (tipWindow confirmationDepth tip)

/-- The fork point, and whether there is one. -/
def detectReorg (node : List B) (s : ChainStore T R η) : Option (Nat × Bool) :=
  if s.lastSynced = 0 then some (0, false)
  else
    let heightsToCheck := (tipWindow confirmationDepth s.lastSynced).filter fun h => (s.tipHashes.lookup h).isSome
    (blockHashes H node heightsToCheck).map fun results =>
      match results.find? fun e => s.tipHashes.lookup e.1 ≠ some e.2 with
      | some e => (e.1 - 1, true)
      | none => (0, false)

/-! ### Writing -/

def tableRows (t : T) (blocks : List (Nat × B)) : List R := blocks.flatMap fun e => S.rows t e.1 e.2

/-- `delete_from_raw` of the tables that are purged. -/
def purgeBuffers (purged : T → Bool) (fromHeight : Nat) (s : ChainStore T R η) : ChainStore T R η :=
  { s with buffer := fun t =>
    if t ∈ S.allTables ∧ purged t then (s.buffer t).filter (S.height t · < fromHeight) else s.buffer t }

def overlappingFiles (fromHeight toHeight : Nat) (files : List (ChainFile × List R)) :
    List (ChainFile × List R) :=
  files.filter fun f => fileOverlapsRange f.1 fromHeight toHeight

/-- The heights of the new rows and of the files that have heights in their names. -/
def actualRange (fromHeight toHeight : Nat) (overlapping : List (ChainFile × List R)) : Nat × Nat :=
  let ranges := overlapping.filterMap fun f => parseHeightRange f.1.filename
  (ranges.foldl (fun m range => min m range.1) fromHeight, ranges.foldl (fun m range => max m range.2) toHeight)

def mergeOnWriteTable (undeleted : List ChainFile) (t : T) (newRows : List R) (fromHeight toHeight : Nat)
    (files : List (ChainFile × List R)) : List (ChainFile × List R) :=
  let overlapping := overlappingFiles fromHeight toHeight files
  let actual := actualRange fromHeight toHeight overlapping
  let oldKeys := overlapping.map Prod.fst
  let merged := upsert (S.primaryKey t) (overlapping.flatMap Prod.snd) newRows
  if merged = [] then files
  else
    let uploads := (split merged).zipIdx.map fun chunk => (ChainFile.merged actual.1 actual.2 chunk.2, chunk.1)
    let newKeys := uploads.map Prod.fst
    let uploaded := files.filter (fun f => f.1 ∉ newKeys) ++ uploads
    uploaded.filter fun f => f.1 ∉ oldKeys ∨ f.1 ∈ newKeys ∨ f.1 ∈ undeleted

def appendTable (t : T) (newRows : List R) (s : ChainStore T R η) : List R := s.buffer t ++ newRows

/-- The tables that are written; those without new rows are left alone. -/
def writeTables (written : T → Bool) (undeleted : List ChainFile) (reorgDetected : Bool) (blocks : List (Nat × B))
    (fromHeight toHeight : Nat) (s : ChainStore T R η) : ChainStore T R η :=
  { s with
    buffer := fun t =>
      let newRows := tableRows S t blocks
      if (t ∈ S.allTables ∧ written t) ∧ newRows ≠ [] ∧ reorgDetected = false then appendTable t newRows s
        else s.buffer t
    files := fun t =>
      let newRows := tableRows S t blocks
      if (t ∈ S.allTables ∧ written t) ∧ newRows ≠ [] ∧ reorgDetected = true then
        mergeOnWriteTable S split undeleted t newRows fromHeight toHeight (s.files t)
      else s.files t }

/-! ### Steps -/

def maxBlocksPerCycle : Nat := 100

/-- From the fetched blocks to the checkpoint; without a checkpoint what was written stays. -/
def storeBlocks (hashed : List B) (purged written : T → Bool) (undeleted : List ChainFile) (reorgDetected : Bool)
    (blocks : List (Nat × B)) (fromHeight effectiveTip : Nat) (s : ChainStore T R η) : ChainStore T R η :=
  let s := if reorgDetected then purgeBuffers S purged fromHeight s else s
  if reorgDetected ∧ ¬S.allTables.all purged then s
  else
    let s := writeTables S split written undeleted reorgDetected blocks fromHeight effectiveTip s
    if S.allTables.all written then
      match buildTipHashes H confirmationDepth hashed effectiveTip with
      | some hashes => { s with lastSynced := effectiveTip, tipHashes := hashes }
      | none => s
    else s

/-- `sync_bitcoin` and `sync_ethereum`; the tip and the hashes for the detection are those of `node`. -/
def syncChain (node fetched hashed : List B) (purged written : T → Bool) (undeleted : List ChainFile)
    (s : ChainStore T R η) : ChainStore T R η :=
  let currentTip := node.length - 1
  if currentTip = s.lastSynced ∧ 0 < s.lastSynced then s
  else
    match detectReorg H confirmationDepth node s with
    | none => s
    | some (forkPoint, reorgDetected) =>
      let fromHeight := if reorgDetected then forkPoint + 1 else if s.lastSynced = 0 then 0 else s.lastSynced + 1
      if currentTip < fromHeight then s
      else
        let effectiveTip := min currentTip (fromHeight + maxBlocksPerCycle - 1)
        match fetchBlockRange fetched fromHeight effectiveTip with
        | none => s
        | some blocks =>
          storeBlocks H S split confirmationDepth hashed purged written undeleted reorgDetected blocks fromHeight
            effectiveTip s

def flushSingleTable (t : T) (deleted : Bool) (s : ChainStore T R η) : ChainStore T R η :=
  let maxHeight := ((s.buffer t).map (S.height t)).foldl max 0
  let cutoff := maxHeight - confirmationDepth
  if maxHeight = 0 ∨ cutoff = 0 then s
  else
    let exported := (s.buffer t).filter (S.height t · < cutoff)
    match (exported.map (S.height t)).min? with
    | none => s
    | some minHeight =>
      let key := ChainFile.flushed minHeight (cutoff - 1)
      { s with
        buffer := fun t' => if t' = t ∧ deleted then (s.buffer t').filter (cutoff ≤ S.height t ·) else s.buffer t'
        files := fun t' =>
          if t' = t then (s.files t').filter (fun f => f.1 ≠ key) ++ [(key, exported)] else s.files t' }

def chainStep (w : ChainWorld T B R η) : ChainAction T B → Option (ChainWorld T B R η)
  | .reorganise node => some { w with node }
  | .sync fetched hashed purged written undeleted =>
    some ⟨syncChain H S split confirmationDepth w.node fetched hashed purged written undeleted w.store, hashed⟩
  | .flush t deleted => some { w with store := flushSingleTable S confirmationDepth t deleted w.store }

end Steps

/-! ### What is stored -/

section Stored
variable {T B R K η : Type} {S : ChainSchema T B R K} {t : T} {node base : List B} {n m fromHeight : Nat}

/-- The rows of a table, in its buffer and its files. -/
def ChainStore.stored (s : ChainStore T R η) (t : T) : List R := s.buffer t ++ (s.files t).flatMap Prod.snd

def rowsAt (S : ChainSchema T B R K) (t : T) (chain : List B) (heights : List Nat) : List R :=
  heights.flatMap fun h => (chain[h]?).toList.flatMap (S.rows t h)

/-- The number of blocks under the last synced height; there are none before the first cycle. -/
def ChainStore.syncedBlocks (s : ChainStore T R η) : Nat := if s.lastSynced = 0 then 0 else s.lastSynced + 1

theorem rowsAt_append (chain : List B) (l l' : List Nat) :
    rowsAt S t chain (l ++ l') = rowsAt S t chain l ++ rowsAt S t chain l' := List.flatMap_append

theorem rowsAt_congr {l : List Nat} (h : ∀ k ∈ l, node[k]? = base[k]?) : rowsAt S t node l = rowsAt S t base l := by
  induction l with
  | nil => rfl
  | cons k l ih =>
    obtain ⟨hk, hl⟩ := List.forall_mem_cons.mp h
    have hrest := ih hl
    rw [rowsAt, rowsAt] at hrest ⊢
    rw [List.flatMap_cons, List.flatMap_cons, hk, hrest]

theorem height_of_mem_rowsAt {l : List Nat} {r : R} (h : r ∈ rowsAt S t node l) : S.height t r ∈ l := by
  obtain ⟨k, hk, hr⟩ := List.mem_flatMap.mp h
  obtain ⟨b, _, hrow⟩ := List.mem_flatMap.mp hr
  rw [S.height_rows t k b r hrow]
  exact hk

theorem rowsAt_range_add (n m : Nat) : rowsAt S t node (List.range (n + m)) =
    rowsAt S t node (List.range n) ++ rowsAt S t node (List.range' n m) := by
  have hsplit : List.range (n + m) = List.range n ++ List.range' n m := by
    rw [List.range_eq_range', List.range_eq_range']
    have h := @List.range'_append_1 0 n m
    rw [Nat.zero_add] at h
    exact h.symm
  rw [hsplit, rowsAt_append]

theorem filter_rowsAt (hle : n ≤ m) :
    (rowsAt S t node (List.range m)).filter (S.height t · < n) = rowsAt S t node (List.range n) := by
  rw [← Nat.add_sub_of_le hle, rowsAt_range_add, List.filter_append]
  have hbelow : (rowsAt S t node (List.range n)).filter (S.height t · < n) = rowsAt S t node (List.range n) :=
    List.filter_eq_self.mpr fun r hr => decide_eq_true (List.mem_range.mp (height_of_mem_rowsAt hr))
  have habove : (rowsAt S t node (List.range' n (m - n))).filter (S.height t · < n) = [] := by
    refine List.filter_eq_nil_iff.mpr fun r hr hlt => ?_
    have hge := (List.mem_range'_1.mp (height_of_mem_rowsAt hr)).1
    exact absurd (of_decide_eq_true hlt) (Nat.not_lt.mpr hge)
  rw [hbelow, habove, List.append_nil]

theorem tableRows_fetched {toHeight : Nat} {blocks : List (Nat × B)}
    (h : fetchBlockRange node fromHeight toHeight = some blocks) :
    tableRows S t blocks = rowsAt S t node (List.range' fromHeight (toHeight + 1 - fromHeight)) := by
  rw [fetchBlockRange] at h
  generalize List.range' fromHeight (toHeight + 1 - fromHeight) = l at h
  induction l generalizing blocks with
  | nil =>
    cases h
    rfl
  | cons k l ih =>
    rw [List.mapM_cons, Option.bind_eq_bind, Option.bind_eq_some_iff] at h
    obtain ⟨e, he, hrest⟩ := h
    obtain ⟨rest, hmap, hblocks⟩ := Option.bind_eq_some_iff.mp hrest
    cases hblocks
    obtain ⟨b, hb, rfl⟩ := Option.map_eq_some_iff.mp he
    rw [tableRows, List.flatMap_cons, rowsAt, List.flatMap_cons, hb]
    exact congrArg₂ (· ++ ·) (List.append_nil _).symm (ih hmap)

end Stored

/-! ### Detection -/

section Detection
variable {T B R η : Type} {H : ChainHashing B η} {confirmationDepth : Nat} {s : ChainStore T R η}
  {node base : List B} {forkPoint h tip : Nat}

theorem mem_tipWindow : h ∈ tipWindow confirmationDepth tip ↔ h ≤ tip ∧ tip < h + max confirmationDepth 1 := by
  rw [tipWindow, List.mem_range'_1]
  omega

def HashesOf (H : ChainHashing B η) (confirmationDepth : Nat) (s : ChainStore T R η) (base : List B) : Prop :=
  ∀ h ∈ tipWindow confirmationDepth s.lastSynced, ∃ b, base[h]? = some b ∧ s.tipHashes.lookup h = some (H.hash b)

theorem mem_blockHashes {heights : List Nat} {results : List (Nat × η)} {e : Nat × η}
    (hresults : blockHashes H node heights = some results) :
    e ∈ results ↔ ∃ h ∈ heights, ∃ b, node[h]? = some b ∧ (h, H.hash b) = e := by
  rw [mem_of_mapM_some hresults]
  exact exists_congr fun h => and_congr_right fun _ => Option.map_eq_some_iff

theorem blockHashes_heights {heights : List Nat} {results : List (Nat × η)}
    (hresults : blockHashes H node heights = some results) : results.map Prod.fst = heights := by
  induction heights generalizing results with
  | nil =>
    cases hresults
    rfl
  | cons h heights ih =>
    rw [blockHashes, List.mapM_cons] at hresults
    obtain ⟨e, he, hresults⟩ := Option.bind_eq_some_iff.mp hresults
    obtain ⟨rest, hrest, hresults⟩ := Option.bind_eq_some_iff.mp hresults
    cases hresults
    obtain ⟨b, -, rfl⟩ := Option.map_eq_some_iff.mp he
    rw [List.map_cons, ih hrest]

theorem agree_of_hash {b : B} (hbase : HashesOf H confirmationDepth s base)
    (hh : h ∈ tipWindow confirmationDepth s.lastSynced) (hb : node[h]? = some b)
    (hlookup : s.tipHashes.lookup h = some (H.hash b)) : node[h]? = base[h]? := by
  obtain ⟨b', hb', hlookup'⟩ := hbase h hh
  have heq : b = b' := H.injective (Option.some_inj.mp (hlookup.symm.trans hlookup'))
  rw [hb, hb', heq]

/-- What the detection says of a chain that agrees with the stored one under the window. -/
theorem detectReorg_cases [DecidableEq η] {r : Nat × Bool} (hpos : 0 < s.lastSynced) (hnode : H.Linked node)
    (hlinked : H.Linked base) (hbase : HashesOf H confirmationDepth s base)
    (hbelow : ∀ h, h + max confirmationDepth 1 ≤ s.lastSynced → node[h]? = base[h]?)
    (hdetect : detectReorg H confirmationDepth node s = some r) :
    s.lastSynced < node.length ∧
      ((r.2 = false ∧ ∀ h ≤ s.lastSynced, node[h]? = base[h]?) ∨
        ∃ h ∈ tipWindow confirmationDepth s.lastSynced, r = (h - 1, true) ∧ node[h]? ≠ base[h]? ∧
          ∀ g < h, node[g]? = base[g]?) := by
  have hstored : ((tipWindow confirmationDepth s.lastSynced).filter fun h => (s.tipHashes.lookup h).isSome) =
      tipWindow confirmationDepth s.lastSynced := by
    refine List.filter_eq_self.mpr fun h hh => ?_
    obtain ⟨b, _, hlookup⟩ := hbase h hh
    rw [hlookup]
    rfl
  have hlast : s.lastSynced ∈ tipWindow confirmationDepth s.lastSynced := mem_tipWindow.mpr (by omega)
  rw [detectReorg, if_neg (Nat.ne_of_gt hpos)] at hdetect
  dsimp only at hdetect
  rw [hstored] at hdetect
  obtain ⟨results, hresults, hr⟩ := Option.map_eq_some_iff.mp hdetect
  have hreach : ∀ h ∈ tipWindow confirmationDepth s.lastSynced, ∃ b, node[h]? = some b ∧ (h, H.hash b) ∈ results := by
    intro h hh
    rw [← blockHashes_heights hresults] at hh
    obtain ⟨e, he, rfl⟩ := List.mem_map.mp hh
    obtain ⟨g, _, b, hb, rfl⟩ := (mem_blockHashes hresults).mp he
    exact ⟨b, hb, he⟩
  obtain ⟨tipBlock, htip, htipmem⟩ := hreach _ hlast
  refine ⟨(List.getElem?_eq_some_iff.mp htip).1, ?_⟩
  cases hfind : results.find? fun e => s.tipHashes.lookup e.1 ≠ some e.2 with
  | none =>
    rw [hfind] at hr
    cases hr
    have hsame := of_not_not (of_decide_eq_false (Bool.eq_false_of_not_eq_true (List.find?_eq_none.mp hfind _ htipmem)))
    have hagree := agree_of_hash hbase hlast htip hsame
    exact .inl ⟨rfl, fun h hle => hnode.agree_below hlinked htip (hagree ▸ htip) hle⟩
  | some e =>
    rw [hfind] at hr
    cases hr
    obtain ⟨hmis, before, after, hsplit, hmatch⟩ := List.find?_eq_some_iff_append.mp hfind
    obtain ⟨h, hh, b, hb, rfl⟩ := (mem_blockHashes hresults).mp (hsplit ▸ List.mem_append_right _ List.mem_cons_self)
    refine .inr ⟨h, hh, rfl, fun hsame => ?_, fun g hg => ?_⟩
    · obtain ⟨b', hb', hlookup⟩ := hbase h hh
      have heq : b = b' := Option.some_inj.mp (hb.symm.trans (hsame.trans hb'))
      exact of_decide_eq_true hmis (by rw [hlookup, heq])
    · by_cases hdeep : g + max confirmationDepth 1 ≤ s.lastSynced
      · exact hbelow g hdeep
      · have hmem := mem_tipWindow.mp hh
        have hpred : h - 1 ∈ tipWindow confirmationDepth s.lastSynced := mem_tipWindow.mpr (by omega)
        obtain ⟨b₁, hb₁, hin⟩ := hreach _ hpred
        -- the hashes stand in the order of their heights, so this one was compared before
        have hsorted : (results.map Prod.fst).Pairwise (· < ·) := by
          rw [blockHashes_heights hresults]
          exact List.pairwise_lt_range' _
        rw [hsplit, List.map_append, List.map_cons, List.pairwise_append, List.pairwise_cons] at hsorted
        rw [hsplit] at hin
        rcases List.mem_append.mp hin with hin | hin
        · have hlookup := hmatch _ hin
          have hagree := agree_of_hash hbase hpred hb₁ (by simpa using hlookup)
          exact hnode.agree_below hlinked hb₁ (hagree ▸ hb₁) (by omega)
        · rcases List.mem_cons.mp hin with heq | hin
          · have := congrArg Prod.fst heq
            dsimp only at this
            omega
          · have := hsorted.2.1.1 (h - 1) (List.mem_map.mpr ⟨_, hin, rfl⟩)
            omega

end Detection

/-! ### Merging -/

section Merging
variable {T B R K : Type} [DecidableEq K] {S : ChainSchema T B R K} {split : List R → List (List R)} {t : T}
  {node : List B} {fromHeight toHeight : Nat} {newRows : List R} {files : List (ChainFile × List R)} {l : List Nat}

theorem actualRange_covers (fromHeight toHeight : Nat) (overlapping : List (ChainFile × List R)) :
    (actualRange fromHeight toHeight overlapping).1 ≤ fromHeight ∧
      toHeight ≤ (actualRange fromHeight toHeight overlapping).2 := by
  have hmin : ∀ (ranges : List (Nat × Nat)) (a : Nat), ranges.foldl (fun m range => min m range.1) a ≤ a := by
    intro ranges
    induction ranges with
    | nil => exact Nat.le_refl
    | cons range ranges ih => exact fun a => (ih _).trans (Nat.min_le_left _ _)
  have hmax : ∀ (ranges : List (Nat × Nat)) (a : Nat), a ≤ ranges.foldl (fun m range => max m range.2) a := by
    intro ranges
    induction ranges with
    | nil => exact Nat.le_refl
    | cons range ranges ih => exact fun a => (Nat.le_max_left _ _).trans (ih _)
  exact ⟨hmin _ _, hmax _ _⟩

/-- The files that are looked into are replaced by those of the merged rows. -/
theorem mergeOnWriteTable_eq (hle : fromHeight ≤ toHeight)
    (hmerged : upsert (S.primaryKey t) ((overlappingFiles fromHeight toHeight files).flatMap Prod.snd) newRows ≠ []) :
    mergeOnWriteTable S split [] t newRows fromHeight toHeight files =
      files.filter (fun f => !fileOverlapsRange f.1 fromHeight toHeight) ++
        (split (upsert (S.primaryKey t) ((overlappingFiles fromHeight toHeight files).flatMap Prod.snd)
          newRows)).zipIdx.map fun chunk =>
            (ChainFile.merged (actualRange fromHeight toHeight (overlappingFiles fromHeight toHeight files)).1
              (actualRange fromHeight toHeight (overlappingFiles fromHeight toHeight files)).2 chunk.2, chunk.1) := by
  obtain ⟨hmin, hmax⟩ := actualRange_covers fromHeight toHeight (overlappingFiles fromHeight toHeight files)
  rw [mergeOnWriteTable]
  dsimp only
  rw [if_neg hmerged, List.filter_append, List.filter_filter]
  congr 1
  · refine List.filter_congr fun f hf => ?_
    by_cases hoverlap : fileOverlapsRange f.1 fromHeight toHeight = true
    · have hold : f.1 ∈ (overlappingFiles fromHeight toHeight files).map Prod.fst :=
        List.mem_map_of_mem (List.mem_filter.mpr ⟨hf, hoverlap⟩)
      simp [hoverlap, hold]
    · have hnew : f.1 ∉ ((split (upsert (S.primaryKey t)
          ((overlappingFiles fromHeight toHeight files).flatMap Prod.snd) newRows)).zipIdx.map fun chunk =>
            (ChainFile.merged (actualRange fromHeight toHeight (overlappingFiles fromHeight toHeight files)).1
              (actualRange fromHeight toHeight (overlappingFiles fromHeight toHeight files)).2 chunk.2, chunk.1)).map
                Prod.fst := by
        intro hmem
        obtain ⟨_, hupload, hkey⟩ := List.mem_map.mp hmem
        obtain ⟨chunk, _, rfl⟩ := List.mem_map.mp hupload
        exact hoverlap (hkey ▸ fileOverlapsRange_merged.mpr ⟨hmin.trans hle, hle.trans hmax⟩)
      have hold : f.1 ∉ (overlappingFiles fromHeight toHeight files).map Prod.fst := by
        intro hmem
        obtain ⟨g, hg, hkey⟩ := List.mem_map.mp hmem
        exact hoverlap (hkey ▸ (List.mem_filter.mp hg).2)
      rw [decide_eq_true hnew, decide_eq_true (.inl hold), Bool.eq_false_of_not_eq_true hoverlap]
      rfl
  · refine List.filter_eq_self.mpr fun f hf => decide_eq_true ?_
    exact .inr (.inl (List.mem_map_of_mem hf))

theorem flatMap_mergeOnWriteTable (hsplit : ∀ l, (split l).flatten = l) (hle : fromHeight ≤ toHeight)
    (hnew : newRows ≠ []) :
    (mergeOnWriteTable S split [] t newRows fromHeight toHeight files).flatMap Prod.snd =
      (files.filter fun f => !fileOverlapsRange f.1 fromHeight toHeight).flatMap Prod.snd ++
        upsert (S.primaryKey t) ((overlappingFiles fromHeight toHeight files).flatMap Prod.snd) newRows := by
  have hmerged : upsert (S.primaryKey t) ((overlappingFiles fromHeight toHeight files).flatMap Prod.snd) newRows ≠ [] :=
    fun h => hnew (upsert_eq_nil h).2
  rw [mergeOnWriteTable_eq hle hmerged, List.flatMap_append, List.flatMap_map]
  congr 1
  generalize upsert (S.primaryKey t) ((overlappingFiles fromHeight toHeight files).flatMap Prod.snd) newRows = merged
  calc (split merged).zipIdx.flatMap Prod.fst
    _ = ((split merged).zipIdx.map Prod.fst).flatten := List.flatMap_def
    _ = merged := by rw [List.zipIdx_map_fst, hsplit]

end Merging

/-! ### Blocks -/

section Blocks
variable {T B R K : Type} {S : ChainSchema T B R K} {t : T} {node : List B} {l : List Nat}

/-- Every block gives the table one row, and its key is the height. -/
structure KeyedByHeight (S : ChainSchema T B R K) (t : T) : Prop where
  mem : t ∈ S.allTables
  one : ∀ h b, ∃ r, S.rows t h b = [r]
  key_iff : ∀ r r', S.primaryKey t r = S.primaryKey t r' ↔ S.height t r = S.height t r'

theorem heights_rowsAt (hblocks : KeyedByHeight S t) (node : List B) (hl : ∀ h ∈ l, h < node.length) :
    (rowsAt S t node l).map (S.height t) = l := by
  induction l with
  | nil => rfl
  | cons h l ih =>
    obtain ⟨hh, hl⟩ := List.forall_mem_cons.mp hl
    obtain ⟨r, hr⟩ := hblocks.one h node[h]
    have hheight : S.height t r = h := S.height_rows t h node[h] r (hr ▸ List.mem_singleton_self r)
    have hrest := ih hl
    rw [rowsAt] at hrest ⊢
    rw [List.flatMap_cons, List.getElem?_eq_getElem hh, Option.toList_some, List.flatMap_singleton, hr, List.map_append,
      hrest, List.map_singleton, hheight, List.singleton_append]

theorem rowsAt_ne_nil {fromHeight toHeight : Nat} (hblocks : KeyedByHeight S t) (hreach : toHeight < node.length)
    (hle : fromHeight ≤ toHeight) : rowsAt S t node (List.range' fromHeight (toHeight + 1 - fromHeight)) ≠ [] := by
  intro hnil
  have hheights := heights_rowsAt (l := List.range' fromHeight (toHeight + 1 - fromHeight)) hblocks node
    fun h hh => by
      have := List.mem_range'_1.mp hh
      omega
  rw [hnil] at hheights
  have := congrArg List.length hheights
  rw [List.length_range', List.map_nil, List.length_nil] at this
  omega

theorem upsert_rowsAt [DecidableEq K] {old : List R} {fromHeight toHeight : Nat} (hblocks : KeyedByHeight S t)
    (hreach : toHeight < node.length) (hold : ∀ r ∈ old, S.height t r ≤ toHeight) :
    upsert (S.primaryKey t) old (rowsAt S t node (List.range' fromHeight (toHeight + 1 - fromHeight))) =
      old.filter (S.height t · < fromHeight) ++ rowsAt S t node
        (List.range' fromHeight (toHeight + 1 - fromHeight)) := by
  have hl : ∀ h ∈ List.range' fromHeight (toHeight + 1 - fromHeight), h < node.length := fun h hh => by
    have := List.mem_range'_1.mp hh
    omega
  have hheights := heights_rowsAt hblocks node hl
  have hnd : ((rowsAt S t node (List.range' fromHeight (toHeight + 1 - fromHeight))).map (S.primaryKey t)).Nodup := by
    have hnd := hheights ▸ List.nodup_range' (s := fromHeight) (n := toHeight + 1 - fromHeight)
    refine List.Nodup.map_on (fun r hr r' hr' hkey => ?_) (List.Nodup.of_map _ hnd)
    exact List.inj_on_of_nodup_map hnd hr hr' ((hblocks.key_iff r r').mp hkey)
  rw [upsert, keepLast_eq_self hnd]
  congr 1
  refine List.filter_congr fun r hr => ?_
  have hiff : (∃ b ∈ rowsAt S t node (List.range' fromHeight (toHeight + 1 - fromHeight)),
      S.primaryKey t b = S.primaryKey t r) ↔ fromHeight ≤ S.height t r := by
    have hle := hold r hr
    constructor
    · rintro ⟨b, hb, hkey⟩
      rw [← (hblocks.key_iff b r).mp hkey]
      exact (List.mem_range'_1.mp (height_of_mem_rowsAt hb)).1
    · intro hfrom
      have hmem : S.height t r ∈ List.range' fromHeight (toHeight + 1 - fromHeight) :=
        List.mem_range'_1.mpr (by omega)
      rw [← hheights] at hmem
      obtain ⟨b, hb, hheight⟩ := List.mem_map.mp hmem
      exact ⟨b, hb, (hblocks.key_iff b r).mpr hheight⟩
  exact decide_eq_decide.mpr ((not_congr hiff).trans Nat.not_le)

end Blocks

/-! ### Runs -/

section Runs
variable {T B R K η : Type} (H : ChainHashing B η) (S : ChainSchema T B R K) (confirmationDepth : Nat) (t : T)

/-- What the name of a file says of its rows. -/
def FileNamed (lastSynced : Nat) : ChainFile → List R → Prop
  | .flushed min _, rows => ∃ r ∈ rows, S.height t r = min
  | .merged min max _, rows => min ≤ lastSynced ∧ ∀ r ∈ rows, S.height t r ≤ max

/-- A table holds the rows of the blocks that a chain had at the last checkpoint, each once. The node may have left that
    chain since, but not under the confirmed blocks. -/
structure HoldsChain (base : List B) (w : ChainWorld T B R η) : Prop where
  linkedNode : H.Linked w.node
  long : 2 ≤ w.node.length
  linkedBase : H.Linked base
  reach : w.store.lastSynced < base.length
  genesis : w.node[0]? = base[0]?
  buried : ∀ h, h + max confirmationDepth 1 ≤ w.store.lastSynced → w.node[h]? = base[h]?
  hashes : 0 < w.store.lastSynced → HashesOf H confirmationDepth w.store base
  rows : (w.store.stored t).Perm (rowsAt S t base (List.range w.store.syncedBlocks))
  files : ∀ f ∈ w.store.files t, FileNamed S t w.store.lastSynced f.1 f.2

/-- Reorganisations leave the confirmed blocks, the node keeps its chain during a cycle, and every request to the stores
    comes through. -/
def Steady (w : ChainWorld T B R η) : ChainAction T B → Prop
  | .reorganise node => H.Linked node ∧ 2 ≤ node.length ∧ node[0]? = w.node[0]? ∧
    ∀ h, h + max confirmationDepth 1 ≤ w.store.lastSynced → node[h]? = w.node[h]?
  | .sync fetched hashed purged written undeleted =>
    fetched = w.node ∧ hashed = w.node ∧ S.allTables.all purged ∧ S.allTables.all written ∧ undeleted = []
  | .flush _ deleted => deleted = true

variable {H S confirmationDepth t} {split : List R → List (List R)} {w w' : ChainWorld T B R η} {base : List B}

theorem HoldsChain.height_le (hw : HoldsChain H S confirmationDepth t base w) {r : R} (hr : r ∈ w.store.stored t) :
    S.height t r ≤ w.store.lastSynced := by
  have hmem := List.mem_range.mp (height_of_mem_rowsAt (hw.rows.mem_iff.mp hr))
  rw [ChainStore.syncedBlocks] at hmem
  split_ifs at hmem with hzero
  · exact absurd hmem (Nat.not_lt_zero _)
  · exact Nat.le_of_lt_succ hmem

theorem HoldsChain.reorganise (hw : HoldsChain H S confirmationDepth t base w) {node : List B}
    (hsteady : Steady H S confirmationDepth w (.reorganise node)) :
    HoldsChain H S confirmationDepth t base { w with node } where
  linkedNode := hsteady.1
  long := hsteady.2.1
  linkedBase := hw.linkedBase
  reach := hw.reach
  genesis := hsteady.2.2.1.trans hw.genesis
  buried h hle := (hsteady.2.2.2 h hle).trans (hw.buried h hle)
  hashes := hw.hashes
  rows := hw.rows
  files := hw.files

theorem HoldsChain.nodup_heights (hblocks : KeyedByHeight S t) (hw : HoldsChain H S confirmationDepth t base w) :
    ((w.store.stored t).map (S.height t)).Nodup := by
  have hl : ∀ h ∈ List.range w.store.syncedBlocks, h < base.length := by
    intro h hh
    have hreach := hw.reach
    rw [List.mem_range, ChainStore.syncedBlocks] at hh
    split_ifs at hh with hzero
    · exact absurd hh (Nat.not_lt_zero _)
    · omega
  have hperm := hw.rows.map (S.height t)
  rw [heights_rowsAt hblocks base hl] at hperm
  exact hperm.nodup_iff.mpr List.nodup_range

theorem HoldsChain.restore (hw : HoldsChain H S confirmationDepth t base w) {s : ChainStore T R η}
    (hlast : s.lastSynced = w.store.lastSynced) (hhashes : s.tipHashes = w.store.tipHashes)
    (hrows : (s.stored t).Perm (w.store.stored t))
    (hfiles : ∀ f ∈ s.files t, FileNamed S t w.store.lastSynced f.1 f.2) :
    HoldsChain H S confirmationDepth t base { w with store := s } := by
  obtain ⟨lastSynced, tipHashes, buffer, files⟩ := s
  obtain rfl : lastSynced = w.store.lastSynced := hlast
  obtain rfl : tipHashes = w.store.tipHashes := hhashes
  exact ⟨hw.linkedNode, hw.long, hw.linkedBase, hw.reach, hw.genesis, hw.buried, hw.hashes, hrows.trans hw.rows, hfiles⟩

/-! ### A flush -/

theorem HoldsChain.flushed_fresh (hblocks : KeyedByHeight S t) (hw : HoldsChain H S confirmationDepth t base w)
    {min : Nat} (max : Nat) {r : R} (hr : r ∈ w.store.buffer t) (hmin : S.height t r = min) :
    ∀ f ∈ w.store.files t, f.1 ≠ .flushed min max := by
  rintro ⟨key, rows⟩ hf rfl
  obtain ⟨r', hr', hmin'⟩ := hw.files _ hf
  have hnd := hw.nodup_heights hblocks
  rw [ChainStore.stored, List.map_append] at hnd
  have hfile : S.height t r' ∈ ((w.store.files t).flatMap Prod.snd).map (S.height t) :=
    List.mem_map_of_mem (List.mem_flatMap.mpr ⟨_, hf, hr'⟩)
  have hbuffer : S.height t r' ∈ (w.store.buffer t).map (S.height t) :=
    List.mem_map.mpr ⟨r, hr, hmin.trans hmin'.symm⟩
  exact List.disjoint_of_nodup_append hnd hbuffer hfile

theorem HoldsChain.flush [DecidableEq T] (hblocks : KeyedByHeight S t) (hw : HoldsChain H S confirmationDepth t base w)
    (t' : T) : HoldsChain H S confirmationDepth t base
      { w with store := flushSingleTable S confirmationDepth t' true w.store } := by
  rw [flushSingleTable]
  dsimp only
  split
  · exact hw
  split
  · exact hw
  next minHeight hmin =>
  generalize ((w.store.buffer t').map (S.height t')).foldl max 0 - confirmationDepth = cutoff at hmin ⊢
  by_cases ht : t = t'
  · subst ht
    obtain ⟨r, hr, hheight⟩ := List.mem_map.mp (List.min?_mem hmin)
    have hfresh := hw.flushed_fresh hblocks (cutoff - 1) (List.mem_filter.mp hr).1 hheight
    have hkept : (w.store.files t).filter (fun f => f.1 ≠ .flushed minHeight (cutoff - 1)) = w.store.files t :=
      List.filter_eq_self.mpr fun f hf => decide_eq_true (hfresh f hf)
    refine hw.restore rfl rfl ?_ fun f hf => ?_
    · have hbuffer : ((w.store.buffer t).filter (cutoff ≤ S.height t ·) ++
          (w.store.buffer t).filter (S.height t · < cutoff)).Perm (w.store.buffer t) := by
        have hperm := List.filter_append_perm (fun r => decide (cutoff ≤ S.height t r)) (w.store.buffer t)
        have hrest : (w.store.buffer t).filter (fun r => !decide (cutoff ≤ S.height t r)) =
            (w.store.buffer t).filter (S.height t · < cutoff) := by
          refine List.filter_congr fun r _ => ?_
          rw [← decide_not]
          exact decide_eq_decide.mpr Nat.not_le
        rwa [hrest] at hperm
      rw [ChainStore.stored, ChainStore.stored]
      dsimp only
      rw [if_pos ⟨rfl, rfl⟩, if_pos rfl, hkept, List.flatMap_append, List.flatMap_singleton]
      refine ((List.perm_append_comm.append_left _).trans ?_)
      rw [← List.append_assoc]
      exact hbuffer.append_right _
    · dsimp only at hf
      rw [if_pos rfl, hkept] at hf
      rcases List.mem_append.mp hf with hf | hf
      · exact hw.files f hf
      · obtain rfl := List.mem_singleton.mp hf
        exact ⟨r, hr, hheight⟩
  · refine hw.restore rfl rfl ?_ fun f hf => ?_
    · simp only [ChainStore.stored, ht, false_and, if_false]
      exact .refl _
    · dsimp only at hf
      rw [if_neg ht] at hf
      exact hw.files f hf

/-! ### A cycle -/

theorem lookup_of_mem {l : List (Nat × η)} (hnd : (l.map Prod.fst).Nodup) {h : Nat} {x : η} (hmem : (h, x) ∈ l) :
    l.lookup h = some x := by
  obtain ⟨before, after, rfl⟩ := List.append_of_mem hmem
  refine List.lookup_eq_some_iff.mpr ⟨before, after, rfl, fun e he => bne_iff_ne.mpr fun heq => ?_⟩
  rw [List.map_append, List.map_cons] at hnd
  exact List.disjoint_of_nodup_append hnd (List.mem_map_of_mem he) (heq ▸ List.mem_cons_self)

theorem buildTipHashes_spec (H : ChainHashing B η) (confirmationDepth : Nat) {node : List B} {tip : Nat}
    (hreach : tip < node.length) :
    ∃ hashes, buildTipHashes H confirmationDepth node tip = some hashes ∧
      ∀ h ∈ tipWindow confirmationDepth tip, ∃ b, node[h]? = some b ∧ hashes.lookup h = some (H.hash b) := by
  have hnode : ∀ h ∈ tipWindow confirmationDepth tip, ∃ b, node[h]? = some b := fun h hh =>
    ⟨_, List.getElem?_eq_getElem ((mem_tipWindow.mp hh).1.trans_lt hreach)⟩
  obtain ⟨hashes, hhashes⟩ : ∃ hashes, buildTipHashes H confirmationDepth node tip = some hashes := by
    refine exists_mapM_some fun h hh => ?_
    obtain ⟨b, hb⟩ := hnode h hh
    exact ⟨(h, H.hash b), by rw [hb]; rfl⟩
  refine ⟨hashes, hhashes, fun h hh => ?_⟩
  obtain ⟨b, hb⟩ := hnode h hh
  have hnd : (hashes.map Prod.fst).Nodup := by
    rw [blockHashes_heights hhashes]
    exact List.nodup_range'
  exact ⟨b, hb, lookup_of_mem hnd ((mem_blockHashes hhashes).mpr ⟨h, hh, b, hb, rfl⟩)⟩

theorem FileNamed.mono {n m : Nat} (hle : n ≤ m) {key : ChainFile} {rows : List R} (h : FileNamed S t n key rows) :
    FileNamed S t m key rows := by
  cases key with
  | flushed min max => exact h
  | merged min max seq => exact ⟨h.1.trans hle, h.2⟩

theorem append_stored {s : ChainStore T R η} {node : List B} {n m : Nat}
    (hrows : (s.stored t).Perm (rowsAt S t node (List.range n))) :
    ((s.buffer t ++ rowsAt S t node (List.range' n m)) ++ (s.files t).flatMap Prod.snd).Perm
      (rowsAt S t node (List.range (n + m))) := by
  rw [rowsAt_range_add, List.append_assoc]
  refine (List.perm_append_comm.append_left _).trans ?_
  rw [← List.append_assoc]
  exact hrows.append_right _

/-- After a reorganisation the rows from the fork on are replaced. -/
theorem merge_stored [DecidableEq K] (hblocks : KeyedByHeight S t) (hsplit : ∀ l, (split l).flatten = l)
    {s : ChainStore T R η} {node : List B} {n fromHeight toHeight lastSynced : Nat}
    (hrows : (s.stored t).Perm (rowsAt S t base (List.range n))) (hagree : ∀ h < fromHeight, node[h]? = base[h]?)
    (hn : n ≤ lastSynced + 1) (hfromle : fromHeight ≤ n) (hle : fromHeight ≤ toHeight) (hlast : lastSynced ≤ toHeight)
    (hreach : toHeight < node.length) (hfiles : ∀ f ∈ s.files t, FileNamed S t lastSynced f.1 f.2) :
    ((s.buffer t).filter (S.height t · < fromHeight) ++
      (mergeOnWriteTable S split [] t (rowsAt S t node (List.range' fromHeight (toHeight + 1 - fromHeight))) fromHeight
        toHeight (s.files t)).flatMap Prod.snd).Perm (rowsAt S t node (List.range (toHeight + 1))) := by
  let below : R → Bool := fun r => decide (S.height t r < fromHeight)
  let apart := (s.files t).filter fun f => !fileOverlapsRange f.1 fromHeight toHeight
  let merged := overlappingFiles fromHeight toHeight (s.files t)
  have hheight : ∀ r ∈ s.stored t, S.height t r ≤ lastSynced := fun r hr => by
    have := List.mem_range.mp (height_of_mem_rowsAt (hrows.mem_iff.mp hr))
    omega
  have hold : ∀ r ∈ merged.flatMap Prod.snd, S.height t r ≤ toHeight := fun r hr => by
    obtain ⟨f, hf, hrow⟩ := List.mem_flatMap.mp hr
    have hstored : r ∈ s.stored t :=
      List.mem_append_right _ (List.mem_flatMap.mpr ⟨f, (List.mem_filter.mp hf).1, hrow⟩)
    exact (hheight r hstored).trans hlast
  have hnew := rowsAt_ne_nil hblocks hreach hle
  -- a merged file that is not looked into ends below the fork
  have hapart : (apart.flatMap Prod.snd).filter below = apart.flatMap Prod.snd := by
    refine List.filter_eq_self.mpr fun r hr => decide_eq_true ?_
    obtain ⟨⟨key, rows⟩, hf, hrow⟩ := List.mem_flatMap.mp hr
    obtain ⟨hmem, hout⟩ := List.mem_filter.mp hf
    rw [Bool.not_eq_true'] at hout
    cases key with
    | flushed min max =>
      rw [fileOverlapsRange_flushed] at hout
      cases hout
    | merged min max seq =>
      obtain ⟨hmin, hmax⟩ : min ≤ lastSynced ∧ ∀ r ∈ rows, S.height t r ≤ max := hfiles _ hmem
      have hno : ¬(min ≤ toHeight ∧ fromHeight ≤ max) := fun h => by
        rw [fileOverlapsRange_merged.mpr h] at hout
        cases hout
      have := hmax r hrow
      omega
  have hall : (apart.flatMap Prod.snd ++ merged.flatMap Prod.snd).Perm ((s.files t).flatMap Prod.snd) := by
    rw [← List.flatMap_append]
    refine List.Perm.flatMap_right _ (List.perm_append_comm.trans ?_)
    exact List.filter_append_perm (fun f => fileOverlapsRange f.1 fromHeight toHeight) (s.files t)
  have hbelow : ((s.buffer t).filter below ++ (apart.flatMap Prod.snd ++ (merged.flatMap Prod.snd).filter below)).Perm
      (rowsAt S t node (List.range fromHeight)) := by
    have hfilter := (hall.filter below).append_left ((s.buffer t).filter below)
    rw [List.filter_append, hapart, ← List.filter_append] at hfilter
    refine hfilter.trans ((hrows.filter below).trans (List.Perm.of_eq ?_))
    rw [filter_rowsAt hfromle]
    exact (rowsAt_congr fun h hh => hagree h (List.mem_range.mp hh)).symm
  rw [flatMap_mergeOnWriteTable hsplit hle hnew, upsert_rowsAt hblocks hreach hold]
  have hrange : toHeight + 1 = fromHeight + (toHeight + 1 - fromHeight) := by omega
  rw [hrange, rowsAt_range_add, ← hrange, ← List.append_assoc, ← List.append_assoc,
    List.append_assoc _ _ (List.filter _ _)]
  exact hbelow.append_right _

theorem merge_named [DecidableEq K] (hsplit : ∀ l, (split l).flatten = l) {newRows : List R}
    {files : List (ChainFile × List R)} {fromHeight toHeight lastSynced : Nat} (hle : fromHeight ≤ toHeight)
    (hlast : lastSynced ≤ toHeight) (hnew : newRows ≠ []) (hheight : ∀ r ∈ newRows, S.height t r ≤ toHeight)
    (hold : ∀ r ∈ files.flatMap Prod.snd, S.height t r ≤ lastSynced)
    (hfiles : ∀ f ∈ files, FileNamed S t lastSynced f.1 f.2) :
    ∀ f ∈ mergeOnWriteTable S split [] t newRows fromHeight toHeight files, FileNamed S t toHeight f.1 f.2 := by
  intro f hf
  rw [mergeOnWriteTable_eq hle fun h => hnew (upsert_eq_nil h).2] at hf
  rcases List.mem_append.mp hf with hf | hf
  · exact (hfiles f (List.mem_filter.mp hf).1).mono hlast
  · obtain ⟨chunk, hchunk, rfl⟩ := List.mem_map.mp hf
    obtain ⟨hmin, hmax⟩ := actualRange_covers fromHeight toHeight (overlappingFiles fromHeight toHeight files)
    refine ⟨hmin.trans hle, fun r hr => le_trans ?_ hmax⟩
    have hmem := List.mem_flatten.mpr ⟨chunk.1, List.fst_mem_of_mem_zipIdx hchunk, hr⟩
    rw [hsplit] at hmem
    rcases mem_of_mem_upsert hmem with hmem | hmem
    · obtain ⟨g, hg, hrow⟩ := List.mem_flatMap.mp hmem
      exact (hold r (List.mem_flatMap.mpr ⟨g, (List.mem_filter.mp hg).1, hrow⟩)).trans hlast
    · exact hheight r hmem

/-- The blocks are stored and the checkpoint is set. -/
theorem HoldsChain.storeBlocks [DecidableEq T] [DecidableEq K] (hblocks : KeyedByHeight S t)
    (hsplit : ∀ l, (split l).flatten = l) (hw : HoldsChain H S confirmationDepth t base w) {purged written : T → Bool}
    (hpurged : S.allTables.all purged = true) (hwritten : S.allTables.all written = true) {reorgDetected : Bool}
    {blocks : List (Nat × B)} {fromHeight toHeight : Nat} (hreach : toHeight < w.node.length)
    (hpos : 0 < toHeight) (hle : fromHeight ≤ toHeight) (hlast : w.store.lastSynced ≤ toHeight)
    (hblocksFetched : fetchBlockRange w.node fromHeight toHeight = some blocks)
    (hagree : ∀ h < fromHeight, w.node[h]? = base[h]?)
    (hfrom : if reorgDetected then fromHeight ≤ w.store.syncedBlocks else fromHeight = w.store.syncedBlocks) :
    HoldsChain H S confirmationDepth t w.node
      ⟨Pond.storeBlocks H S split confirmationDepth w.node purged written [] reorgDetected blocks fromHeight toHeight
        w.store, w.node⟩ := by
  obtain ⟨hashes, hhashes, hlookup⟩ := buildTipHashes_spec H confirmationDepth hreach
  have hrows := tableRows_fetched (S := S) (t := t) hblocksFetched
  have hnew : rowsAt S t w.node (List.range' fromHeight (toHeight + 1 - fromHeight)) ≠ [] :=
    rowsAt_ne_nil hblocks hreach hle
  have hcount : toHeight + 1 = fromHeight + (toHeight + 1 - fromHeight) := by omega
  cases reorgDetected with
  | false =>
    have hstore : Pond.storeBlocks H S split confirmationDepth w.node purged written [] false blocks fromHeight toHeight
        w.store = { writeTables S split written [] false blocks fromHeight toHeight w.store with
          lastSynced := toHeight, tipHashes := hashes } := by
      simp [Pond.storeBlocks, hwritten, hhashes]
    have hfrom : fromHeight = w.store.syncedBlocks := hfrom
    have hbase : (w.store.stored t).Perm (rowsAt S t w.node (List.range fromHeight)) := by
      refine hw.rows.trans (List.Perm.of_eq ?_)
      rw [← hfrom]
      exact (rowsAt_congr fun h hh => hagree h (List.mem_range.mp hh)).symm
    rw [hstore]
    refine ⟨hw.linkedNode, hw.long, hw.linkedNode, hreach, rfl, fun _ _ => rfl, fun _ => hlookup, ?_, fun f hf => ?_⟩
    · have happend := append_stored (m := toHeight + 1 - fromHeight) hbase
      rw [← hcount] at happend
      simpa [ChainStore.stored, ChainStore.syncedBlocks, writeTables, appendTable, hrows, hnew, hblocks.mem,
        List.all_eq_true.mp hwritten t hblocks.mem, Nat.ne_of_gt hpos] using happend
    · refine (hw.files f ?_).mono hlast
      simpa [writeTables] using hf
  | true =>
    have hstore : Pond.storeBlocks H S split confirmationDepth w.node purged written [] true blocks fromHeight toHeight
        w.store = { writeTables S split written [] true blocks fromHeight toHeight
          (purgeBuffers S purged fromHeight w.store) with lastSynced := toHeight, tipHashes := hashes } := by
      simp [Pond.storeBlocks, hwritten, hhashes, hpurged]
    have hfrom : fromHeight ≤ w.store.syncedBlocks := hfrom
    have hcounted : w.store.syncedBlocks ≤ w.store.lastSynced + 1 := by
      rw [ChainStore.syncedBlocks]
      split_ifs
      · exact Nat.zero_le _
      · exact Nat.le_refl _
    have hfiles : (writeTables S split written [] true blocks fromHeight toHeight
        (purgeBuffers S purged fromHeight w.store)).files t = mergeOnWriteTable S split [] t
          (rowsAt S t w.node (List.range' fromHeight (toHeight + 1 - fromHeight))) fromHeight toHeight
            (w.store.files t) := by
      simp [writeTables, purgeBuffers, hrows, hnew, hblocks.mem, List.all_eq_true.mp hwritten t hblocks.mem]
    have hbuffer : (writeTables S split written [] true blocks fromHeight toHeight
        (purgeBuffers S purged fromHeight w.store)).buffer t =
          (w.store.buffer t).filter (S.height t · < fromHeight) := by
      simp [writeTables, purgeBuffers, hblocks.mem, List.all_eq_true.mp hpurged t hblocks.mem]
    rw [hstore]
    refine ⟨hw.linkedNode, hw.long, hw.linkedNode, hreach, rfl, fun _ _ => rfl, fun _ => hlookup, ?_, ?_⟩
    · rw [ChainStore.stored, ChainStore.syncedBlocks, if_neg (Nat.ne_of_gt hpos)]
      dsimp only
      rw [hbuffer, hfiles]
      exact merge_stored hblocks hsplit hw.rows hagree hcounted hfrom hle hlast hreach hw.files
    · dsimp only
      rw [hfiles]
      refine merge_named hsplit hle hlast hnew (fun r hr => ?_) (fun r hr => ?_) hw.files
      · have := List.mem_range'_1.mp (height_of_mem_rowsAt hr)
        omega
      · exact hw.height_le (List.mem_append_right _ hr)

/-- A cycle leaves the store as it was, or stores the chain of the node. -/
theorem HoldsChain.sync [DecidableEq T] [DecidableEq K] [DecidableEq η] (hblocks : KeyedByHeight S t)
    (hsplit : ∀ l, (split l).flatten = l) (hdepth : confirmationDepth ≤ maxBlocksPerCycle)
    (hw : HoldsChain H S confirmationDepth t base w) {purged written : T → Bool}
    (hpurged : S.allTables.all purged = true) (hwritten : S.allTables.all written = true) :
    ∃ base', HoldsChain H S confirmationDepth t base'
      ⟨syncChain H S split confirmationDepth w.node w.node w.node purged written [] w.store, w.node⟩ := by
  have hlong := hw.long
  rw [syncChain]
  dsimp only
  by_cases htip : w.node.length - 1 = w.store.lastSynced ∧ 0 < w.store.lastSynced
  · rw [if_pos htip]
    exact ⟨base, hw⟩
  rw [if_neg htip]
  cases hdetect : detectReorg H confirmationDepth w.node w.store with
  | none => exact ⟨base, hw⟩
  | some r =>
    obtain ⟨forkPoint, reorgDetected⟩ := r
    dsimp only
    generalize hfrom : (if reorgDetected = true then forkPoint + 1
      else if w.store.lastSynced = 0 then 0 else w.store.lastSynced + 1) = fromHeight
    by_cases hout : w.node.length - 1 < fromHeight
    · rw [if_pos hout]
      exact ⟨base, hw⟩
    rw [if_neg hout]
    cases hfetch : fetchBlockRange w.node fromHeight (min (w.node.length - 1) (fromHeight + maxBlocksPerCycle - 1)) with
    | none => exact ⟨base, hw⟩
    | some blocks =>
      have hcycle : (∀ h < fromHeight, w.node[h]? = base[h]?) ∧
          (if reorgDetected then fromHeight ≤ w.store.syncedBlocks else fromHeight = w.store.syncedBlocks) ∧
          w.store.lastSynced ≤ min (w.node.length - 1) (fromHeight + maxBlocksPerCycle - 1) := by
        rw [maxBlocksPerCycle] at hdepth ⊢
        by_cases hpos : w.store.lastSynced = 0
        · rw [detectReorg, if_pos hpos] at hdetect
          cases hdetect
          rw [if_neg Bool.false_ne_true, if_pos hpos] at hfrom
          subst hfrom
          rw [ChainStore.syncedBlocks, if_pos hpos, hpos]
          exact ⟨fun h hh => absurd hh (Nat.not_lt_zero h), rfl, Nat.zero_le _⟩
        · have hlast := Nat.pos_of_ne_zero hpos
          rw [ChainStore.syncedBlocks, if_neg hpos]
          obtain ⟨hreach, ⟨rfl, hsame⟩ | ⟨h, hh, hr, hdiffer, hbelow⟩⟩ := detectReorg_cases hlast hw.linkedNode
            hw.linkedBase (hw.hashes hlast) hw.buried hdetect
          · rw [if_neg Bool.false_ne_true, if_neg hpos] at hfrom
            subst hfrom
            exact ⟨fun h hh => hsame h (Nat.le_of_lt_succ hh), rfl, by omega⟩
          · cases hr
            have hgenesis : h ≠ 0 := fun h0 => hdiffer (h0 ▸ hw.genesis)
            obtain ⟨hle, hwindow⟩ := mem_tipWindow.mp hh
            rw [if_pos rfl, Nat.sub_add_cancel (Nat.one_le_iff_ne_zero.mpr hgenesis)] at hfrom
            subst hfrom
            exact ⟨hbelow, Nat.le_succ_of_le hle, by omega⟩
      obtain ⟨hagree, hcount, hlast⟩ := hcycle
      refine ⟨w.node, hw.storeBlocks hblocks hsplit hpurged hwritten ?_ ?_ ?_ hlast hfetch hagree hcount⟩
      all_goals
        rw [maxBlocksPerCycle]
        omega

variable (H S confirmationDepth t) in
def HoldsSomeChain (w : ChainWorld T B R η) : Prop := ∃ base, HoldsChain H S confirmationDepth t base w

theorem HoldsSomeChain.step [DecidableEq T] [DecidableEq K] [DecidableEq η] (hblocks : KeyedByHeight S t)
    (hsplit : ∀ l, (split l).flatten = l) (hdepth : confirmationDepth ≤ maxBlocksPerCycle) {action : ChainAction T B}
    (hw : HoldsSomeChain H S confirmationDepth t w) (hsteady : Steady H S confirmationDepth w action)
    (hstep : chainStep H S split confirmationDepth w action = some w') : HoldsSomeChain H S confirmationDepth t w' := by
  obtain ⟨base, hw⟩ := hw
  cases action with
  | reorganise node =>
    cases hstep
    exact ⟨base, hw.reorganise hsteady⟩
  | sync fetched hashed purged written undeleted =>
    obtain ⟨rfl, rfl, hpurged, hwritten, rfl⟩ := hsteady
    cases hstep
    exact hw.sync hblocks hsplit hdepth hpurged hwritten
  | flush t' deleted =>
    obtain rfl : deleted = true := hsteady
    cases hstep
    exact ⟨base, hw.flush hblocks t'⟩

def emptyChainStore (T R η : Type) : ChainStore T R η where
  buffer _ := []
  files _ := []

/-- In every run of steady steps, the rows of the blocks are stored once each, as the chain had them whose tip is
    recorded. -/
theorem blocks_storedOnce [DecidableEq T] [DecidableEq K] [DecidableEq η] (hblocks : KeyedByHeight S t)
    (hsplit : ∀ l, (split l).flatten = l) (hdepth : confirmationDepth ≤ maxBlocksPerCycle) {node : List B}
    (hnode : H.Linked node) (hlong : 2 ≤ node.length) {run : List (ChainAction T B)}
    (hsteady : Meets (chainStep H S split confirmationDepth) (Steady H S confirmationDepth)
      ⟨emptyChainStore T R η, node⟩ run)
    (hrun : exec (chainStep H S split confirmationDepth) ⟨emptyChainStore T R η, node⟩ run = some w) :
    ∃ chain, H.Linked chain ∧ (w.store.stored t).Perm (rowsAt S t chain (List.range w.store.syncedBlocks)) ∧
      (0 < w.store.lastSynced → ∃ tip, chain[w.store.lastSynced]? = some tip ∧
        w.store.tipHashes.lookup w.store.lastSynced = some (H.hash tip)) := by
  have hstart : HoldsSomeChain H S confirmationDepth t ⟨emptyChainStore T R η, node⟩ :=
    ⟨node, hnode, hlong, hnode, Nat.zero_lt_of_lt hlong, rfl, fun _ _ => rfl,
      fun h => absurd h (Nat.not_lt_zero 0), .refl _, fun _ hf => absurd hf List.not_mem_nil⟩
  obtain ⟨chain, hw⟩ := invariant_of_step
    (fun _ _ _ hw hcond hstep => HoldsSomeChain.step hblocks hsplit hdepth hw hcond hstep) hstart hsteady hrun
  refine ⟨chain, hw.linkedBase, hw.rows, fun hpos => ?_⟩
  exact hw.hashes hpos _ (mem_tipWindow.mpr ⟨Nat.le_refl _, by omega⟩)

end Runs

/-! ### Bitcoin -/

structure BitcoinTransaction where
  txid : String
  inputs : Nat
  outputs : Nat
deriving DecidableEq

/-- A block with the chain under it, which is what its hash stands for. -/
inductive BitcoinBlock where
  | genesis
  | next (parent : BitcoinBlock) (txs : List BitcoinTransaction)
deriving DecidableEq

def bitcoinHashing : ChainHashing BitcoinBlock BitcoinBlock where
  hash b := b
  parent
    | .genesis => .genesis
    | .next parent _ => parent
  injective _ _ h := h

def BitcoinBlock.transactions : BitcoinBlock → List BitcoinTransaction
  | .genesis => []
  | .next _ txs => txs

inductive BitcoinTable where
  | blocks
  | transactions
  | inputs
  | outputs
deriving DecidableEq

structure BitcoinRow where
  blockHeight : Nat
  txid : String := ""
  index : Nat := 0
deriving DecidableEq

/-- Blocks have their height for a key, the other tables the transaction and the place in it. -/
def bitcoinSchema : ChainSchema BitcoinTable BitcoinBlock BitcoinRow (Nat × String × Nat) where
  allTables := [.blocks, .transactions, .inputs, .outputs]
  rows t height block :=
    match t with
    | .blocks => [{ blockHeight := height }]
    | .transactions => block.transactions.map fun tx => { blockHeight := height, txid := tx.txid }
    | .inputs => block.transactions.flatMap fun tx =>
      (List.range tx.inputs).map fun i => { blockHeight := height, txid := tx.txid, index := i }
    | .outputs => block.transactions.flatMap fun tx =>
      (List.range tx.outputs).map fun i => { blockHeight := height, txid := tx.txid, index := i }
  height _ row := row.blockHeight
  primaryKey t row :=
    match t with
    | .blocks => (row.blockHeight, "", 0)
    | .transactions => (0, row.txid, 0)
    | .inputs | .outputs => (0, row.txid, row.index)
  height_rows t height block row hrow := by
    cases t with
    | blocks => rw [List.mem_singleton.mp hrow]
    | transactions =>
      obtain ⟨tx, _, rfl⟩ := List.mem_map.mp hrow
      rfl
    | inputs | outputs =>
      obtain ⟨tx, _, htx⟩ := List.mem_flatMap.mp hrow
      obtain ⟨i, _, rfl⟩ := List.mem_map.mp htx
      rfl

theorem bitcoinBlocks_keyed : KeyedByHeight bitcoinSchema .blocks where
  mem := List.mem_cons_self
  one height _ := ⟨{ blockHeight := height }, rfl⟩
  key_iff _ _ := by simp [bitcoinSchema]

def firstBlock : BitcoinBlock := .next .genesis [⟨"a", 1, 1⟩]

def rivalBlock : BitcoinBlock := .next .genesis [⟨"b", 1, 1⟩]

/-- The node keeps its chain, and every request comes through. -/
def fullCycle (node : List BitcoinBlock) : ChainAction BitcoinTable BitcoinBlock :=
  .sync node node (fun _ => true) (fun _ => true) []

def rivalChain : List BitcoinBlock := [.genesis, rivalBlock, .next rivalBlock []]

/-- The first block is synced, replaced, and synced again. -/
def reorganisedRun : List (ChainAction BitcoinTable BitcoinBlock) :=
  [fullCycle [.genesis, firstBlock], .reorganise rivalChain, fullCycle rivalChain, .flush .blocks true]

def bitcoinStart : ChainWorld BitcoinTable BitcoinBlock BitcoinRow BitcoinBlock :=
  ⟨emptyChainStore _ _ _, [.genesis, firstBlock]⟩

def bitcoinStep (confirmationDepth : Nat) :=
  chainStep bitcoinHashing bitcoinSchema (fun rows => [rows]) confirmationDepth

def bitcoinAfter (confirmationDepth : Nat) (run : List (ChainAction BitcoinTable BitcoinBlock)) :
    ChainWorld BitcoinTable BitcoinBlock BitcoinRow BitcoinBlock :=
  (exec (bitcoinStep confirmationDepth) bitcoinStart run).getD bitcoinStart

theorem bitcoinStart_linked : bitcoinHashing.Linked [.genesis, firstBlock] := .cons_cons rfl (.singleton _)

theorem reorganisedRun_steady :
    Meets (bitcoinStep 1) (Steady bitcoinHashing bitcoinSchema 1) bitcoinStart reorganisedRun := by
  refine .cons rfl ⟨rfl, rfl, rfl, rfl, rfl⟩ (.cons rfl ⟨?_, by decide, rfl, fun h hle => ?_⟩
    (.cons rfl ⟨rfl, rfl, rfl, rfl, rfl⟩ (.cons rfl rfl trivial)))
  · exact .cons_cons rfl (.cons_cons rfl (.singleton _))
  · have hone : h + 1 ≤ 1 := hle
    obtain rfl : h = 0 := by omega
    rfl

theorem blocks_storedOnce_reorganised :
    ∃ chain, bitcoinHashing.Linked chain ∧
      ((bitcoinAfter 1 reorganisedRun).store.stored .blocks).Perm
        (rowsAt bitcoinSchema .blocks chain (List.range (bitcoinAfter 1 reorganisedRun).store.syncedBlocks)) ∧
      (0 < (bitcoinAfter 1 reorganisedRun).store.lastSynced → ∃ tip,
        chain[(bitcoinAfter 1 reorganisedRun).store.lastSynced]? = some tip ∧
          (bitcoinAfter 1 reorganisedRun).store.tipHashes.lookup (bitcoinAfter 1 reorganisedRun).store.lastSynced =
            some (bitcoinHashing.hash tip)) :=
  blocks_storedOnce bitcoinBlocks_keyed (fun _ => List.flatten_singleton) (by decide : 1 ≤ maxBlocksPerCycle)
    bitcoinStart_linked (by decide) reorganisedRun_steady rfl

theorem failedCheckpoint_duplicates :
    ((bitcoinAfter 1 [.sync [.genesis, firstBlock] [] (fun _ => true) (fun _ => true) [],
      .reorganise [.genesis, firstBlock], fullCycle [.genesis, firstBlock]]).store.stored .blocks).map
        (·.blockHeight) = [0, 1, 0, 1] := by decide

theorem orphanedTransaction_stays :
    ((bitcoinAfter 2 (reorganisedRun ++
      [.reorganise [.genesis, firstBlock, .next firstBlock [], .next (.next firstBlock []) []],
      fullCycle [.genesis, firstBlock, .next firstBlock [], .next (.next firstBlock []) []]])).store.stored
        .transactions).map (·.txid) = ["b", "a"] := by decide

end Reiver.Pond
