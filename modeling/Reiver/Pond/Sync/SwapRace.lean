import Reiver.Lib.Run
import Reiver.Pond.Sync.SwapSystem
import Reiver.Pond.Sync.UpsertHistory

/-! # Compaction and merge commute

After both tasks the partition holds what the merge alone makes of its rows (`MergedFrom.upsert`). A swap deletes the
listed file records, whether they are still there or not, so this takes that no other swap falls between listing and
swapping (`commutes_iff`). -/

namespace Reiver.Pond
namespace SwapSystem

/-! ### The promise -/

def contentOf (objects : Dict String (List RecordBatch)) (paths : List String) : List RecordBatch :=
  paths.flatMap fun path => (objects.lookup path).getD []

def listed (p : SwapParams) (s : SwapSystem) : List ListedFile := s.catalog.listedFiles p.partitionId

def listedPaths (p : SwapParams) (s : SwapSystem) : List String := (s.listed p).map Prod.snd

def content (p : SwapParams) (s : SwapSystem) : List RecordBatch := contentOf s.objects (s.listedPaths p)

/-- Batches with the same rows, up to their order and their metadata. -/
structure SameRows (batches batches' : List RecordBatch) : Prop where
  perm : ((views batches').map eraseMeta).Perm ((views batches).map eraseMeta)
  uniform : (∃ schema, Uniform schema batches) → ∃ schema, Uniform schema batches'

/-- The rows of `result` are what the merge alone makes of the rows of `batches`. -/
def MergedFrom (p : SwapParams) (batches result : List RecordBatch) : Prop :=
  ∃ existing merged, SameRows batches existing ∧
    mergeBatchesByPk p.env.toArrowEnv (stripMetadataColumns existing) p.newBatches p.pkColumns = .ok merged ∧
    ((views result).map eraseMeta).Perm ((views merged).map eraseMeta)

/-- The partition holds every row it had, updated by the merge once that has committed. -/
def RowsKept (p : SwapParams) (start : List RecordBatch) (s : SwapSystem) : Prop :=
  if (s.phase .merge).swapped then MergedFrom p start (s.content p) else SameRows start (s.content p)

def Finished (s : SwapSystem) : Prop := ∀ task, ∃ swapped, s.phase task = .done swapped

/-- A swap registers new files only for old files that are registered. -/
def ReplacesRegistered (p : SwapParams) (s : SwapSystem) (a : SwapAction) : Prop :=
  ∀ task ids syncVersion, a = .swap task ids syncVersion → ∀ seen files newFiles,
    s.phase task = .written seen files newFiles → ∀ file ∈ files, file ∈ s.listed p

def Commutes (p : SwapParams) (start : List RecordBatch) (s : SwapSystem) (a : SwapAction) : Prop :=
  ∀ s' ∈ s.step p a, ReplacesRegistered p s a ∧ (s'.Finished → RowsKept p start s')

/-- The other task has not swapped since this one listed its files. -/
def Serialized (s : SwapSystem) : SwapAction → Prop
  | .swap task _ _ => ∀ seen files newFiles, s.phase task = .written seen files newFiles →
      (s.phase task.other).swapped = seen
  | _ => True

/-! ### Contents -/

section Content
variable {objects objects' : Dict String (List RecordBatch)} {paths paths' : List String}

theorem SameRows.refl (batches : List RecordBatch) : SameRows batches batches := ⟨List.Perm.refl _, id⟩

theorem SameRows.trans {a b c : List RecordBatch} (h : SameRows a b) (h' : SameRows b c) : SameRows a c :=
  ⟨h'.perm.trans h.perm, fun huni => h'.uniform (h.uniform huni)⟩

theorem contentOf_congr (h : ∀ path ∈ paths, objects'.lookup path = objects.lookup path) :
    contentOf objects' paths = contentOf objects paths :=
  List.flatMap_congr fun path hpath => by rw [h path hpath]

theorem views_perm {batches batches' : List RecordBatch} (h : batches.Perm batches') :
    (views batches).Perm (views batches') := h.flatMap_right _

theorem contentOf_perm (h : paths.Perm paths') : (contentOf objects paths).Perm (contentOf objects paths') :=
  h.flatMap_right _

theorem contentOf_downloaded {files : List ListedFile} {downloaded : List (List RecordBatch)}
    (hlen : downloaded.length = files.length)
    (h : ∀ (i : Nat) batches, downloaded[i]? = some batches →
      ∃ file : ListedFile, files[i]? = some file ∧ objects.lookup file.2 = some batches) :
    contentOf objects (files.map Prod.snd) = downloaded.flatten := by
  have hmap : files.map (fun file => (objects.lookup file.2).getD []) = downloaded := by
    refine List.ext_getElem? fun i => ?_
    rw [List.getElem?_map]
    cases hd : downloaded[i]? with
    | some batches =>
      obtain ⟨file, hfile, hlook⟩ := h i batches hd
      rw [hfile, Option.map_some, hlook, Option.getD_some]
    | none =>
      have hle : files.length ≤ i := hlen ▸ List.getElem?_eq_none_iff.mp hd
      rw [List.getElem?_eq_none_iff.mpr hle, Option.map_none]
  rw [contentOf, List.flatMap_map, ← hmap]
  rfl

theorem lookup_putObjects {chunks : List (String × List RecordBatch)} {path : String}
    (h : path ∉ chunks.map Prod.fst) : (putObjects objects chunks).lookup path = objects.lookup path := by
  induction chunks generalizing objects with
  | nil => rfl
  | cons e chunks ih =>
    rw [List.map_cons, List.mem_cons, not_or] at h
    rw [putObjects, List.foldl_cons, ← putObjects, ih h.2, Dict.lookup_insert', if_neg h.1]

theorem contentOf_putObjects {chunks : List (String × List RecordBatch)} (hnd : (chunks.map Prod.fst).Nodup) :
    contentOf (putObjects objects chunks) (chunks.map Prod.fst) = (chunks.map Prod.snd).flatten := by
  induction chunks generalizing objects with
  | nil => rfl
  | cons e chunks ih =>
    obtain ⟨hnot, hnd⟩ := List.nodup_cons.mp hnd
    have hhead : (putObjects (objects.insert e.1 e.2) chunks).lookup e.1 = some e.2 := by
      rw [lookup_putObjects hnot, Dict.lookup_insert', if_pos rfl]
    rw [putObjects, List.foldl_cons, ← putObjects, List.map_cons, contentOf, List.flatMap_cons, ← contentOf, ih hnd,
      hhead]
    rfl

end Content

theorem MergedFrom.upsert {p : SwapParams} {batches result : List RecordBatch} {schema : Schema}
    (h : MergedFrom p batches result) (hpk : p.pkColumns ≠ []) (hne : p.newBatches ≠ [])
    (hnew : Uniform schema p.newBatches) (huni : ∃ schema, Uniform schema batches) :
    ((views result).map eraseMeta).Perm ((upsert (pkKey p.env.toArrowEnv p.pkColumns) ((views batches).map eraseMeta)
      (views p.newBatches)).map eraseMeta) := by
  obtain ⟨existing, merged, hsame, hmerge, hperm⟩ := h
  obtain ⟨existingSchema, hexisting⟩ := hsame.uniform huni
  obtain ⟨-, hviews, -⟩ := mergeBatchesByPk_ok hpk hne (hnew.aligned _)
    ((stripMetadataColumns_uniform hexisting).aligned _) hmerge
  rw [hviews, stripMetadataColumns_views] at hperm
  exact hperm.trans ((upsert_perm_left hsame.perm).map eraseMeta)

/-! ### Swapped records -/

section Catalog
variable {c c' : Catalog} {partitionId : Uuid} {syncVersion : Int} {newFiles : List (Uuid × NewPartitionFile)}

theorem mem_listedFiles {file : ListedFile} : file ∈ c.listedFiles partitionId ↔ ∃ f, c.files.lookup file.1 = some f ∧
    f.partitionId = partitionId ∧ f.syncState = .committed ∧ f.filePath = file.2 := by
  simp only [Catalog.listedFiles, List.mem_map, List.mem_filter, decide_eq_true_eq]
  constructor
  · rintro ⟨⟨id, f⟩, ⟨hmem, hpid, hstate⟩, rfl⟩
    exact ⟨f, Dict.mem_pairs.mp hmem, hpid, hstate, rfl⟩
  · rintro ⟨f, hlook, hpid, hstate, hpath⟩
    exact ⟨(file.1, f), ⟨Dict.mem_pairs.mpr hlook, hpid, hstate⟩, Prod.ext rfl hpath⟩

theorem listedFiles_nodup (c : Catalog) (partitionId : Uuid) : ((c.listedFiles partitionId).map Prod.fst).Nodup := by
  rw [Catalog.listedFiles, List.map_map]
  exact c.files.pairs_nodup.sublist (List.filter_sublist.map Prod.fst)

def swappedFile (partitionId : Uuid) (syncVersion : Int) (nf : NewPartitionFile) : PartitionFile where
  partitionId := partitionId
  filePath := nf.filePath
  syncVersion := syncVersion
  rowCount := nf.rowCount
  sizeBytes := nf.sizeBytes
  opTypes := "I"
  jobId := none
  syncState := .committed

theorem lookup_insertSwapped_mem {files : Dict Uuid PartitionFile} (hnd : (newFiles.map Prod.fst).Nodup)
    {nf : Uuid × NewPartitionFile} (hmem : nf ∈ newFiles) :
    (Catalog.insertSwapped partitionId syncVersion files newFiles).lookup nf.1 =
      some (swappedFile partitionId syncVersion nf.2) := by
  induction newFiles generalizing files with
  | nil => cases hmem
  | cons e newFiles ih =>
    obtain ⟨hnot, hnd⟩ := List.nodup_cons.mp hnd
    rw [Catalog.insertSwapped, List.foldl_cons, ← Catalog.insertSwapped]
    rcases List.mem_cons.mp hmem with rfl | hmem
    · rcases @Catalog.lookup_insertSwapped partitionId syncVersion _ newFiles nf.1 with ⟨-, hlook⟩ | ⟨hin, -⟩
      · rw [hlook, Dict.lookup_insert', if_pos rfl]
        rfl
      · exact absurd hin hnot
    · exact ih hnd hmem

theorem listedFiles_swap
    (hswap : c.swapPartitionFiles partitionId ((c.listedFiles partitionId).map Prod.fst) newFiles syncVersion =
      some c') :
    (c'.listedFiles partitionId).Perm (newFiles.map fun nf => (nf.1, nf.2.filePath)) := by
  unfold Catalog.swapPartitionFiles at hswap
  split at hswap
  · next hguard =>
    have hfresh := hguard.2.1
    have hnd := hguard.2.2
    cases hswap
    have hnd' : (newFiles.map fun nf => (nf.1, nf.2.filePath)).Nodup :=
      List.Nodup.of_map Prod.fst (by rwa [List.map_map])
    refine (List.perm_ext_iff_of_nodup (List.Nodup.of_map Prod.fst (listedFiles_nodup _ _)) hnd').mpr fun file => ?_
    rw [mem_listedFiles, List.mem_map]
    dsimp only
    rw [Dict.lookup_filter]
    constructor
    · rintro ⟨f, hlook, hpid, hstate, hpath⟩
      obtain ⟨hlook, hkept⟩ := Option.filter_eq_some_iff.mp hlook
      rcases @Catalog.lookup_insertSwapped partitionId syncVersion c.files newFiles file.1 with ⟨-, hold⟩ | ⟨hin, -⟩
      · have hlisted : file ∈ c.listedFiles partitionId := mem_listedFiles.mpr ⟨f, hold ▸ hlook, hpid, hstate, hpath⟩
        exact absurd (List.mem_map_of_mem hlisted) (of_decide_eq_true hkept)
      · obtain ⟨nf, hnf, hid⟩ := List.mem_map.mp hin
        rw [← hid, lookup_insertSwapped_mem hnd hnf] at hlook
        cases hlook
        exact ⟨nf, hnf, Prod.ext hid hpath⟩
    · rintro ⟨nf, hnf, rfl⟩
      refine ⟨swappedFile partitionId syncVersion nf.2, ?_, rfl, rfl, rfl⟩
      rw [lookup_insertSwapped_mem hnd hnf]
      exact Option.filter_eq_some_iff.mpr ⟨rfl, decide_eq_true (hfresh nf hnf).2⟩
  · cases hswap

theorem swapPartitionFiles_fresh {oldFileIds : List Uuid}
    (hswap : c.swapPartitionFiles partitionId oldFileIds newFiles syncVersion = some c') :
    ∀ nf ∈ newFiles, nf.1 ∉ oldFileIds := by
  unfold Catalog.swapPartitionFiles at hswap
  split at hswap
  · next hguard => exact fun nf hnf => (hguard.2.1 nf hnf).2
  · cases hswap

theorem removedPaths_eq (c : Catalog) (partitionId : Uuid) {path : String}
    (h : path ∈ (c.files.pairs.filter (·.1 ∈ (c.listedFiles partitionId).map Prod.fst)).map (·.2.filePath)) :
    path ∈ (c.listedFiles partitionId).map Prod.snd := by
  obtain ⟨⟨id, f⟩, he, rfl⟩ := List.mem_map.mp h
  obtain ⟨hpair, hid⟩ := List.mem_filter.mp he
  obtain ⟨file, hfile, hfst⟩ := List.mem_map.mp (of_decide_eq_true hid)
  obtain ⟨f', hlook, -, -, hpath⟩ := mem_listedFiles.mp hfile
  have hsame : f' = f := Option.some.inj (hlook.symm.trans (hfst ▸ Dict.mem_pairs.mp hpair))
  exact List.mem_map.mpr ⟨file, hfile, hsame ▸ hpath.symm⟩

end Catalog

/-! ### What holds in a serialized run -/

/-- What holds of a task: its files are those of the partition unless the other task has swapped since, and then none
    of them is registered; what it uploaded replaces them; no object in use is about to be deleted. -/
structure TaskInv (p : SwapParams) (s : SwapSystem) (task : SwapTask) : Prop where
  seen : ∀ seen files, (s.phase task).listed? = some (seen, files) → seen = true →
    (s.phase task.other).swapped = true
  listed : ∀ seen files, (s.phase task).listed? = some (seen, files) → (s.phase task.other).swapped = seen →
    files = s.listed p
  stale : ∀ seen files, (s.phase task).listed? = some (seen, files) → (s.phase task.other).swapped ≠ seen →
    files ≠ [] ∧ ∀ file ∈ files, file ∉ s.listed p
  many : task = .compaction → ∀ seen files, (s.phase task).listed? = some (seen, files) → 2 ≤ files.length
  downloaded : ∀ seen files downloaded, s.phase task = .reading seen files downloaded →
    (s.phase task.other).swapped = seen → ∀ (i : Nat) batches, downloaded[i]? = some batches →
      ∃ file : ListedFile, files[i]? = some file ∧ s.objects.lookup file.2 = some batches
  written : ∀ seen files newFiles, s.phase task = .written seen files newFiles → (s.phase task.other).swapped = seen →
    ∃ batches, p.rewrite task (s.content p) = some batches ∧
      views (contentOf s.objects (newFiles.map (·.filePath))) = views batches ∧
      ∀ schema, Uniform schema batches → Uniform schema (contentOf s.objects (newFiles.map (·.filePath)))
  newPaths : ∀ path ∈ (s.phase task).newPaths, path ∉ s.listedPaths p ∧ path ∉ (s.phase task.other).newPaths
  oldPaths : ∀ path ∈ (s.phase task).oldPaths, path ∉ s.listedPaths p ∧ path ∉ (s.phase task.other).newPaths

structure SwapInv (p : SwapParams) (start : List RecordBatch) (s : SwapSystem) : Prop where
  rows : RowsKept p start s
  tasks : ∀ task, TaskInv p s task

section Steps
variable {p : SwapParams} {start : List RecordBatch} {s s' : SwapSystem} {task : SwapTask}

@[simp] theorem setPhase_self (phase : SwapPhase) : (s.setPhase task phase).phase task = phase :=
  Function.update_self _ _ _

@[simp] theorem setPhase_other (phase : SwapPhase) : (s.setPhase task phase).phase task.other = s.phase task.other :=
  Function.update_of_ne (by cases task <;> decide) _ _

@[simp] theorem other_other : task.other.other = task := by cases task <;> rfl

theorem forall_task {P : SwapTask → Prop} (task : SwapTask) (h : P task) (hother : P task.other) :
    ∀ task', P task' := by
  intro task'
  cases task <;> cases task' <;> assumption

theorem TaskInv.idle (hlisted : (s.phase task).listed? = none) (hold : (s.phase task).oldPaths = []) :
    TaskInv p s task := by
  have hread : ∀ seen files downloaded, s.phase task ≠ .reading seen files downloaded := by
    intro seen files downloaded h
    rw [h] at hlisted
    cases hlisted
  have hwritten : ∀ seen files newFiles, s.phase task ≠ .written seen files newFiles := by
    intro seen files newFiles h
    rw [h] at hlisted
    cases hlisted
  have hnew : (s.phase task).newPaths = [] := by
    cases hphase : s.phase task with
    | written seen files newFiles => exact absurd hphase (hwritten seen files newFiles)
    | _ => rfl
  refine ⟨?_, ?_, ?_, ?_, fun _ _ _ h => absurd h (hread _ _ _), fun _ _ _ h => absurd h (hwritten _ _ _), ?_, ?_⟩
  · exact fun _ _ h => (nomatch hlisted.symm.trans h)
  · exact fun _ _ h => (nomatch hlisted.symm.trans h)
  · exact fun _ _ h => (nomatch hlisted.symm.trans h)
  · exact fun _ _ _ h => (nomatch hlisted.symm.trans h)
  · rw [hnew]
    exact fun _ h => (nomatch h)
  · rw [hold]
    exact fun _ h => (nomatch h)

/-- What the other task does leaves a task alone if it neither swaps nor touches its objects. -/
theorem TaskInv.frame (h : TaskInv p s task) (hphase : s'.phase task = s.phase task)
    (hswapped : (s'.phase task.other).swapped = (s.phase task.other).swapped) (hcatalog : s'.catalog = s.catalog)
    (hobjects : ∀ path, path ∈ s.listedPaths p ∨ path ∈ (s.phase task).newPaths →
      s'.objects.lookup path = s.objects.lookup path)
    (hnew : ∀ path ∈ (s'.phase task.other).newPaths, path ∈ (s.phase task.other).newPaths ∨
      path ∉ (s.phase task).newPaths ∧ path ∉ (s.phase task).oldPaths) : TaskInv p s' task := by
  have hlisted : s'.listed p = s.listed p := by rw [SwapSystem.listed, hcatalog, SwapSystem.listed]
  have hpaths : s'.listedPaths p = s.listedPaths p := by rw [listedPaths, hlisted, listedPaths]
  have hcontent : s'.content p = s.content p := by
    rw [content, hpaths, content]
    exact contentOf_congr fun path hpath => hobjects path (Or.inl hpath)
  refine ⟨?_, ?_, ?_, ?_, ?_, ?_, fun path hpath => ⟨?_, fun hother => ?_⟩, fun path hpath => ⟨?_, fun hother => ?_⟩⟩
  · rw [hphase, hswapped]
    exact h.seen
  · rw [hphase, hswapped, hlisted]
    exact h.listed
  · rw [hphase, hswapped, hlisted]
    exact h.stale
  · rw [hphase]
    exact h.many
  · rw [hphase, hswapped]
    intro seen files downloaded hread hseen i batches hi
    obtain ⟨file, hfile, hlook⟩ := h.downloaded seen files downloaded hread hseen i batches hi
    have hfiles : files = s.listed p := h.listed seen files (by rw [hread]; rfl) hseen
    have hin : file ∈ s.listed p := hfiles ▸ List.mem_of_getElem? hfile
    exact ⟨file, hfile, (hobjects file.2 (Or.inl (List.mem_map_of_mem hin))).trans hlook⟩
  · rw [hphase, hswapped, hcontent]
    intro seen files newFiles hwritten hseen
    have hsame : contentOf s'.objects (newFiles.map (·.filePath)) = contentOf s.objects (newFiles.map (·.filePath)) :=
      contentOf_congr fun path hpath => hobjects path (Or.inr (by rw [hwritten]; exact hpath))
    rw [hsame]
    exact h.written seen files newFiles hwritten hseen
  · rw [hpaths]
    exact (h.newPaths path (hphase ▸ hpath)).1
  · rw [hphase] at hpath
    exact (hnew path hother).elim (h.newPaths path hpath).2 fun hfree => hfree.1 hpath
  · rw [hpaths]
    exact (h.oldPaths path (hphase ▸ hpath)).1
  · rw [hphase] at hpath
    exact (hnew path hother).elim (h.oldPaths path hpath).2 fun hfree => hfree.2 hpath

theorem SwapInv.setPhase (h : SwapInv p start s) {phase : SwapPhase} {objects : Dict String (List RecordBatch)}
    (hswapped : phase.swapped = (s.phase task).swapped)
    (hobjects : ∀ path, path ∈ s.listedPaths p ∨ path ∈ (s.phase task.other).newPaths →
      objects.lookup path = s.objects.lookup path)
    (hnew : ∀ path ∈ phase.newPaths, path ∈ (s.phase task).newPaths ∨
      path ∉ (s.phase task.other).newPaths ∧ path ∉ (s.phase task.other).oldPaths)
    (htask : TaskInv p { s.setPhase task phase with objects } task) :
    SwapInv p start { s.setPhase task phase with objects } := by
  have hcontent : SwapSystem.content p { s.setPhase task phase with objects } = s.content p :=
    contentOf_congr fun path hpath => hobjects path (Or.inl hpath)
  have hsame : ∀ task', ((s.setPhase task phase).phase task').swapped = (s.phase task').swapped := by
    refine forall_task task ?_ ?_
    · rw [setPhase_self, hswapped]
    · rw [setPhase_other]
  refine ⟨?_, forall_task task htask ((h.tasks task.other).frame ?_ ?_ rfl hobjects ?_)⟩
  · unfold RowsKept
    rw [hcontent]
    have hmerge := hsame .merge
    exact hmerge ▸ h.rows
  · exact setPhase_other phase
  · rw [other_other]
    exact hsame task
  · rw [other_other]
    intro path hpath
    exact hnew path (by simpa using hpath)

theorem SwapInv.list (h : SwapInv p start s) (hstep : s.list p task = some s') : SwapInv p start s' := by
  obtain ⟨hidle, rfl | ⟨hmany, rfl⟩⟩ := list_cases hstep
  · refine h.setPhase (by rw [hidle]; rfl) (fun _ _ => rfl) (fun _ hpath => (nomatch hpath)) (TaskInv.idle ?_ ?_)
    · exact congrArg SwapPhase.listed? (setPhase_self _)
    · exact congrArg SwapPhase.oldPaths (setPhase_self _)
  · refine h.setPhase (by rw [hidle]; rfl) (fun _ _ => rfl) (fun _ hpath => (nomatch hpath)) ?_
    refine ⟨?_, ?_, ?_, ?_, ?_, ?_, ?_, ?_⟩ <;>
      simp only [setPhase_self, setPhase_other, SwapPhase.listed?, SwapPhase.newPaths, SwapPhase.oldPaths]
    · rintro seen files ⟨⟩
      exact id
    · rintro seen files ⟨⟩ -
      rfl
    · rintro seen files ⟨⟩ hne
      exact absurd rfl hne
    · rintro htask seen files ⟨⟩
      exact hmany htask
    · rintro seen files downloaded ⟨⟩ - i batches hi
      cases hi
    · rintro seen files newFiles ⟨⟩
    · exact fun path hpath => (nomatch hpath)
    · exact fun path hpath => (nomatch hpath)

theorem SwapInv.download (h : SwapInv p start s) (hstep : s.download task = some s') : SwapInv p start s' := by
  obtain ⟨seen, files, downloaded, hread, rfl | ⟨file, batches, hfile, hlook, rfl⟩⟩ := download_cases hstep
  · refine h.setPhase (by rw [hread]; rfl) (fun _ _ => rfl) (fun _ hpath => (nomatch hpath)) (TaskInv.idle ?_ ?_)
    · exact congrArg SwapPhase.listed? (setPhase_self _)
    · exact congrArg SwapPhase.oldPaths (setPhase_self _)
  · have htask := h.tasks task
    have hlisted : (s.phase task).listed? = some (seen, files) := by rw [hread]; rfl
    refine h.setPhase (by rw [hread]; rfl) (fun _ _ => rfl) (fun _ hpath => (nomatch hpath)) ?_
    refine ⟨?_, ?_, ?_, ?_, ?_, ?_, ?_, ?_⟩ <;>
      simp only [setPhase_self, setPhase_other, SwapPhase.listed?, SwapPhase.newPaths, SwapPhase.oldPaths]
    · rintro _ _ ⟨⟩
      exact htask.seen seen files hlisted
    · rintro _ _ ⟨⟩
      exact htask.listed seen files hlisted
    · rintro _ _ ⟨⟩
      exact htask.stale seen files hlisted
    · rintro hcompaction _ _ ⟨⟩
      exact htask.many hcompaction seen files hlisted
    · rintro _ _ _ ⟨⟩ hseen i batches' hi
      rcases Nat.lt_trichotomy i downloaded.length with hlt | rfl | hgt
      · rw [List.getElem?_append_left hlt] at hi
        exact htask.downloaded seen files downloaded hread hseen i batches' hi
      · rw [List.getElem?_concat_length] at hi
        cases hi
        exact ⟨file, hfile, hlook⟩
      · rw [List.getElem?_eq_none (by rw [List.length_append, List.length_singleton]; omega)] at hi
        cases hi
    · rintro _ _ _ ⟨⟩
    · exact fun path hpath => (nomatch hpath)
    · exact fun path hpath => (nomatch hpath)

theorem newFile_paths {files : List (String × Int)} {chunks : List (List RecordBatch)}
    (hlen : files.length = chunks.length) :
    (List.zipWith newFile files chunks).map (·.filePath) = files.map Prod.fst := by
  conv => rhs; rw [← List.map_fst_zip (Nat.le_of_eq hlen), List.map_map]
  rw [← List.map_uncurry_zip_eq_zipWith, List.map_map]
  rfl

theorem SwapInv.write {files : List (String × Int)} (h : SwapInv p start s)
    (hstep : s.write p task files = some s') : SwapInv p start s' := by
  obtain ⟨seen, oldFiles, downloaded, hread, hlen, rfl | ⟨batches, chunks, hrewrite, rfl, hfiles, hnd, hfresh, rfl⟩⟩ :=
    write_cases hstep
  · refine h.setPhase (by rw [hread]; rfl) (fun _ _ => rfl) (fun _ hpath => (nomatch hpath)) (TaskInv.idle ?_ ?_)
    · exact congrArg SwapPhase.listed? (setPhase_self _)
    · exact congrArg SwapPhase.oldPaths (setPhase_self _)
  · have htask := h.tasks task
    have hlisted : (s.phase task).listed? = some (seen, oldFiles) := by rw [hread]; rfl
    have hpaths := newFile_paths hfiles
    have hsplit := splitBatchesBySize_spec p.env.toArrowEnv task.targetFileSize batches
    generalize splitBatchesBySize p.env.toArrowEnv batches task.targetFileSize = chunks at *
    have hkeys : ((files.map Prod.fst).zip chunks).map Prod.fst = files.map Prod.fst :=
      List.map_fst_zip (by rw [List.length_map]; exact Nat.le_of_eq hfiles)
    have hfreshOf : ∀ path ∈ files.map Prod.fst, s.Fresh path := by
      intro path hpath
      obtain ⟨file, hfile, rfl⟩ := List.mem_map.mp hpath
      exact hfresh file hfile
    have hunlisted : ∀ path ∈ files.map Prod.fst, path ∉ s.listedPaths p := by
      intro path hpath hin
      obtain ⟨file, hfile, rfl⟩ := List.mem_map.mp hin
      obtain ⟨f, hlook, -, -, hf⟩ := mem_listedFiles.mp hfile
      exact (hfreshOf _ hpath).2.1 f (Dict.mem_values.mpr ⟨file.1, hlook⟩) hf
    have hunused : ∀ task', ∀ path ∈ files.map Prod.fst, path ∉ (s.phase task').newPaths ∧
        path ∉ (s.phase task').oldPaths := fun task' path hpath =>
      (hfreshOf path hpath).2.2 task' (by cases task' <;> simp)
    have hobjects : ∀ path, path ∉ files.map Prod.fst →
        (putObjects s.objects ((files.map Prod.fst).zip chunks)).lookup path = s.objects.lookup path :=
          fun path hpath =>
      lookup_putObjects (by rw [hkeys]; exact hpath)
    have hkept : ∀ path, path ∈ s.listedPaths p ∨ path ∈ (s.phase task.other).newPaths →
        (putObjects s.objects ((files.map Prod.fst).zip chunks)).lookup path = s.objects.lookup path :=
      fun path hpath => hobjects path fun hkey =>
        hpath.elim (hunlisted path hkey) (hunused task.other path hkey).1
    refine h.setPhase (by rw [hread]; rfl) hkept (fun path hpath => Or.inr ?_) ?_
    · exact hunused task.other path (hpaths ▸ hpath)
    · refine ⟨?_, ?_, ?_, ?_, ?_, ?_, ?_, ?_⟩ <;>
        simp only [setPhase_self, setPhase_other, SwapPhase.listed?, SwapPhase.newPaths, SwapPhase.oldPaths, hpaths]
      · rintro _ _ ⟨⟩
        exact htask.seen seen oldFiles hlisted
      · rintro _ _ ⟨⟩
        exact htask.listed seen oldFiles hlisted
      · rintro _ _ ⟨⟩
        exact htask.stale seen oldFiles hlisted
      · rintro hcompaction _ _ ⟨⟩
        exact htask.many hcompaction seen oldFiles hlisted
      · rintro _ _ _ ⟨⟩
      · rintro _ _ _ ⟨⟩ hseen
        have hcontent : SwapSystem.content p s = downloaded.flatten := by
          have hsame := contentOf_downloaded hlen (htask.downloaded seen oldFiles downloaded hread hseen)
          rw [htask.listed seen oldFiles hlisted hseen] at hsame
          exact hsame
        have hstored : contentOf (putObjects s.objects _) _ = _ := contentOf_putObjects (hkeys.symm ▸ hnd)
        rw [hkeys, List.map_snd_zip (by rw [List.length_map]; exact Nat.le_of_eq hfiles.symm)] at hstored
        refine ⟨batches, ?_, ?_⟩
        · refine (congrArg (p.rewrite task) (Eq.trans ?_ hcontent)).trans hrewrite
          exact contentOf_congr fun path hpath => hkept path (Or.inl hpath)
        · rw [hpaths, hstored]
          exact hsplit
      · intro path hpath
        exact ⟨hunlisted path hpath, (hunused task.other path hpath).1⟩
      · exact fun path hpath => (nomatch hpath)

theorem SwapInv.delete {ok : Bool} (h : SwapInv p start s) (hstep : s.delete task ok = some s') :
    SwapInv p start s' := by
  rcases delete_cases hstep with ⟨hphase, rfl⟩ | ⟨path, paths, hphase, rfl⟩
  · refine h.setPhase (by rw [hphase]; rfl) (fun _ _ => rfl) (fun _ hpath => (nomatch hpath)) (TaskInv.idle ?_ ?_)
    · exact congrArg SwapPhase.listed? (setPhase_self _)
    · exact congrArg SwapPhase.oldPaths (setPhase_self _)
  · have hold := (h.tasks task).oldPaths
    rw [hphase] at hold
    have hobjects : ∀ path', path' ∈ s.listedPaths p ∨ path' ∈ (s.phase task.other).newPaths →
        (if ok then s.objects.erase path else s.objects).lookup path' = s.objects.lookup path' := by
      intro path' hpath'
      have hne : path' ≠ path := by
        rintro rfl
        obtain ⟨hlisted, hnew⟩ := hold path' List.mem_cons_self
        exact hpath'.elim hlisted hnew
      split
      · rw [Dict.lookup_erase', if_neg hne]
      · rfl
    refine h.setPhase (by rw [hphase]; rfl) hobjects (fun _ hpath => (nomatch hpath)) ?_
    refine ⟨?_, ?_, ?_, ?_, ?_, ?_, ?_, ?_⟩ <;>
      simp only [setPhase_self, setPhase_other, SwapPhase.listed?, SwapPhase.newPaths, SwapPhase.oldPaths]
    · exact fun _ _ hnone => (nomatch hnone)
    · exact fun _ _ hnone => (nomatch hnone)
    · exact fun _ _ hnone => (nomatch hnone)
    · exact fun _ _ _ hnone => (nomatch hnone)
    · exact fun _ _ _ hnone => (nomatch hnone)
    · exact fun _ _ _ hnone => (nomatch hnone)
    · exact fun path hpath => (nomatch hpath)
    · exact fun path' hpath' => hold path' (List.mem_cons_of_mem _ hpath')

theorem SwapInv.fail {cleaned : List String} (h : SwapInv p start s) (hstep : s.fail task cleaned = some s') :
    SwapInv p start s' := by
  obtain ⟨hswapped, rfl⟩ := fail_cases hstep
  have hobjects : ∀ path, path ∈ s.listedPaths p ∨ path ∈ (s.phase task.other).newPaths →
      (s.objects.filter fun path _ => !decide (path ∈ (s.phase task).newPaths ∧ path ∈ cleaned)).lookup path =
        s.objects.lookup path := by
    intro path hpath
    have hkept : path ∉ (s.phase task).newPaths := fun hnew =>
      hpath.elim ((h.tasks task).newPaths path hnew).1 ((h.tasks task).newPaths path hnew).2
    rw [Dict.lookup_filter]
    cases s.objects.lookup path with
    | none => rfl
    | some batches => simp [hkept]
  refine h.setPhase hswapped.symm hobjects (fun _ hpath => (nomatch hpath)) (TaskInv.idle ?_ ?_)
  · exact congrArg SwapPhase.listed? (setPhase_self _)
  · exact congrArg SwapPhase.oldPaths (setPhase_self _)

theorem RowsKept.compacted (h : RowsKept p start s) (hsame : SameRows (s.content p) (s'.content p))
    (hphase : (s'.phase .merge).swapped = (s.phase .merge).swapped) : RowsKept p start s' := by
  unfold RowsKept at h ⊢
  rw [hphase]
  split at h
  · next hmerged =>
    rw [if_pos hmerged]
    obtain ⟨existing, merged, hexisting, hmerge, hperm⟩ := h
    exact ⟨existing, merged, hexisting, hmerge, hsame.perm.trans hperm⟩
  · next hmerged =>
    rw [if_neg hmerged]
    exact h.trans hsame

/-- A swap of the files that are registered leaves what was written from them. -/
theorem SwapInv.swap {ids : List Uuid} {syncVersion : Int} (h : SwapInv p start s)
    (hcond : s.Serialized (.swap task ids syncVersion)) (hstep : s.swap p task ids syncVersion = some s') :
    SwapInv p start s' := by
  obtain ⟨seen, files, newFiles, catalog, hphase, hlen, hcatalog, rfl⟩ := swap_cases hstep
  have htask := h.tasks task
  have hother := h.tasks task.other
  have hseen := hcond seen files newFiles hphase
  have hlisted : (s.phase task).listed? = some (seen, files) := by rw [hphase]; rfl
  have hfiles : files = s.listed p := htask.listed seen files hlisted hseen
  rw [hfiles] at hcatalog ⊢
  have hpaths : (newFiles.map (·.filePath)).Perm (catalog.listedFiles p.partitionId |>.map Prod.snd) := by
    have hperm := (listedFiles_swap hcatalog).map Prod.snd
    rw [List.map_map] at hperm
    conv at hperm => rhs; rw [show (Prod.snd ∘ fun nf : Uuid × NewPartitionFile => (nf.1, nf.2.filePath)) =
      (·.filePath) ∘ Prod.snd from rfl, ← List.map_map, List.map_snd_zip (Nat.le_of_eq hlen.symm)]
    exact hperm.symm
  have hpath : ∀ path, path ∈ (catalog.listedFiles p.partitionId).map Prod.snd ↔ path ∈ (s.phase task).newPaths := by
    intro path
    rw [hphase]
    exact hpaths.symm.mem_iff
  have hunswapped : (s.phase task).swapped = false := by rw [hphase]; rfl
  refine ⟨?_, forall_task task ?_ ?_⟩
  · obtain ⟨batches, hrewrite, hviews, huni⟩ := htask.written seen files newFiles hphase hseen
    have hcontent := @contentOf_perm s.objects _ _ hpaths
    have hrows := hviews ▸ (views_perm hcontent).symm
    have huni' : ∀ schema, Uniform schema batches →
        Uniform schema (contentOf s.objects ((catalog.listedFiles p.partitionId).map Prod.snd)) :=
      fun schema hs b hb => huni schema hs b (hcontent.mem_iff.mpr hb)
    cases task with
    | compaction =>
      obtain ⟨⟨schema, hs⟩, hperm⟩ := compactBatches_ok hrewrite
      have hsame : SameRows (s.content p) (contentOf s.objects ((catalog.listedFiles p.partitionId).map Prod.snd)) := by
        refine ⟨((hrows.trans hperm).map eraseMeta).trans (List.Perm.of_eq ?_), fun _ => ⟨schema, huni' schema hs⟩⟩
        rw [List.map_map]
        exact List.map_congr_left fun view _ => eraseMeta_eraseMeta view
      exact h.rows.compacted hsame rfl
    | merge =>
      have hstart : SameRows start (s.content p) := by
        have hold := h.rows
        unfold RowsKept at hold
        rwa [if_neg (by simp [hunswapped])] at hold
      show RowsKept p start _
      unfold RowsKept
      rw [if_pos (by simp [SwapPhase.swapped])]
      exact ⟨s.content p, batches, hstart, ok_of_toOption hrewrite, hrows.map eraseMeta⟩
  · refine ⟨?_, ?_, ?_, ?_, ?_, ?_, ?_, ?_⟩ <;>
      simp only [setPhase_self, setPhase_other, SwapPhase.listed?, SwapPhase.newPaths, SwapPhase.oldPaths]
    · exact fun _ _ hnone => (nomatch hnone)
    · exact fun _ _ hnone => (nomatch hnone)
    · exact fun _ _ hnone => (nomatch hnone)
    · exact fun _ _ _ hnone => (nomatch hnone)
    · exact fun _ _ _ hnone => (nomatch hnone)
    · exact fun _ _ _ hnone => (nomatch hnone)
    · exact fun path hnew => (nomatch hnew)
    · intro path hold
      have hin : path ∈ s.listedPaths p := removedPaths_eq s.catalog p.partitionId hold
      refine ⟨fun hnew => ?_, fun hnew => (hother.newPaths path hnew).1 hin⟩
      exact (htask.newPaths path ((hpath path).mp hnew)).1 hin
  · have hunseen : ∀ seen' files', (s.phase task.other).listed? = some (seen', files') → seen' = false := by
      intro seen' files' hlisted'
      by_contra htrue
      have hswapped := hother.seen seen' files' hlisted' (by simpa using htrue)
      rw [other_other, hunswapped] at hswapped
      cases hswapped
    refine ⟨?_, ?_, ?_, ?_, ?_, ?_, ?_, ?_⟩ <;>
      simp only [setPhase_self, setPhase_other, other_other, SwapPhase.swapped]
    · exact fun _ _ _ _ => trivial
    · intro seen' files' hlisted' htrue
      exact absurd (hunseen seen' files' hlisted') (by simp [← htrue])
    · intro seen' files' hlisted' _
      have hfiles' : files' = s.listed p := by
        refine hother.listed seen' files' hlisted' ?_
        rw [other_other, hunswapped, hunseen seen' files' hlisted']
      refine ⟨?_, fun file hfile hnew => ?_⟩
      · have hmany : 2 ≤ (s.listed p).length := by
          cases task with
          | compaction => exact hfiles ▸ htask.many rfl seen files hlisted
          | merge => exact hfiles' ▸ hother.many rfl seen' files' hlisted'
        rintro rfl
        rw [← hfiles'] at hmany
        exact absurd hmany (by decide)
      · obtain ⟨nf, hnf, hid⟩ := List.mem_map.mp ((listedFiles_swap hcatalog).mem_iff.mp hnew)
        refine swapPartitionFiles_fresh hcatalog nf hnf ?_
        rw [hfiles'] at hfile
        exact List.mem_map.mpr ⟨file, hfile, (congrArg Prod.fst hid).symm⟩
    · exact hother.many
    · intro seen' files' downloaded hread htrue
      exact absurd (hunseen seen' files' (by rw [hread]; rfl)) (by simp [← htrue])
    · intro seen' files' newFiles' hwritten htrue
      exact absurd (hunseen seen' files' (by rw [hwritten]; rfl)) (by simp [← htrue])
    · intro path hnew
      refine ⟨fun hin => ?_, fun hnil => (nomatch hnil)⟩
      exact (hother.newPaths path hnew).2 (by rw [other_other]; exact (hpath path).mp hin)
    · intro path hold
      refine ⟨fun hin => ?_, fun hnil => (nomatch hnil)⟩
      exact (hother.oldPaths path hold).2 (by rw [other_other]; exact (hpath path).mp hin)

theorem SwapInv.step {a : SwapAction} (h : SwapInv p start s) (hcond : s.Serialized a)
    (hstep : s.step p a = some s') : SwapInv p start s' := by
  cases a with
  | list task => exact h.list hstep
  | download task => exact h.download hstep
  | write task files => exact h.write hstep
  | swap task ids syncVersion => exact h.swap hcond hstep
  | delete task ok => exact h.delete hstep
  | fail task cleaned => exact h.fail hstep

theorem SwapInv.replaces {a : SwapAction} (h : SwapInv p start s) (hstep : s.step p a = some s') :
    ReplacesRegistered p s a ↔ s.Serialized a := by
  cases a with
  | swap task ids syncVersion =>
    obtain ⟨seen, files, newFiles, catalog, hphase, -, -, rfl⟩ := swap_cases hstep
    have hlisted : (s.phase task).listed? = some (seen, files) := by rw [hphase]; rfl
    constructor
    · intro hreplaces seen' files' newFiles' hphase'
      cases hphase.symm.trans hphase'
      by_contra hne
      obtain ⟨hnil, hnone⟩ := (h.tasks task).stale seen files hlisted hne
      obtain ⟨file, hfile⟩ := List.exists_mem_of_ne_nil files hnil
      exact hnone file hfile (hreplaces task ids syncVersion rfl seen files newFiles hphase file hfile)
    · rintro hcond _ _ _ ⟨⟩ seen' files' newFiles' hphase' file hfile
      cases hphase.symm.trans hphase'
      exact (h.tasks task).listed seen files hlisted (hcond seen files newFiles hphase) ▸ hfile
  | _ => exact iff_of_true (fun _ _ _ heq => (nomatch heq)) trivial

end Steps

def begin (catalog : Catalog) (objects : Dict String (List RecordBatch)) : SwapSystem := { catalog, objects }

theorem begin_inv (p : SwapParams) (catalog : Catalog) (objects : Dict String (List RecordBatch)) :
    SwapInv p ((begin catalog objects).content p) (begin catalog objects) :=
  ⟨SameRows.refl _, fun _ => TaskInv.idle rfl rfl⟩

/-- Compaction and merge commute exactly in the runs in which neither swaps between the other's listing and swap. -/
theorem commutes_iff (p : SwapParams) (catalog : Catalog) (objects : Dict String (List RecordBatch))
    (run : List SwapAction) :
    Meets (step p) (Commutes p ((begin catalog objects).content p)) (begin catalog objects) run ↔
      Meets (step p) Serialized (begin catalog objects) run := by
  refine meets_iff_of_inv (fun s a s' => SwapInv.step) (fun s a s' h hstep => ?_) (begin_inv p catalog objects)
  rw [Commutes, hstep, ← h.replaces hstep]
  constructor
  · exact fun hcommutes => (hcommutes s' rfl).1
  · intro hreplaces t ht
    cases ht
    exact ⟨hreplaces, fun _ => (h.step ((h.replaces hstep).mp hreplaces) hstep).rows⟩

/-! ### Two swaps of the same files -/

def eventsParams : SwapParams where
  env := {
    plainEnv with
    lexsortToIndices := fun b _ => some (List.range b.numRows)
    lexsort_perm := fun b _ indices h => by rw [Option.mem_some_iff.mp h] }
  partitionId := 1
  pkColumns := ["id"]
  newBatches := (eventsDelivery 19000 [(2, 19000)]).batches

def eventsCatalog : Catalog where
  partitions := (∅ : Dict Uuid Partition).insert 1 {
    sourceId := 0, tableName := "events", partitionDate := 19000, parquetPath := some "warm/events/" }
  files := ((∅ : Dict Uuid PartitionFile).insert 10 (swappedFile 1 1 ⟨"warm/events/a", 1, 100⟩)).insert 11
    (swappedFile 1 1 ⟨"warm/events/b", 1, 100⟩)
  jobs := ∅
  references := fun id file h => by
    have hpid : file.partitionId = 1 := by
      rw [Dict.lookup_insert'] at h
      split at h
      · cases h
        rfl
      · rw [Dict.lookup_insert'] at h
        split at h
        · cases h
          rfl
        · cases h
    rw [hpid]
    exact (AList.mem_insert _).mpr (Or.inl rfl)

def eventsObjects : Dict String (List RecordBatch) :=
  ((∅ : Dict String (List RecordBatch)).insert "warm/events/a" (eventsDelivery 19000 [(1, 19000)]).batches).insert
    "warm/events/b" (eventsDelivery 19000 [(2, 19000)]).batches

/-- Both tasks list the two files and write their replacement before either swaps. -/
def crossedSwaps : List SwapAction :=
  [.list .compaction, .list .merge, .download .compaction, .download .compaction, .download .merge, .download .merge,
    .write .merge [("warm/events/merged", 150)], .write .compaction [("warm/events/compacted", 150)],
      .swap .merge [20] 2]

def crossedEnd : List SwapAction :=
  [.swap .compaction [21] 3, .delete .merge true, .delete .merge true, .delete .merge true, .delete .compaction true]

/-- Every row is there twice when both tasks have finished. -/
theorem crossedSwaps_not_commute :
    ¬ Meets (step eventsParams)
        (Commutes eventsParams ((begin eventsCatalog eventsObjects).content eventsParams))
        (begin eventsCatalog eventsObjects) (crossedSwaps ++ crossedEnd) ∧
      ∃ s, exec (step eventsParams) (begin eventsCatalog eventsObjects) (crossedSwaps ++ crossedEnd) = some s ∧
        s.phase .compaction = .done true ∧ s.phase .merge = .done true ∧
        (views ((begin eventsCatalog eventsObjects).content eventsParams)).map (· "id") =
          [some (.int64, .int 2), some (.int64, .int 1)] ∧
        (views (s.content eventsParams)).map (· "id") =
          [some (.int64, .int 2), some (.int64, .int 1), some (.int64, .int 1), some (.int64, .int 2)] := by
  refine ⟨fun h => ?_, _, rfl, rfl, rfl, by decide, by decide⟩
  have hrun : exec (step eventsParams) (begin eventsCatalog eventsObjects) crossedSwaps = some _ := rfl
  obtain ⟨hreplaces, -⟩ := (((meets_append hrun).mp h).2 _ rfl).1 _ rfl
  have hlisted := hreplaces .compaction [21] 3 rfl _ _ _ rfl (10, "warm/events/a") (by decide)
  exact absurd hlisted (by decide)

end SwapSystem
end Reiver.Pond
