import Reiver.Pond.Indexes.Blob
import Reiver.Pond.Indexes.Summary

/-! # Assembling an index from entries

The files of a map are the entries that load, grouped by partition key and path (`columnAt_fileMapOf`). An
index assembled from a map in any order is the index of a history that adds each file once. -/

namespace Reiver.Pond

/-! ### Assembled files -/

/-- The set a map of files has for a column of a file. -/
def FileMap.columnAt (m : FileMap) (k path c : String) : Option FstSet :=
  (m.lookup (k, path)).bind (·.1.columnValues.lookup c)

def FileIndexEntry.key (e : FileIndexEntry) : String × String × String := (e.partitionKey, e.filePath, e.columnName)

section Assembly
variable {decode : Bytes → Option FstSet} {m : FileMap} {e : FileIndexEntry} {entries : List FileIndexEntry}
  {k path c : String} {s : FstSet}

theorem addEntry_eq : m.addEntry decode e = match loadFst decode e.fstData with
    | .error _ => m
    | .ok s =>
      let file :=
        (m.lookup (e.partitionKey, e.filePath)).getD ({ filePath := e.filePath, columnValues := ∅ }, e.rowCount)
      m.insert (e.partitionKey, e.filePath)
        ({ file.1 with columnValues := file.1.columnValues.insert e.columnName s }, file.2) := by
  unfold FileMap.addEntry FileSkipIndex.addColumnFst FileSkipIndex.fromSerializedFst
  dsimp only
  cases loadFst decode e.fstData <;> cases m.lookup (e.partitionKey, e.filePath) <;> rfl

theorem columnAt_addEntry (hs : loadFst decode e.fstData = .ok s) : (m.addEntry decode e).columnAt k path c =
    if e.key = (k, path, c) then some s else m.columnAt k path c := by
  rw [addEntry_eq, hs]
  unfold FileMap.columnAt FileIndexEntry.key
  dsimp only
  rw [Dict.lookup_insert']
  by_cases hkey : (k, path) = (e.partitionKey, e.filePath)
  · obtain ⟨rfl, rfl⟩ := Prod.mk.inj hkey
    rw [if_pos rfl, Option.bind_some, Dict.lookup_insert']
    by_cases hc : c = e.columnName
    · rw [if_pos hc, if_pos (by rw [hc])]
    · rw [if_neg hc, if_neg fun heq => hc (Prod.mk.inj (Prod.mk.inj heq).2).2.symm]
      cases m.lookup (e.partitionKey, e.filePath) <;> rfl
  · rw [if_neg hkey, if_neg fun heq => hkey ?_]
    obtain ⟨h₁, h₂⟩ := Prod.mk.inj heq
    rw [h₁, (Prod.mk.inj h₂).1]

theorem addEntry_of_error {err : SkipIndexError} (hs : loadFst decode e.fstData = .error err) :
    m.addEntry decode e = m := by
  rw [addEntry_eq, hs]

theorem fileMapOf_concat : fileMapOf decode (entries ++ [e]) = (fileMapOf decode entries).addEntry decode e := by
  simp [fileMapOf]

theorem columnAt_fileMapOf (hnd : (entries.map FileIndexEntry.key).Nodup) :
    (fileMapOf decode entries).columnAt k path c = some s ↔
      ∃ e ∈ entries, e.key = (k, path, c) ∧ loadFst decode e.fstData = .ok s := by
  induction entries using List.reverseRecOn with
  | nil => exact iff_of_false (fun hn => by cases hn) fun ⟨e, he, _⟩ => List.not_mem_nil he
  | append_singleton entries e ih =>
    rw [List.map_append, List.nodup_append'] at hnd
    obtain ⟨hnd, -, hdisj⟩ := hnd
    have hfresh : ∀ e' ∈ entries, e'.key ≠ e.key := fun e' he' heq =>
      hdisj (List.mem_map_of_mem he') (heq ▸ List.mem_map_of_mem (List.mem_singleton_self e))
    rw [fileMapOf_concat]
    simp only [List.mem_append, List.mem_singleton, or_and_right, exists_or, exists_eq_left]
    cases hs : loadFst decode e.fstData with
    | error err =>
      rw [addEntry_of_error hs, ih hnd]
      simp
    | ok t =>
      rw [columnAt_addEntry hs]
      split
      · next hkey =>
        refine ⟨fun ht => Or.inr ⟨hkey, congrArg Except.ok (Option.some.inj ht)⟩, ?_⟩
        rintro (⟨e', he', hkey', -⟩ | ⟨-, ht⟩)
        · exact absurd (hkey'.trans hkey.symm) (hfresh e' he')
        · exact congrArg some (Except.ok.inj ht)
      · next hkey =>
        rw [ih hnd]
        exact ⟨Or.inl, fun hor => hor.resolve_right fun hr => hkey hr.1⟩

/-- Every file of the map stands under its path and has a column. -/
structure FileMapInv (m : FileMap) : Prop where
  path : ∀ k path f n, m.lookup (k, path) = some (f, n) → f.filePath = path
  indexed : ∀ k path f n, m.lookup (k, path) = some (f, n) → ∃ c s, f.columnValues.lookup c = some s

theorem fileMapInv_addEntry (hi : FileMapInv m) : FileMapInv (m.addEntry decode e) := by
  cases hs : loadFst decode e.fstData with
  | error err => exact addEntry_of_error hs ▸ hi
  | ok s =>
    rw [addEntry_eq, hs]
    refine ⟨fun k path f n hf => ?_, fun k path f n hf => ?_⟩ <;> dsimp only at hf <;>
      rw [Dict.lookup_insert'] at hf <;> split at hf
    · next hkey =>
      obtain ⟨rfl, rfl⟩ := Prod.mk.inj hkey
      cases Option.some.inj hf
      cases hm : m.lookup (e.partitionKey, e.filePath) with
      | none => rfl
      | some v => exact hi.path _ _ v.1 v.2 hm
    · exact hi.path _ _ _ _ hf
    · cases Option.some.inj hf
      exact ⟨e.columnName, s, AList.lookup_insert _⟩
    · exact hi.indexed _ _ _ _ hf

theorem fileMapInv_fileMapOf (decode : Bytes → Option FstSet) (entries : List FileIndexEntry) :
    FileMapInv (fileMapOf decode entries) := by
  induction entries using List.reverseRecOn with
  | nil => exact ⟨fun _ _ _ _ hf => (nomatch hf), fun _ _ _ _ hf => (nomatch hf)⟩
  | append_singleton entries e ih => exact fileMapOf_concat ▸ fileMapInv_addEntry ih

end Assembly

/-! ### Assembled indexes -/

section Assembled
variable {m : FileMap} {order : List ((String × String) × (FileSkipIndex × Nat))} {k path c : String}

def history (order : List ((String × String) × (FileSkipIndex × Nat))) : List AddFile :=
  order.map fun e => ⟨e.1.1, e.2.1, e.2.2⟩

theorem assemble_eq (order : List ((String × String) × (FileSkipIndex × Nat))) :
    assemble order = build (history order) := by
  rw [assemble, build, history, List.foldl_map]

theorem latest_history (hi : FileMapInv m) (hperm : order.Perm m.pairs) :
    latest (history order) k path = (m.lookup (k, path)).map (·.1) := by
  have hmem : ∀ k path f n, ((k, path), (f, n)) ∈ order ↔ m.lookup (k, path) = some (f, n) :=
    fun k path f n => hperm.mem_iff.trans Dict.mem_pairs
  cases hl : latest (history order) k path with
  | some f =>
    obtain ⟨a, ha, rfl, rfl, rfl⟩ := exists_of_latest hl
    obtain ⟨⟨⟨k', path'⟩, f, n⟩, he, rfl⟩ := List.mem_map.mp ha
    have hf := (hmem _ _ _ _).mp he
    rw [hi.path _ _ _ _ hf, hf]
    rfl
  | none =>
    cases hm : m.lookup (k, path) with
    | none => rfl
    | some v =>
      have hnone := List.find?_eq_none.mp (Option.map_eq_none_iff.mp hl)
      refine absurd (decide_eq_true ?_) (hnone ⟨k, v.1, v.2⟩ (List.mem_reverse.mpr (List.mem_map.mpr
        ⟨((k, path), v), (hmem _ _ _ _).mpr hm, rfl⟩)))
      exact ⟨rfl, hi.path _ _ _ _ hm⟩

theorem evidence_history (order : List ((String × String) × (FileSkipIndex × Nat))) :
    evidence (history order) k c =
      order.filterMap fun e => if e.1.1 = k then e.2.1.columnValues.lookup c else none := by
  induction order with
  | nil => rfl
  | cons e order ih =>
    rw [evidence, history, List.map_cons, List.flatMap_cons]
    show _ ++ evidence (history order) k c = _
    rw [ih, List.filterMap_cons]
    dsimp only
    split
    · cases e.2.1.columnValues.lookup c <;> rfl
    · rfl

/-- The sets the current files of a partition have for a column. -/
def currentSets (h : List AddFile) (k c : String) : List FstSet :=
  (partition h k).files.pairs.filterMap fun e => e.2.columnValues.lookup c

theorem mem_currentSets {h : List AddFile} {s : FstSet} : s ∈ currentSets h k c ↔
    ∃ path f, latest h k path = some f ∧ f.columnValues.lookup c = some s := by
  simp only [currentSets, List.mem_filterMap, Prod.exists, Dict.mem_pairs, files_build]

/-- What the files of a partition have for a column in a map, by path. -/
def FileMap.columnsOf (m : FileMap) (k c : String) : List (String × Option FstSet) :=
  m.pairs.filterMap fun e => if e.1.1 = k then some (e.1.2, e.2.1.columnValues.lookup c) else none

theorem columnsOf_sets : (m.columnsOf k c).filterMap Prod.snd =
    m.pairs.filterMap fun e => if e.1.1 = k then e.2.1.columnValues.lookup c else none := by
  rw [FileMap.columnsOf, List.filterMap_filterMap]
  refine List.filterMap_congr fun e _ => ?_
  split <;> rfl

theorem mem_columnsOf {o : Option FstSet} :
    (path, o) ∈ m.columnsOf k c ↔ ∃ v, m.lookup (k, path) = some v ∧ v.1.columnValues.lookup c = o := by
  simp only [FileMap.columnsOf, List.mem_filterMap]
  constructor
  · rintro ⟨⟨⟨k', path'⟩, v⟩, he, hif⟩
    split at hif
    · next hk =>
      obtain ⟨rfl, rfl⟩ := Prod.mk.inj (Option.some.inj hif)
      exact ⟨v, Dict.mem_pairs.mp (hk ▸ he), rfl⟩
    · cases hif
  · rintro ⟨v, hl, rfl⟩
    exact ⟨((k, path), v), Dict.mem_pairs.mpr hl, if_pos rfl⟩

theorem columnsOf_nodup : (m.columnsOf k c).Nodup := by
  refine List.Nodup.of_map Prod.fst ?_
  have hmap : (m.columnsOf k c).map Prod.fst =
      (m.pairs.map Prod.fst).filterMap fun key => if key.1 = k then some key.2 else none := by
    rw [FileMap.columnsOf, List.map_filterMap, List.filterMap_map]
    refine List.filterMap_congr fun e _ => ?_
    dsimp only [Function.comp]
    split <;> rfl
  rw [hmap]
  refine m.pairs_nodup.filterMap ?_
  rintro ⟨k₁, path₁⟩ ⟨k₂, path₂⟩ b h₁ h₂
  simp only [Option.mem_def, Option.ite_none_right_eq_some, Option.some.injEq] at h₁ h₂
  rw [h₁.1, h₁.2, h₂.1, h₂.2]

theorem currentSets_perm {h : List AddFile} (hpaths : ∀ path, (m.lookup (k, path)).isSome = (latest h k path).isSome)
    (hsets : ∀ path, m.columnAt k path c = (latest h k path).bind (·.columnValues.lookup c)) :
    (m.pairs.filterMap fun e => if e.1.1 = k then e.2.1.columnValues.lookup c else none).Perm (currentSets h k c) := by
  -- both sides list the set under each path, and a path stands once on each side
  let columns := (partition h k).files.pairs.map fun e => (e.1, e.2.columnValues.lookup c)
  have hcolumns : columns.filterMap Prod.snd = currentSets h k c := by rw [List.filterMap_map]; rfl
  have hnodup : columns.Nodup := by
    refine List.Nodup.of_map Prod.fst ?_
    rw [List.map_map]
    exact (partition h k).files.pairs_nodup
  have hmem : ∀ path o, (path, o) ∈ columns ↔ ∃ f, latest h k path = some f ∧ f.columnValues.lookup c = o := by
    intro path o
    simp only [columns, List.mem_map, Prod.exists, Dict.mem_pairs, files_build, Prod.mk.injEq]
    constructor
    · rintro ⟨path', f, hl, rfl, rfl⟩
      exact ⟨f, hl, rfl⟩
    · rintro ⟨f, hl, rfl⟩
      exact ⟨path, f, hl, rfl, rfl⟩
  rw [← columnsOf_sets, ← hcolumns]
  refine ((List.perm_ext_iff_of_nodup columnsOf_nodup hnodup).mpr ?_).filterMap _
  rintro ⟨path, o⟩
  rw [mem_columnsOf, hmem]
  have hp := hpaths path
  have hs := hsets path
  rw [FileMap.columnAt] at hs
  cases hm : m.lookup (k, path) <;> cases hl : latest h k path <;> simp_all

end Assembled

end Reiver.Pond
