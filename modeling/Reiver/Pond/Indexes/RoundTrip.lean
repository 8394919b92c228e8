import Mathlib.Data.Fintype.EquivFin
import Reiver.Pond.Indexes.Assembly
import Reiver.Pond.Indexes.BlobCodec
import Reiver.Pond.Indexes.Pruning

/-! # Persisting an index

An index is written as its file columns and assembled again from them. What comes back is what each file
column contributes, so a file without columns is gone, and a summary is rebuilt from the current files only
(`roundTrips_iff`). -/

namespace Reiver.Pond

/-- The file an index holds under a partition key and a path. -/
def HierarchicalSkipIndex.fileAt (index : HierarchicalSkipIndex) (k path : String) : Option FileSkipIndex :=
  (index.partitions.lookup k).bind fun P => P.files.lookup path

/-- An index that took the place of another has the same files with the same sets, and keeps at least the
    files the other one keeps. -/
structure Preserves (index index' : HierarchicalSkipIndex) : Prop where
  paths : ∀ k path, (index'.fileAt k path).isSome = (index.fileAt k path).isSome
  sets : ∀ k path c, (index'.fileAt k path).bind (·.columnValues.lookup c) =
    (index.fileAt k path).bind (·.columnValues.lookup c)
  kept : ∀ builds p hints, ∀ path ∈ index.filterWithSkipPredicates builds p hints,
    path ∈ index'.filterWithSkipPredicates builds p hints

/-- Writing an index, reading the blob and assembling the entries, in any order, preserves the index. -/
def RoundTrips (encode : FstSet → Bytes) (decode : Bytes → Option FstSet) (index : HierarchicalSkipIndex) : Prop :=
  ∃ blob entries, serializeTableIndex encode index = some blob ∧ deserializeTableIndex blob = .ok entries ∧
    ∀ index', BuildsFromEntries decode entries index' → Preserves index index'

theorem fileAt_build (h : List AddFile) (k path : String) : (build h).fileAt k path = latest h k path := by
  rw [← files_build, HierarchicalSkipIndex.fileAt, partition]
  cases (build h).partitions.lookup k <;> rfl

/-! ### The entries of an index -/

section Entries
variable {encode : FstSet → Bytes} {h : List AddFile}

theorem rawEntries_nodup (encode : FstSet → Bytes) (index : HierarchicalSkipIndex) :
    ((rawEntries encode index).map FileIndexEntry.key).Nodup := by
  rw [rawEntries, List.map_flatMap]
  refine Dict.nodup_flatMap_pairs _ Prod.fst ?_ ?_
  · rintro ⟨k, P⟩ -
    rw [List.map_flatMap]
    refine Dict.nodup_flatMap_pairs _ (·.2.1) ?_ ?_
    · rintro ⟨path, f⟩ -
      refine List.Nodup.of_map (·.2.2) ?_
      rw [List.map_map, List.map_map]
      exact f.columnValues.pairs_nodup
    · rintro ⟨path, f⟩ - b hb
      obtain ⟨e, he, rfl⟩ := List.mem_map.mp hb
      obtain ⟨e', -, rfl⟩ := List.mem_map.mp he
      rfl
  · rintro ⟨k, P⟩ - b hb
    obtain ⟨e, he, rfl⟩ := List.mem_map.mp hb
    obtain ⟨f, -, hf⟩ := List.mem_flatMap.mp he
    obtain ⟨e', -, rfl⟩ := List.mem_map.mp hf
    rfl

def entryOf (encode : FstSet → Bytes) (h : List AddFile) (k path c : String) (s : FstSet) : FileIndexEntry :=
  { filePath := path, columnName := c, partitionKey := k, rowCount := (partition h k).rowsPerFile, fstData := encode s }

theorem mem_rawEntries {e : FileIndexEntry} : e ∈ rawEntries encode (build h) ↔ ∃ k path f c s,
    latest h k path = some f ∧ f.columnValues.lookup c = some s ∧ e = entryOf encode h k path c s := by
  simp only [rawEntries, List.mem_flatMap, List.mem_map, Prod.exists, Dict.mem_pairs]
  constructor
  · rintro ⟨k, P, hP, path, f, hf, c, s, hs, rfl⟩
    obtain rfl := partition_of_lookup hP
    exact ⟨k, path, f, c, s, files_build h k path ▸ hf, hs, rfl⟩
  · rintro ⟨k, path, f, c, s, hf, hs, rfl⟩
    exact ⟨k, partition h k, exists_partition hf, path, f, files_build h k path ▸ hf, c, s, hs, rfl⟩

end Entries

/-! ### Reading back -/

section Decoded
variable {encode : FstSet → Bytes} {decode : Bytes → Option FstSet} {h : List AddFile} {k path c : String} {s : FstSet}

/-- The entries a blob of an index reads back as. -/
def decoded (encode : FstSet → Bytes) (index : HierarchicalSkipIndex) : List FileIndexEntry :=
  let entries := (rawEntries encode index).filter (·.Encodable)
  (entries.take (entries.length % 2 ^ 32)).map (·.cut)

theorem deserialize_serializeTableIndex {index : HierarchicalSkipIndex} {blob : Bytes}
    (hblob : serializeTableIndex encode index = some blob) :
    deserializeTableIndex blob = .ok (decoded encode index) :=
  deserialize_serializeEntries (fun _ he => of_decide_eq_true (List.mem_filter.mp he).2) hblob

theorem decoded_nodup (encode : FstSet → Bytes) (index : HierarchicalSkipIndex) :
    ((decoded encode index).map FileIndexEntry.key).Nodup := by
  rw [decoded, List.map_map]
  show (List.map FileIndexEntry.key _).Nodup
  refine (rawEntries_nodup encode index).sublist (List.Sublist.map _ ?_)
  exact (List.take_sublist _ _).trans List.filter_sublist

abbrev reloaded (encode : FstSet → Bytes) (decode : Bytes → Option FstSet) (h : List AddFile) : FileMap :=
  fileMapOf decode (decoded encode (build h))

theorem columnAt_reloaded (hs : (reloaded encode decode h).columnAt k path c = some s) :
    ∃ f t, latest h k path = some f ∧ f.columnValues.lookup c = some t ∧
      (entryOf encode h k path c t).cut ∈ decoded encode (build h) ∧
      loadFst decode (entryOf encode h k path c t).cut.fstData = .ok s := by
  obtain ⟨e, he, hkey, hload⟩ := (columnAt_fileMapOf (decoded_nodup _ _)).mp hs
  obtain ⟨e₀, he₀, rfl⟩ := List.mem_map.mp he
  have hraw := (List.mem_filter.mp (List.mem_of_mem_take he₀)).1
  obtain ⟨k', path', f, c', t, hf, ht, rfl⟩ := mem_rawEntries.mp hraw
  have hkey : (k', path', c') = (k, path, c) := hkey
  cases hkey
  exact ⟨f, t, hf, ht, he, hload⟩

theorem fileAt_reloaded {order : List ((String × String) × (FileSkipIndex × Nat))}
    (hperm : order.Perm (reloaded encode decode h).pairs) :
    (assemble order).fileAt k path = ((reloaded encode decode h).lookup (k, path)).map (·.1) := by
  rw [assemble_eq, fileAt_build, latest_history (fileMapInv_fileMapOf _ _) hperm]

theorem columns_reloaded {order : List ((String × String) × (FileSkipIndex × Nat))}
    (hperm : order.Perm (reloaded encode decode h).pairs) :
    ((assemble order).fileAt k path).bind (·.columnValues.lookup c) = (reloaded encode decode h).columnAt k path c := by
  rw [fileAt_reloaded hperm, FileMap.columnAt]
  cases (reloaded encode decode h).lookup (k, path) <;> rfl

end Decoded

/-! ### What survives -/

/-- What the length field keeps of the bytes of a set is within the limit and decodes to the set. -/
def Stored (encode : FstSet → Bytes) (decode : Bytes → Option FstSet) (s : FstSet) : Prop :=
  loadFst decode ((encode s).take ((encode s).length % 2 ^ 32)) = .ok s

/-- The column sets added for a file that lacks the column do not turn against it when the summary is rebuilt
    from the current files: these have no set, or pass a bound, or hold all the values of the old summary. -/
def Fresh (h : List AddFile) (k c : String) : Prop :=
  ∀ l, l.Perm (currentSets h k c) → l = [] ∨ Overflows l ∨
    ¬Overflows (evidence h k c) ∧ unionAll (evidence h k c) ⊆ unionAll l

/-- The histories whose index can be persisted. -/
structure Persistable (encode : FstSet → Bytes) (decode : Bytes → Option FstSet) (h : List AddFile) : Prop where
  indexed : ∀ k path f, latest h k path = some f → ∃ c s, f.columnValues.lookup c = some s
  encodable : ∀ k path f c s, latest h k path = some f → f.columnValues.lookup c = some s →
    path.utf8ByteSize ≤ u16Max ∧ c.utf8ByteSize ≤ u16Max ∧ k.utf8ByteSize ≤ u16Max
  count : (rawEntries encode (build h)).length < 2 ^ 32
  size : totalSize (rawEntries encode (build h)) ≤ isizeMax
  stored : ∀ k path f c s, latest h k path = some f → f.columnValues.lookup c = some s → Stored encode decode s
  fresh : ∀ k path f c, latest h k path = some f → f.columnValues.lookup c = none → Fresh h k c

section Persist
variable {encode : FstSet → Bytes} {decode : Bytes → Option FstSet} {h : List AddFile}

theorem columnAt_of_roundTrips (hrt : RoundTrips encode decode (build h)) (k path c : String) :
    ((reloaded encode decode h).lookup (k, path)).isSome = (latest h k path).isSome ∧
    (reloaded encode decode h).columnAt k path c = (latest h k path).bind (·.columnValues.lookup c) := by
  obtain ⟨blob, entries, hblob, hentries, hrt⟩ := hrt
  rw [deserialize_serializeTableIndex hblob] at hentries
  cases Except.ok.inj hentries
  have hpres := hrt _ ⟨_, List.Perm.refl _, rfl⟩
  have hp := hpres.paths k path
  have hs := hpres.sets k path c
  rw [fileAt_reloaded (List.Perm.refl _), Option.isSome_map, fileAt_build] at hp
  rw [columns_reloaded (List.Perm.refl _), fileAt_build] at hs
  exact ⟨hp, hs⟩

theorem entry_of_roundTrips (hrt : RoundTrips encode decode (build h)) {k path c : String} {f : FileSkipIndex}
    {s : FstSet} (hf : latest h k path = some f) (hs : f.columnValues.lookup c = some s) :
    (entryOf encode h k path c s).cut ∈ decoded encode (build h) ∧ Stored encode decode s := by
  have hcol := (columnAt_of_roundTrips hrt k path c).2
  rw [hf, Option.bind_some, hs] at hcol
  obtain ⟨f', t, hf', ht, he, hload⟩ := columnAt_reloaded hcol
  cases hf.symm.trans hf'
  cases hs.symm.trans ht
  exact ⟨he, hload⟩

/-- The predicate `c = v`. -/
def columnEquals (c v : String) : SkipPredicates := { equality := AList.singleton c v }

@[simp] theorem questions_columnEquals (builds : String → Bool) (c v : String) :
    (columnEquals c v).questions builds = [.of c (mightContain · c v)] := by
  simp [SkipPredicates.questions, columnEquals, Dict.pairs_singleton]

theorem answered_columnEquals {l : List FstSet} {c v : String} :
    Answered l (Question.of c (mightContain · c v)).test ↔ l = [] ∨ Overflows l ∨ v ∈ unionAll l := by
  simp [Answered, Question.of, mightContain]

theorem mem_filter_columnEquals {h : List AddFile} {k path c v : String} {f : FileSkipIndex}
    (hf : latest h k path = some f) (hc : f.columnValues.lookup c = none) :
    path ∈ (build h).filterWithSkipPredicates (fun _ => true) (columnEquals c v) (some [k]) ↔
      evidence h k c = [] ∨ Overflows (evidence h k c) ∨ v ∈ unionAll (evidence h k c) := by
  have hadm : (columnEquals c v).admits (fun _ => true) f.columnValues = true := by
    rw [admits_iff, questions_columnEquals]
    simp [Question.ask, Question.of, hc, mightContain]
  have hsum : (columnEquals c v).admits (fun _ => true) (partition h k).summary = true ↔
      evidence h k c = [] ∨ Overflows (evidence h k c) ∨ v ∈ unionAll (evidence h k c) := by
    rw [admits_summary hadm, questions_columnEquals]
    simp only [List.mem_singleton, forall_eq]
    exact answered_columnEquals
  rw [mem_filter_build, ← hsum]
  constructor
  · rintro ⟨k', f', hk, -, hsum', -⟩
    rwa [List.mem_singleton.mp (hk [k] rfl)] at hsum'
  · exact fun hsum' => ⟨k, f, fun l hl => Option.some.inj hl ▸ List.mem_singleton_self k, hf, hsum', rfl, hadm⟩

theorem fresh_of_roundTrips (hrt : RoundTrips encode decode (build h)) {k path c : String} {f : FileSkipIndex}
    (hf : latest h k path = some f) (hc : f.columnValues.lookup c = none) : Fresh h k c := by
  intro l hl
  by_contra hbad
  simp only [not_or, not_and_or, not_not] at hbad
  obtain ⟨hne, hno, hold⟩ := hbad
  -- an order of the files whose sets for `c` are `l`
  have hsets := currentSets_perm (c := c) (fun path => (columnAt_of_roundTrips hrt k path c).1)
    fun path => (columnAt_of_roundTrips hrt k path c).2
  obtain ⟨order, hperm, horder⟩ := exists_perm_filterMap (hl.trans hsets.symm)
  have hl' : evidence (history order) k c = l := (evidence_history order).trans horder
  -- the file in the rebuilt index
  obtain ⟨hp, hs⟩ := columnAt_of_roundTrips hrt k path c
  rw [hf] at hp hs
  obtain ⟨⟨f', n⟩, hm⟩ := Option.isSome_iff_exists.mp hp
  have hf' : latest (history order) k path = some f' := by
    rw [latest_history (fileMapInv_fileMapOf _ _) hperm, hm]
    rfl
  have hc' : f'.columnValues.lookup c = none := by
    rwa [FileMap.columnAt, hm, Option.bind_some, Option.bind_some, hc] at hs
  -- a value outside of the rebuilt summary that the old one may hold
  obtain ⟨v, hv, hvl⟩ : ∃ v, (Overflows (evidence h k c) ∨ v ∈ unionAll (evidence h k c)) ∧ v ∉ unionAll l := by
    rcases hold with ho | hsub
    · obtain ⟨v, hv⟩ := Infinite.exists_notMem_finset (unionAll l)
      exact ⟨v, Or.inl ho, hv⟩
    · obtain ⟨v, hv, hvl⟩ := Finset.not_subset.mp hsub
      exact ⟨v, Or.inr hv, hvl⟩
  obtain ⟨blob, entries, hblob, hentries, hrt⟩ := hrt
  rw [deserialize_serializeTableIndex hblob] at hentries
  cases Except.ok.inj hentries
  have hkept := (hrt _ ⟨order, hperm, rfl⟩).kept _ _ _ _ ((mem_filter_columnEquals hf hc).mpr (Or.inr hv))
  rw [assemble_eq, mem_filter_columnEquals hf' hc', hl'] at hkept
  rcases hkept with h0 | h0 | h0
  · exact hne h0
  · exact hno h0
  · exact hvl h0

theorem persistable_of_roundTrips (hrt : RoundTrips encode decode (build h)) : Persistable encode decode h := by
  have hall : ∀ e ∈ rawEntries encode (build h), e ∈ ((rawEntries encode (build h)).filter (·.Encodable)).take
      (((rawEntries encode (build h)).filter (·.Encodable)).length % 2 ^ 32) := by
    intro e he
    obtain ⟨k, path, f, c, s, hf, hs, rfl⟩ := mem_rawEntries.mp he
    obtain ⟨e₀, he₀, hcut⟩ := List.mem_map.mp (entry_of_roundTrips hrt hf hs).1
    have hraw := (List.mem_filter.mp (List.mem_of_mem_take he₀)).1
    have hkey : e₀.cut.key = (entryOf encode h k path c s).cut.key := congrArg FileIndexEntry.key hcut
    rwa [← List.inj_on_of_nodup_map (rawEntries_nodup encode (build h)) hraw he hkey]
  have henc : ∀ e ∈ rawEntries encode (build h), e.Encodable := fun e he =>
    of_decide_eq_true (List.mem_filter.mp (List.mem_of_mem_take (hall e he))).2
  have hfilter : (rawEntries encode (build h)).filter (·.Encodable) = rawEntries encode (build h) :=
    List.filter_eq_self.mpr fun e he => decide_eq_true (henc e he)
  rw [hfilter] at hall
  have hnodup : (rawEntries encode (build h)).Nodup := List.Nodup.of_map _ (rawEntries_nodup encode (build h))
  refine ⟨?_, ?_, ?_, ?_, ?_, ?_⟩
  · intro k path f hf
    have hp := (columnAt_of_roundTrips hrt k path "").1
    rw [hf] at hp
    obtain ⟨⟨f', n⟩, hm⟩ := Option.isSome_iff_exists.mp hp
    obtain ⟨c, s, hs⟩ := (fileMapInv_fileMapOf _ _).indexed _ _ _ _ hm
    refine ⟨c, s, ?_⟩
    have hcol := (columnAt_of_roundTrips hrt k path c).2
    rwa [FileMap.columnAt, hm, Option.bind_some, hs, hf, Option.bind_some, eq_comm] at hcol
  · intro k path f c s hf hs
    exact henc _ (mem_rawEntries.mpr ⟨k, path, f, c, s, hf, hs, rfl⟩)
  · have hlen := (hnodup.subperm hall).length_le
    rw [List.length_take] at hlen
    omega
  · obtain ⟨blob, -, hblob, -⟩ := hrt
    rw [serializeTableIndex, hfilter] at hblob
    exact (serializeEntries_length hblob).2
  · exact fun k path f c s hf hs => (entry_of_roundTrips hrt hf hs).2
  · exact fun k path f c hf hc => fresh_of_roundTrips hrt hf hc

/-! ### What comes back -/

theorem decoded_of_persistable (hp : Persistable encode decode h) : decoded encode (build h) =
    (rawEntries encode (build h)).map (·.cut) ∧ (serializeTableIndex encode (build h)).isSome = true := by
  have henc : ∀ e ∈ rawEntries encode (build h), decide e.Encodable = true := by
    intro e he
    obtain ⟨k, path, f, c, s, hf, hs, rfl⟩ := mem_rawEntries.mp he
    exact decide_eq_true (hp.encodable k path f c s hf hs)
  have hfilter : (rawEntries encode (build h)).filter (·.Encodable) = rawEntries encode (build h) :=
    List.filter_eq_self.mpr henc
  rw [decoded, hfilter, Nat.mod_eq_of_lt hp.count, List.take_length, serializeTableIndex, hfilter, serializeEntries,
    if_neg (Nat.not_lt.mpr hp.size)]
  exact ⟨rfl, rfl⟩

theorem columnAt_of_persistable (hp : Persistable encode decode h) (k path c : String) :
    (reloaded encode decode h).columnAt k path c = (latest h k path).bind (·.columnValues.lookup c) := by
  refine Option.ext fun s => ?_
  rw [Option.bind_eq_some_iff]
  constructor
  · intro hs
    obtain ⟨f, t, hf, ht, -, hload⟩ := columnAt_reloaded hs
    cases (hp.stored k path f c t hf ht).symm.trans hload
    exact ⟨f, hf, ht⟩
  · rintro ⟨f, hf, hs⟩
    refine (columnAt_fileMapOf (decoded_nodup _ _)).mpr ⟨(entryOf encode h k path c s).cut, ?_, rfl,
      hp.stored k path f c s hf hs⟩
    rw [(decoded_of_persistable hp).1]
    exact List.mem_map_of_mem (mem_rawEntries.mpr ⟨k, path, f, c, s, hf, hs, rfl⟩)

theorem isSome_of_persistable (hp : Persistable encode decode h) (k path : String) :
    ((reloaded encode decode h).lookup (k, path)).isSome = (latest h k path).isSome := by
  have hcol := columnAt_of_persistable hp k path
  cases hm : (reloaded encode decode h).lookup (k, path) with
  | some v =>
    obtain ⟨c, s, hs⟩ := (fileMapInv_fileMapOf _ _).indexed _ _ v.1 v.2 hm
    have hcol := hcol c
    rw [FileMap.columnAt, hm, Option.bind_some, hs] at hcol
    obtain ⟨f, hf, -⟩ := Option.bind_eq_some_iff.mp hcol.symm
    rw [hf]
    rfl
  | none =>
    cases hf : latest h k path with
    | none => rfl
    | some f =>
      obtain ⟨c, s, hs⟩ := hp.indexed k path f hf
      have hcol := hcol c
      rw [FileMap.columnAt, hm, hf, Option.bind_some, hs] at hcol
      cases hcol

theorem answered_of_persistable (hp : Persistable encode decode h) {k path : String} {f : FileSkipIndex} {q : Question}
    (hq : q.Sound) (hf : latest h k path = some f) (hc : f.columnValues.lookup q.column = none) {l : List FstSet}
    (hl : l.Perm (currentSets h k q.column)) (hold : Answered (evidence h k q.column) q.test) : Answered l q.test := by
  rcases hp.fresh k path f q.column hf hc l hl with h0 | ho | ⟨hno, hsub⟩
  · exact Or.inl h0
  · exact Or.inr (Or.inl ho)
  by_cases h0 : l = []
  · exact Or.inl h0
  rcases hold with hnil | ho | ⟨s, hs, hqs⟩
  · obtain ⟨s, hs⟩ := List.exists_mem_of_ne_nil l h0
    obtain ⟨path', f', hf', hs'⟩ := mem_currentSets.mp (hl.mem_iff.mp hs)
    exact absurd (hnil ▸ mem_evidence hf' hs') List.not_mem_nil
  · exact absurd ho hno
  · have hsu : s ⊆ unionAll l := fun a ha => hsub (mem_unionAll.mpr ⟨s, hs, ha⟩)
    exact Or.inr (Or.inr ((hq.witnessed.unionAll_iff h0).mp (hq.witnessed.mono hsu hqs)))

theorem roundTrips_of_persistable (hp : Persistable encode decode h) : RoundTrips encode decode (build h) := by
  obtain ⟨blob, hblob⟩ := Option.isSome_iff_exists.mp (decoded_of_persistable hp).2
  refine ⟨blob, _, hblob, deserialize_serializeTableIndex hblob, ?_⟩
  rintro index' ⟨order, hperm, rfl⟩
  refine ⟨fun k path => ?_, fun k path c => ?_, fun builds p hints path hmem => ?_⟩
  · rw [fileAt_reloaded hperm, fileAt_build, Option.isSome_map, isSome_of_persistable hp]
  · rw [columns_reloaded hperm, fileAt_build, columnAt_of_persistable hp]
  obtain ⟨k, f, hk, hf, hsum, hcontra, hadm⟩ := mem_filter_build.mp hmem
  have hsome := isSome_of_persistable hp k path
  rw [hf] at hsome
  obtain ⟨⟨f', n⟩, hm⟩ := Option.isSome_iff_exists.mp hsome
  have hf' : latest (history order) k path = some f' := by
    rw [latest_history (fileMapInv_fileMapOf _ _) hperm, hm]
    rfl
  -- the file comes back with the same sets, so it passes the same questions
  have hsets : ∀ c, f'.columnValues.lookup c = f.columnValues.lookup c := fun c => by
    have hcol := columnAt_of_persistable hp k path c
    rwa [FileMap.columnAt, hm, hf] at hcol
  have hadm' : p.admits builds f'.columnValues = true := by
    rw [admits_iff] at hadm ⊢
    exact fun q hq => by rw [Question.ask, hsets]; exact hadm q hq
  rw [assemble_eq]
  refine mem_filter_build.mpr ⟨k, f', hk, hf', (admits_summary hadm').mpr fun q hq => ?_, hcontra, hadm'⟩
  cases hs : f'.columnValues.lookup q.column with
  | some s => exact answered_of_lookup hf' hs (admits_iff.mp hadm' q hq)
  | none =>
    have hperm' : (evidence (history order) k q.column).Perm (currentSets h k q.column) := by
      rw [evidence_history]
      exact (hperm.filterMap _).trans (currentSets_perm (fun path => isSome_of_persistable hp k path)
        fun path => columnAt_of_persistable hp k path q.column)
    exact answered_of_persistable hp (sound_of_mem_questions hq) hf (hsets _ ▸ hs) hperm'
      ((admits_summary hadm).mp hsum q hq)

/-- An index round-trips exactly when its history is persistable. -/
theorem roundTrips_iff (encode : FstSet → Bytes) (decode : Bytes → Option FstSet) (h : List AddFile) :
    RoundTrips encode decode (build h) ↔ Persistable encode decode h :=
  ⟨persistable_of_roundTrips, roundTrips_of_persistable⟩

end Persist

def unindexedFile : List AddFile := [⟨"date=2024-01-01", .newEmpty "a.parquet", 10⟩]

/-- The file is in the index and does not come back, whatever the bytes of a set are. -/
theorem unindexedFile_not_roundTrips :
    ((build unindexedFile).fileAt "date=2024-01-01" "a.parquet").isSome = true ∧
      ∀ encode decode, ¬RoundTrips encode decode (build unindexedFile) := by
  refine ⟨rfl, fun encode decode hrt => ?_⟩
  obtain ⟨c, s, hs⟩ := (persistable_of_roundTrips hrt).indexed "date=2024-01-01" "a.parquet" _ rfl
  cases hs

end Reiver.Pond
