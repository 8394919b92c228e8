import Reiver.Pond.Indexes.Blob

/-! # Reading back a blob

A written blob reads back as its entries, cut to what the length fields hold: the entry count is kept modulo
`2 ^ 32`, and so is the length of each FST (`deserialize_serializeEntries`). -/

namespace Reiver.Pond

/-- What the fields of a directory entry keep of it. -/
def FileIndexEntry.cut (e : FileIndexEntry) : FileIndexEntry :=
  { e with rowCount := e.rowCount % 2 ^ 64, fstData := e.fstData.take (e.fstData.length % 2 ^ 32) }

/-! ### Fields -/

section Fields
variable {bytes rest : Bytes} {pos : Nat} (i : Nat)

theorem readInt_leBytes {width n : Nat} (field : String) (h : At bytes pos (leBytes width n ++ rest)) :
    readInt bytes i width field pos = .ok (n % 256 ^ width, pos + width) := by
  have hfits := h.fits (leBytes_length width n)
  rw [readInt, if_neg (by omega), h.take (leBytes_length width n), ofLeBytes_leBytes]

theorem readStr_stringBytes {s : String} (hs : s.utf8ByteSize ≤ u16Max) (h : At bytes pos (stringBytes s ++ rest)) :
    readStr bytes i pos = .ok (s, pos + (2 + s.utf8ByteSize)) ∧ At bytes (pos + (2 + s.utf8ByteSize)) rest := by
  rw [stringBytes, List.append_assoc] at h
  have hlen := leBytes_length 2 s.utf8ByteSize
  have h' := h.advance hlen
  have hfits := h.fits hlen
  have hfits' := h'.fits (utf8Bytes_length s)
  have hmod : s.utf8ByteSize % 256 ^ 2 = s.utf8ByteSize := Nat.mod_eq_of_lt (by unfold u16Max at hs; omega)
  rw [← Nat.add_assoc]
  refine ⟨?_, h'.advance (utf8Bytes_length s)⟩
  rw [readStr, if_neg (by omega), h.take hlen, ofLeBytes_leBytes, hmod]
  dsimp only
  rw [if_neg (by omega), h'.take (utf8Bytes_length s), fromUtf8_utf8Bytes]

theorem directoryEntry_length (fstOffset : Nat) (e : FileIndexEntry) : (directoryEntry fstOffset e).length =
    2 + e.filePath.utf8ByteSize + 2 + e.columnName.utf8ByteSize + 2 + e.partitionKey.utf8ByteSize + 8 + 8 + 4 := by
  simp only [directoryEntry, stringBytes, List.length_append, leBytes_length, utf8Bytes_length]
  omega

end Fields

/-! ### Entries -/

section Entries
variable {bytes : Bytes}

theorem readEntry_directoryEntry {pos fstOffset : Nat} {e : FileIndexEntry} {rest dataRest : Bytes} (i : Nat)
    (he : e.Encodable) (hsize : bytes.length ≤ isizeMax) (h : At bytes pos (directoryEntry fstOffset e ++ rest))
    (hdata : At bytes fstOffset (e.fstData ++ dataRest)) :
    readEntry bytes i pos = .ok (e.cut, pos + (directoryEntry fstOffset e).length) ∧
      At bytes (pos + (directoryEntry fstOffset e).length) rest := by
  obtain ⟨hpath, hcol, hkey⟩ := he
  refine ⟨?_, h.advance rfl⟩
  have hdatafits := hdata.fits rfl
  have hmod : e.fstData.length % 256 ^ 4 ≤ e.fstData.length := Nat.mod_le _ _
  have hoff : fstOffset % 256 ^ 8 = fstOffset := Nat.mod_eq_of_lt (by unfold isizeMax at hsize; omega)
  rw [directoryEntry_length]
  simp only [directoryEntry, List.append_assoc] at h
  obtain ⟨r1, h1⟩ := readStr_stringBytes i hpath h
  obtain ⟨r2, h2⟩ := readStr_stringBytes i hcol h1
  obtain ⟨r3, h3⟩ := readStr_stringBytes i hkey h2
  have r4 := readInt_leBytes i "row_count" h3
  have h4 := h3.advance (leBytes_length 8 e.rowCount)
  have r5 := readInt_leBytes i "fst_offset" h4
  have h5 := h4.advance (leBytes_length 8 fstOffset)
  have r6 := readInt_leBytes i "fst_length" h5
  have hslice : (bytes.drop fstOffset).take (e.fstData.length % 256 ^ 4) =
      e.fstData.take (e.fstData.length % 2 ^ 32) := by
    rw [hdata.drop, List.take_append_of_le_length hmod]
    rfl
  simp only [readEntry, r1, r2, r3, r4, r5, r6, hoff, bind, Except.bind]
  rw [if_neg (by unfold u64Max; unfold isizeMax at hsize; omega), if_neg (by omega)]
  rw [hslice]
  refine congrArg Except.ok (Prod.ext rfl ?_)
  dsimp only
  omega

theorem readEntries_directory {pos fstOffset : Nat} {entries : List FileIndexEntry} {rest : Bytes} (i n : Nat)
    (he : ∀ e ∈ entries, e.Encodable) (hsize : bytes.length ≤ isizeMax) (hn : n ≤ entries.length)
    (h : At bytes pos (directory fstOffset entries ++ rest)) (hdata : At bytes fstOffset (fstSection entries)) :
    readEntries bytes i n pos = .ok ((entries.take n).map (·.cut)) := by
  induction entries generalizing pos fstOffset i n with
  | nil =>
    rw [List.length_nil, Nat.le_zero] at hn
    rw [hn, readEntries]
    rfl
  | cons e entries ih =>
    cases n with
    | zero => rfl
    | succ n =>
      rw [directory, List.append_assoc] at h
      rw [fstSection, List.flatMap_cons] at hdata
      obtain ⟨r, h'⟩ := readEntry_directoryEntry i (he e List.mem_cons_self) hsize h hdata
      have ih' := ih (i + 1) n (fun e' he' => he e' (List.mem_cons_of_mem _ he'))
        (Nat.le_of_succ_le_succ hn) h' (hdata.advance rfl)
      simp only [readEntries, r, ih', bind, Except.bind]
      rfl

end Entries

/-! ### Blobs -/

theorem directory_length (fstOffset : Nat) (entries : List FileIndexEntry) :
    (directory fstOffset entries).length = directorySize entries := by
  induction entries generalizing fstOffset with
  | nil => rfl
  | cons e entries ih =>
    rw [directory, List.length_append, directoryEntry_length, ih, directorySize, directorySize, List.map_cons,
      List.sum_cons]

theorem serializeEntries_length {entries : List FileIndexEntry} {blob : Bytes}
    (h : serializeEntries entries = some blob) : blob.length = totalSize entries ∧ totalSize entries ≤ isizeMax := by
  unfold serializeEntries at h
  split at h
  · cases h
  · next hsize =>
    cases h
    refine ⟨?_, Nat.le_of_not_gt hsize⟩
    simp only [magic, List.length_append, List.length_cons, List.length_nil, leBytes_length, directory_length,
      totalSize, headerSize]
    omega

theorem deserialize_serializeEntries {entries : List FileIndexEntry} {blob : Bytes}
    (he : ∀ e ∈ entries, e.Encodable) (h : serializeEntries entries = some blob) :
    deserializeTableIndex blob = .ok ((entries.take (entries.length % 2 ^ 32)).map (·.cut)) := by
  obtain ⟨hlen, hsize⟩ := serializeEntries_length h
  unfold serializeEntries at h
  rw [if_neg (by omega)] at h
  have hblob := Option.some.inj h
  have h0 : At blob 0 (magic ++ ([formatVersion] ++ (leBytes 4 entries.length ++
      (directory (headerSize + directorySize entries) entries ++ fstSection entries)))) :=
    hblob ▸ At.start _
  have h1 := h0.advance (n := 4) rfl
  have h2 := h1.advance (n := 1) rfl
  have h3 := h2.advance (leBytes_length 4 entries.length)
  have hdata : At blob (headerSize + directorySize entries) (fstSection entries) :=
    h3.advance (directory_length _ _)
  have hn : entries.length % 256 ^ 4 ≤ entries.length := Nat.mod_le _ _
  have hread := readEntries_directory 0 _ he (hlen ▸ hsize) hn h3 hdata
  have hmagic : blob.take 4 = magic := h0.take rfl
  have hcount : ofLeBytes ((blob.drop 5).take 4) = entries.length % 256 ^ 4 := by
    rw [← ofLeBytes_leBytes, ← h2.take (leBytes_length 4 entries.length)]
  have hversion : (blob.drop 4).headD 0 = formatVersion := by
    rw [h1.drop]
    rfl
  rw [deserializeTableIndex, if_neg, if_neg (by rw [hmagic]; exact fun hne => hne rfl)]
  · dsimp only
    rw [hversion, if_neg (fun hne => hne rfl), hcount]
    exact hread
  · rw [hlen, totalSize, headerSize]
    omega

end Reiver.Pond
