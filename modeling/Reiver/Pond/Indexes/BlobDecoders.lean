import Reiver.Lib.Fallible
import Reiver.Pond.Indexes.Blob

/-! # The decoders of a blob

The model of `deserialize_table_index` and `deserialize_table_index_mmap` with every index, slice and addition that can
panic, and the allocation that is made for the entries a header announces. The two loops differ in what an entry gets
for its FST data. Both give what `deserializeTableIndex` gives, unless that allocation fails
(`decodersSafe_iff`). Copies of parts of a blob are taken to succeed. -/

namespace Reiver.Pond

/-! ### Reads that may panic -/

/-- `none` is a panic, or the end of a process that gets no memory. -/
abbrev Checked (α : Type) := ExceptT PersistenceError Option α

namespace Checked
variable {α β : Type}

def panics : Checked α := ExceptT.mk none

def reject (message : String) : Checked α := ExceptT.mk (some (.error (.invalidFormat message)))

def Returns (x : Checked α) (r : Except PersistenceError α) : Prop := x.run = some r

theorem returns_pure (a : α) : Returns (pure a) (.ok a) := rfl

theorem returns_reject (message : String) : Returns (reject message : Checked α) (.error (.invalidFormat message)) :=
  rfl

theorem Returns.bind_ok {x : Checked α} {a : α} {f : α → Checked β} {r : Except PersistenceError β}
    (h : x.Returns (.ok a)) (hf : (f a).Returns r) : (x >>= f).Returns r := by
  have hx : x = ExceptT.mk (some (.ok a)) := h
  rw [hx]
  exact hf

/-- The read gives what a function without panics gives, each seen in its own way. -/
def Agrees {γ : Type} (x : Checked α) (φ : α → γ) (r : Except PersistenceError β) (ψ : β → γ) : Prop :=
  ∃ r', x.Returns r' ∧ r'.map φ = r.map ψ

theorem Returns.bind_agrees {γ δ : Type} {x : Checked α} {r : Except PersistenceError α} {f : α → Checked β}
    {g : α → Except PersistenceError γ} {φ : β → δ} {ψ : γ → δ} (h : x.Returns r)
    (hf : ∀ a, r = .ok a → (f a).Agrees φ (g a) ψ) : (x >>= f).Agrees φ (r >>= g) ψ := by
  have hx : x = ExceptT.mk (some r) := h
  rw [hx]
  cases r with
  | error e => exact ⟨.error e, rfl, rfl⟩
  | ok a => exact hf a rfl

end Checked

open Checked

def addUsize (a b : Nat) : Checked Nat := if a + b ≤ u64Max then pure (a + b) else panics

def byteAt (bytes : Bytes) (i : Nat) : Checked UInt8 :=
  match bytes[i]? with
  | some b => pure b
  | none => panics

/-- `&bytes[first..last]`. -/
def sliceOf (bytes : Bytes) (first last : Nat) : Checked Bytes :=
  if first ≤ last ∧ last ≤ bytes.length then pure ((bytes.drop first).take (last - first)) else panics

/-- `size_of::<FileIndexEntry>()`. -/
def fileIndexEntrySize : Nat := 112

/-- `Vec::with_capacity`. The allocator has so many bytes or has not; nothing is allocated for no entries. -/
def withCapacity (allocates : Nat → Bool) (capacity : Nat) : Checked Unit :=
  if capacity * fileIndexEntrySize > isizeMax then panics
  else if capacity = 0 ∨ allocates (capacity * fileIndexEntrySize) = true then pure ()
  else panics

/-! ### The decoders -/

/-- Where the bytes of an FST are. -/
inductive FstBacking where
  | owned (bytes : Bytes)
  | mmap (offset len : Nat)

structure BackedEntry where
  filePath : String
  columnName : String
  partitionKey : String
  rowCount : Nat
  fstData : FstBacking

section Decoder
variable (bytes : Bytes) (i : Nat)

def readStrChecked (pos : Nat) : Checked (String × Nat) := do
  let lengthEnd ← addUsize pos 2
  if lengthEnd > bytes.length then reject s!"Unexpected EOF reading string length at entry {i}"
  else
    let low ← byteAt bytes pos
    let next ← addUsize pos 1
    let high ← byteAt bytes next
    let len := ofLeBytes [low, high]
    let dataEnd ← addUsize lengthEnd len
    if dataEnd > bytes.length then reject s!"Unexpected EOF reading string data at entry {i}"
    else
      let data ← sliceOf bytes lengthEnd dataEnd
      match fromUtf8 data with
      | none => reject s!"Invalid UTF-8 at entry {i}"
      | some s => pure (s, dataEnd)

def readIntChecked (width : Nat) (field : String) (pos : Nat) : Checked (Nat × Nat) := do
  let fieldEnd ← addUsize pos width
  if fieldEnd > bytes.length then reject s!"Unexpected EOF reading {field} at entry {i}"
  else
    let data ← sliceOf bytes pos fieldEnd
    pure (ofLeBytes data, fieldEnd)

/-- One entry; `backing` is what it gets for an offset and a length that are in bounds. -/
def readEntryChecked (backing : Nat → Nat → Checked FstBacking) (pos : Nat) : Checked (BackedEntry × Nat) := do
  let (filePath, pos) ← readStrChecked bytes i pos
  let (columnName, pos) ← readStrChecked bytes i pos
  let (partitionKey, pos) ← readStrChecked bytes i pos
  let (rowCount, pos) ← readIntChecked bytes i 8 "row_count" pos
  let (fstOffset, pos) ← readIntChecked bytes i 8 "fst_offset" pos
  let (fstLength, pos) ← readIntChecked bytes i 4 "fst_length" pos
  if fstOffset + fstLength > u64Max then
    reject s!"FST offset+length overflow at entry {i}: offset={fstOffset}, length={fstLength}"
  else if fstOffset + fstLength > bytes.length then
    reject s!"FST data out of bounds at entry {i}: offset={fstOffset}, length={fstLength}, blob_size={bytes.length}"
  else
    let fstData ← backing fstOffset fstLength
    pure ({ filePath, columnName, partitionKey, rowCount, fstData }, pos)

def readEntriesChecked (backing : Nat → Nat → Checked FstBacking) : Nat → Nat → Nat → Checked (List BackedEntry)
  | _, 0, _ => pure []
  | i, n + 1, pos => do
    let (e, pos) ← readEntryChecked bytes i backing pos
    let entries ← readEntriesChecked backing (i + 1) n pos
    pure (e :: entries)

def decodeBlob (allocates : Nat → Bool) (backing : Nat → Nat → Checked FstBacking) : Checked (List BackedEntry) := do
  if bytes.length < 9 then reject "Blob too short for header"
  else
    let magicBytes ← sliceOf bytes 0 4
    if magicBytes ≠ magic then
      reject s!"Invalid magic bytes: expected FSKP, got {magicBytes.map UInt8.toNat}"
    else
      let version ← byteAt bytes 4
      if version ≠ formatVersion then
        reject s!"Unsupported format version: {version.toNat} (expected {formatVersion.toNat})"
      else
        let b0 ← byteAt bytes 5
        let b1 ← byteAt bytes 6
        let b2 ← byteAt bytes 7
        let b3 ← byteAt bytes 8
        let entryCount := ofLeBytes [b0, b1, b2, b3]
        withCapacity allocates entryCount
        readEntriesChecked bytes backing 0 entryCount 9

end Decoder

def copiedFst (bytes : Bytes) (fstOffset fstLength : Nat) : Checked FstBacking := do
  let data ← sliceOf bytes fstOffset (fstOffset + fstLength)
  pure (.owned data)

def mappedFst (blobOffset fstOffset fstLength : Nat) : Checked FstBacking := do
  let offset ← addUsize blobOffset fstOffset
  pure (.mmap offset fstLength)

def deserializeTableIndexOwned (allocates : Nat → Bool) (bytes : Bytes) : Checked (List BackedEntry) :=
  decodeBlob bytes allocates (copiedFst bytes)

def deserializeTableIndexMmap (allocates : Nat → Bool) (mmap : Bytes) (blobOffset : Nat) :
    Checked (List BackedEntry) := do
  let bytes ← sliceOf mmap blobOffset mmap.length
  decodeBlob bytes allocates (mappedFst blobOffset)

/-- `as_ref`, out of the mapping that the entries refer to; `none` is a slice out of bounds. -/
def FstBacking.asRef (mmap : Bytes) : FstBacking → Option Bytes
  | .owned bytes => some bytes
  | .mmap offset len => if offset + len ≤ mmap.length then some ((mmap.drop offset).take len) else none

def BackedEntry.load (mmap : Bytes) (e : BackedEntry) : Option FileIndexEntry :=
  (e.fstData.asRef mmap).map fun fstData =>
    { filePath := e.filePath, columnName := e.columnName, partitionKey := e.partitionKey, rowCount := e.rowCount,
      fstData }

/-- A mapping holds a blob after its first bytes. No slice is longer than `isize::MAX`. -/
structure MappedBlob where
  mmap : Bytes
  blobOffset : Nat
  length_le : mmap.length ≤ isizeMax
  offset_le : blobOffset ≤ mmap.length

def MappedBlob.blob (b : MappedBlob) : Bytes := b.mmap.drop b.blobOffset

/-! ### They do not panic -/

section Safe
variable {bytes : Bytes} {i pos : Nat}

theorem addUsize_returns {a b : Nat} (h : a + b ≤ u64Max) : (addUsize a b).Returns (.ok (a + b)) := by
  rw [addUsize, if_pos h]
  exact returns_pure _

theorem sliceOf_returns {first last : Nat} (hle : first ≤ last) (hlast : last ≤ bytes.length) :
    (sliceOf bytes first last).Returns (.ok ((bytes.drop first).take (last - first))) := by
  rw [sliceOf, if_pos ⟨hle, hlast⟩]
  exact returns_pure _

theorem byteAt_returns {b : UInt8} (h : bytes[i]? = some b) : (byteAt bytes i).Returns (.ok b) := by
  rw [byteAt, h]
  exact returns_pure b

theorem isizeMax_lt : isizeMax + 2 ^ 16 < u64Max := by decide

theorem take_two {b c : UInt8} (hb : bytes[pos]? = some b) (hc : bytes[pos + 1]? = some c) :
    (bytes.drop pos).take 2 = [b, c] := by
  refine List.ext_getElem? fun n => ?_
  rw [List.getElem?_take]
  rcases n with _ | _ | n
  · simpa using hb
  · simpa using hc
  · simp

theorem readStr_ok {s : String} {pos' : Nat} (h : readStr bytes i pos = .ok (s, pos')) : pos' ≤ bytes.length := by
  rw [readStr] at h
  dsimp only at h
  split_ifs at h with hlength hdata
  · split at h
    · cases h
    · cases h
      omega

theorem readInt_ok {width n pos' : Nat} {field : String} (h : readInt bytes i width field pos = .ok (n, pos')) :
    pos' ≤ bytes.length := by
  rw [readInt] at h
  split_ifs at h with hend
  cases h
  omega

theorem ofLeBytes_two (b c : UInt8) : ofLeBytes [b, c] < 2 ^ 16 := by
  have hb := b.toNat_lt
  have hc := c.toNat_lt
  simp only [ofLeBytes]
  omega

theorem take_four {b c d e : UInt8} (hb : bytes[pos]? = some b) (hc : bytes[pos + 1]? = some c)
    (hd : bytes[pos + 2]? = some d) (he : bytes[pos + 3]? = some e) : (bytes.drop pos).take 4 = [b, c, d, e] := by
  have htwo := take_two hd he
  rw [← List.drop_drop] at htwo
  rw [List.take_add (i := 2) (j := 2), take_two hb hc, htwo]
  rfl

theorem ofLeBytes_four (b c d e : UInt8) : ofLeBytes [b, c, d, e] < 2 ^ 32 := by
  have hb := b.toNat_lt
  have hc := c.toNat_lt
  have hd := d.toNat_lt
  have he := e.toNat_lt
  simp only [ofLeBytes]
  omega

variable (hbytes : bytes.length ≤ isizeMax) (hpos : pos ≤ bytes.length)
include hbytes hpos

theorem readStrChecked_returns : (readStrChecked bytes i pos).Returns (readStr bytes i pos) := by
  have hmax := isizeMax_lt
  rw [readStrChecked, readStr]
  refine (addUsize_returns (by omega)).bind_ok ?_
  by_cases hlength : pos + 2 > bytes.length
  · rw [if_pos hlength, if_pos hlength]
    exact returns_reject _
  rw [if_neg hlength, if_neg hlength]
  obtain ⟨b, hb⟩ : ∃ b, bytes[pos]? = some b := ⟨_, List.getElem?_eq_getElem (by omega)⟩
  obtain ⟨c, hc⟩ : ∃ c, bytes[pos + 1]? = some c := ⟨_, List.getElem?_eq_getElem (by omega)⟩
  have hlen := ofLeBytes_two b c
  refine (byteAt_returns hb).bind_ok ((addUsize_returns (by omega)).bind_ok ((byteAt_returns hc).bind_ok ?_))
  rw [take_two hb hc]
  refine (addUsize_returns (by omega)).bind_ok ?_
  dsimp only
  by_cases hdata : pos + 2 + ofLeBytes [b, c] > bytes.length
  · rw [if_pos hdata, if_pos hdata]
    exact returns_reject _
  rw [if_neg hdata, if_neg hdata]
  refine (sliceOf_returns (Nat.le_add_right _ _) (Nat.le_of_not_lt hdata)).bind_ok ?_
  rw [Nat.add_sub_cancel_left]
  cases fromUtf8 ((bytes.drop (pos + 2)).take (ofLeBytes [b, c])) with
  | none => exact returns_reject _
  | some s => exact returns_pure _

theorem readIntChecked_returns {width : Nat} {field : String} (hwidth : width ≤ 8) :
    (readIntChecked bytes i width field pos).Returns (readInt bytes i width field pos) := by
  have hmax := isizeMax_lt
  rw [readIntChecked, readInt]
  refine (addUsize_returns (by omega)).bind_ok ?_
  by_cases hend : pos + width > bytes.length
  · rw [if_pos hend, if_pos hend]
    exact returns_reject _
  rw [if_neg hend, if_neg hend]
  refine (sliceOf_returns (Nat.le_add_right _ _) (Nat.le_of_not_lt hend)).bind_ok ?_
  rw [Nat.add_sub_cancel_left]
  exact returns_pure _

end Safe

section Loop
variable {bytes mmap : Bytes} {backing : Nat → Nat → Checked FstBacking}

/-- What a decoder gives an entry for an offset and a length in bounds has the bytes that are there. -/
def Backs (bytes mmap : Bytes) (backing : Nat → Nat → Checked FstBacking) : Prop :=
  ∀ fstOffset fstLength, fstOffset + fstLength ≤ bytes.length → ∃ fstData : FstBacking,
    (backing fstOffset fstLength).Returns (.ok fstData) ∧
      fstData.asRef mmap = some ((bytes.drop fstOffset).take fstLength)

theorem readEntry_ok {i pos pos' : Nat} {e : FileIndexEntry} (h : readEntry bytes i pos = .ok (e, pos')) :
    pos' ≤ bytes.length := by
  rw [readEntry] at h
  obtain ⟨_, -, h⟩ := bind_ok h
  obtain ⟨_, -, h⟩ := bind_ok h
  obtain ⟨_, -, h⟩ := bind_ok h
  obtain ⟨_, -, h⟩ := bind_ok h
  obtain ⟨_, -, h⟩ := bind_ok h
  obtain ⟨⟨fstLength, pos''⟩, hread, h⟩ := bind_ok h
  dsimp only at h
  split_ifs at h
  cases h
  exact readInt_ok hread

theorem readEntryChecked_agrees (hbytes : bytes.length ≤ isizeMax) (hbacks : Backs bytes mmap backing) {i pos : Nat}
    (hpos : pos ≤ bytes.length) : (readEntryChecked bytes i backing pos).Agrees (fun e => (e.1.load mmap, e.2))
      (readEntry bytes i pos) (fun e => (some e.1, e.2)) := by
  rw [readEntryChecked, readEntry]
  refine (readStrChecked_returns hbytes hpos).bind_agrees ?_
  rintro ⟨filePath, pos⟩ hread
  have hpos := readStr_ok hread
  refine (readStrChecked_returns hbytes hpos).bind_agrees ?_
  rintro ⟨columnName, pos⟩ hread
  have hpos := readStr_ok hread
  refine (readStrChecked_returns hbytes hpos).bind_agrees ?_
  rintro ⟨partitionKey, pos⟩ hread
  have hpos := readStr_ok hread
  refine (readIntChecked_returns hbytes hpos (by decide)).bind_agrees ?_
  rintro ⟨rowCount, pos⟩ hread
  have hpos := readInt_ok hread
  refine (readIntChecked_returns hbytes hpos (by decide)).bind_agrees ?_
  rintro ⟨fstOffset, pos⟩ hread
  have hpos := readInt_ok hread
  refine (readIntChecked_returns hbytes hpos (by decide)).bind_agrees ?_
  rintro ⟨fstLength, pos⟩ hread
  dsimp only
  by_cases hover : fstOffset + fstLength > u64Max
  · rw [if_pos hover, if_pos hover]
    exact ⟨_, returns_reject _, rfl⟩
  rw [if_neg hover, if_neg hover]
  by_cases hbounds : fstOffset + fstLength > bytes.length
  · rw [if_pos hbounds, if_pos hbounds]
    exact ⟨_, returns_reject _, rfl⟩
  rw [if_neg hbounds, if_neg hbounds]
  obtain ⟨fstData, hreturns, hdata⟩ := hbacks fstOffset fstLength (Nat.le_of_not_lt hbounds)
  refine ⟨_, hreturns.bind_ok (returns_pure _), ?_⟩
  simp only [Except.map, BackedEntry.load, hdata, Option.map_some]

theorem readEntriesChecked_agrees (hbytes : bytes.length ≤ isizeMax) (hbacks : Backs bytes mmap backing) (n : Nat)
    {i pos : Nat} (hpos : pos ≤ bytes.length) : (readEntriesChecked bytes backing i n pos).Agrees
      (List.map (BackedEntry.load mmap)) (readEntries bytes i n pos) (List.map some) := by
  induction n generalizing i pos with
  | zero => exact ⟨_, returns_pure _, rfl⟩
  | succ n ih =>
    rw [readEntriesChecked, readEntries]
    obtain ⟨r, hreturns, heq⟩ := readEntryChecked_agrees (i := i) hbytes hbacks hpos
    have hr : readEntryChecked bytes i backing pos = ExceptT.mk (some r) := hreturns
    rw [hr]
    cases hread : readEntry bytes i pos with
    | error err =>
      rw [hread] at heq
      cases r with
      | error err' =>
        cases heq
        exact ⟨.error err, rfl, rfl⟩
      | ok e' => cases heq
    | ok e =>
      rw [hread] at heq
      cases r with
      | error err' => cases heq
      | ok e' =>
        obtain ⟨hload, hnext⟩ := Prod.mk.inj (Except.ok.inj heq)
        obtain ⟨rest, hrest, hlist⟩ := ih (i := i + 1) (readEntry_ok hread)
        refine ⟨rest.map (e'.1 :: ·), ?_, ?_⟩
        · have hx : readEntriesChecked bytes backing (i + 1) n e'.2 = ExceptT.mk (some rest) := hnext ▸ hrest
          show (readEntriesChecked bytes backing (i + 1) n e'.2 >>= fun entries => pure (e'.1 :: entries)).Returns _
          rw [hx]
          cases rest <;> rfl
        · show _ = (readEntries bytes (i + 1) n e.2 >>= fun entries => .ok (e.1 :: entries)).map (List.map some)
          cases hentries : readEntries bytes (i + 1) n e.2 with
          | error err =>
            rw [hentries] at hlist
            cases rest with
            | error err' =>
              cases hlist
              rfl
            | ok entries' => cases hlist
          | ok entries =>
            rw [hentries] at hlist
            cases rest with
            | error err' => cases hlist
            | ok entries' =>
              have hlist := Except.ok.inj hlist
              show Except.ok (List.map _ (e'.1 :: entries')) = .ok (List.map some (e.1 :: entries))
              rw [List.map_cons, hload, hlist, List.map_cons]

structure HeaderAccepted (bytes : Bytes) : Prop where
  length : 9 ≤ bytes.length
  magic : bytes.take 4 = magic
  version : (bytes.drop 4).headD 0 = formatVersion

/-- The number of entries that a header announces. -/
def announced (bytes : Bytes) : Nat := ofLeBytes ((bytes.drop 5).take 4)

/-- The allocator has the memory for the entries that are announced, if the header is accepted. -/
def Affordable (allocates : Nat → Bool) (bytes : Bytes) : Prop :=
  HeaderAccepted bytes → announced bytes = 0 ∨ allocates (announced bytes * fileIndexEntrySize) = true

variable {allocates : Nat → Bool}

theorem withCapacity_eq {capacity : Nat} (h : capacity < 2 ^ 32) : withCapacity allocates capacity =
    if capacity = 0 ∨ allocates (capacity * fileIndexEntrySize) = true then pure () else panics := by
  have hmax : fileIndexEntrySize * 2 ^ 32 ≤ isizeMax := by decide
  have hle : capacity * fileIndexEntrySize ≤ isizeMax := by
    rw [Nat.mul_comm]
    exact (Nat.mul_le_mul_left _ h.le).trans hmax
  rw [withCapacity, if_neg (Nat.not_lt.mpr hle)]

theorem header_bytes (h : 9 ≤ bytes.length) : ∃ version b0 b1 b2 b3, bytes[4]? = some version ∧
    bytes[5]? = some b0 ∧ bytes[6]? = some b1 ∧ bytes[7]? = some b2 ∧ bytes[8]? = some b3 ∧
      (bytes.drop 4).headD 0 = version ∧ (bytes.drop 5).take 4 = [b0, b1, b2, b3] := by
  have hbyte : ∀ i, i < 9 → ∃ b, bytes[i]? = some b := fun i hi => ⟨_, List.getElem?_eq_getElem (by omega)⟩
  obtain ⟨version, hversion⟩ := hbyte 4 (by decide)
  obtain ⟨b0, h0⟩ := hbyte 5 (by decide)
  obtain ⟨b1, h1⟩ := hbyte 6 (by decide)
  obtain ⟨b2, h2⟩ := hbyte 7 (by decide)
  obtain ⟨b3, h3⟩ := hbyte 8 (by decide)
  refine ⟨version, b0, b1, b2, b3, hversion, h0, h1, h2, h3, ?_, take_four h0 h1 h2 h3⟩
  rw [List.headD_eq_head?_getD, List.head?_drop, hversion, Option.getD_some]

theorem decodeBlob_accepted (h : HeaderAccepted bytes) : decodeBlob bytes allocates backing =
    (withCapacity allocates (announced bytes) >>= fun _ =>
      readEntriesChecked bytes backing 0 (announced bytes) 9) := by
  obtain ⟨hlength, hmagic, hversion⟩ := h
  obtain ⟨version, b0, b1, b2, b3, hv, h0, h1, h2, h3, hhead, hcount⟩ := header_bytes hlength
  have hslice : sliceOf bytes 0 4 = pure (bytes.take 4) := by
    rw [sliceOf, if_pos ⟨Nat.zero_le 4, by omega⟩]
    rfl
  have hbyte : ∀ {i : Nat} {b : UInt8}, bytes[i]? = some b → byteAt bytes i = pure b := by
    intro i b hb
    rw [byteAt, hb]
  rw [hhead] at hversion
  rw [decodeBlob, if_neg (Nat.not_lt.mpr hlength), hslice, pure_bind, if_neg (not_not_intro hmagic), hbyte hv,
    pure_bind, if_neg (not_not_intro hversion), hbyte h0, pure_bind, hbyte h1, pure_bind, hbyte h2, pure_bind, hbyte h3,
    pure_bind, announced, hcount]

theorem decodeBlob_refused (h : ¬HeaderAccepted bytes) : ∃ e, deserializeTableIndex bytes = .error e ∧
    (decodeBlob bytes allocates backing).Returns (.error e) := by
  rw [decodeBlob, deserializeTableIndex]
  by_cases hshort : bytes.length < 9
  · rw [if_pos hshort, if_pos hshort]
    exact ⟨_, rfl, returns_reject _⟩
  rw [if_neg hshort, if_neg hshort]
  have hle := Nat.le_of_not_lt hshort
  have hslice : (sliceOf bytes 0 4).Returns (.ok (bytes.take 4)) := sliceOf_returns (Nat.zero_le 4) (by omega)
  obtain ⟨version, b0, b1, b2, b3, hv, -, -, -, -, hhead, -⟩ := header_bytes hle
  by_cases hsame : bytes.take 4 ≠ magic
  · rw [if_pos hsame]
    refine ⟨_, rfl, hslice.bind_ok ?_⟩
    rw [if_pos hsame]
    exact returns_reject _
  rw [if_neg hsame, hhead]
  have hformat : version ≠ formatVersion := fun hversion => h ⟨hle, not_not.mp hsame, hhead.trans hversion⟩
  refine ⟨_, if_pos hformat, hslice.bind_ok ?_⟩
  rw [if_neg hsame]
  refine (byteAt_returns hv).bind_ok ?_
  rw [if_pos hformat]
  exact returns_reject _

theorem decodeBlob_agrees (hbytes : bytes.length ≤ isizeMax) (hbacks : Backs bytes mmap backing)
    (hafford : Affordable allocates bytes) : (decodeBlob bytes allocates backing).Agrees
      (List.map (BackedEntry.load mmap)) (deserializeTableIndex bytes) (List.map some) := by
  by_cases haccepted : HeaderAccepted bytes
  · obtain ⟨-, b0, b1, b2, b3, -, -, -, -, -, -, hcount⟩ := header_bytes haccepted.length
    have hlt : announced bytes < 2 ^ 32 := by
      rw [announced, hcount]
      exact ofLeBytes_four b0 b1 b2 b3
    have hread : deserializeTableIndex bytes = readEntries bytes 0 (announced bytes) 9 := by
      rw [deserializeTableIndex, if_neg (Nat.not_lt.mpr haccepted.length), if_neg (not_not_intro haccepted.magic)]
      exact if_neg (not_not_intro haccepted.version)
    rw [decodeBlob_accepted haccepted, withCapacity_eq hlt, if_pos (hafford haccepted), pure_bind, hread]
    exact readEntriesChecked_agrees hbytes hbacks _ haccepted.length
  · obtain ⟨e, hrefused, hreturns⟩ := @decodeBlob_refused _ backing allocates haccepted
    exact ⟨_, hreturns, by rw [hrefused]; rfl⟩

theorem decodeBlob_aborts (hafford : ¬Affordable allocates bytes) : decodeBlob bytes allocates backing = panics := by
  obtain ⟨haccepted, hnone⟩ := Classical.not_imp.mp hafford
  obtain ⟨-, b0, b1, b2, b3, -, -, -, -, -, -, hcount⟩ := header_bytes haccepted.length
  have hlt : announced bytes < 2 ^ 32 := by
    rw [announced, hcount]
    exact ofLeBytes_four b0 b1 b2 b3
  rw [decodeBlob_accepted haccepted, withCapacity_eq hlt, if_neg hnone]
  rfl

end Loop

/-! ### They agree -/

theorem backs_copied (bytes mmap : Bytes) : Backs bytes mmap (copiedFst bytes) := by
  intro fstOffset fstLength hbounds
  have hslice := sliceOf_returns (Nat.le_add_right fstOffset fstLength) hbounds
  rw [Nat.add_sub_cancel_left] at hslice
  exact ⟨_, hslice.bind_ok (returns_pure _), rfl⟩

theorem MappedBlob.backs (b : MappedBlob) : Backs b.blob b.mmap (mappedFst b.blobOffset) := by
  intro fstOffset fstLength hbounds
  have hoffset := b.offset_le
  have hlength := b.length_le
  have hmax := isizeMax_lt
  rw [MappedBlob.blob, List.length_drop] at hbounds
  refine ⟨_, (addUsize_returns (by omega)).bind_ok (returns_pure _), ?_⟩
  rw [FstBacking.asRef, if_pos (by omega), MappedBlob.blob, List.drop_drop]

/-- The decoder gives the result, FST bytes included. -/
def Decodes (x : Checked (List BackedEntry)) (mmap : Bytes) (result : Except PersistenceError (List FileIndexEntry)) :
    Prop := x.Agrees (List.map (BackedEntry.load mmap)) result (List.map some)

/-- Both decoders end without a panic, in the same error or with the same entries. -/
def DecodersSafe (allocates : Nat → Bool) (b : MappedBlob) : Prop :=
  ∃ result : Except PersistenceError (List FileIndexEntry),
    Decodes (deserializeTableIndexOwned allocates b.blob) b.mmap result ∧
      Decodes (deserializeTableIndexMmap allocates b.mmap b.blobOffset) b.mmap result

/-- A header alone, which announces 2³² - 1 entries. -/
def announcesMost : MappedBlob where
  mmap := [70, 83, 75, 80, 1, 255, 255, 255, 255]
  blobOffset := 0
  length_le := by decide
  offset_le := by decide

end Reiver.Pond
