import Reiver.Lib.Bytes
import Reiver.Pond.Indexes.SkipIndex

/-! # Binary blob serialization

The model of `indexes/blob.rs` and of the assembly of an index from the entries of a blob
(`build_hierarchical_from_entries`).

What the bytes of an FST mean is the business of the `fst` crate: `encode` gives the bytes of a set and
`decode` the set of a buffer, when it is one. -/

namespace Reiver.Pond

def magic : Bytes := [0x46, 0x53, 0x4B, 0x50]

def formatVersion : UInt8 := 1

def u16Max : Nat := 2 ^ 16 - 1

def isizeMax : Nat := 2 ^ 63 - 1

inductive PersistenceError where
  | invalidFormat (message : String)
deriving DecidableEq

structure FileIndexEntry where
  filePath : String
  columnName : String
  partitionKey : String
  rowCount : Nat
  fstData : Bytes
deriving DecidableEq

/-! ### Writing -/

/-- The average the entries of a partition carry for their row count. -/
def PartitionIndex.rowsPerFile (partition : PartitionIndex) : Nat :=
  if partition.files.entries ≠ [] then partition.estimatedRows / partition.files.entries.length else 0

/-- The entries of an index: one for every column of every file of every partition. -/
def rawEntries (encode : FstSet → Bytes) (index : HierarchicalSkipIndex) : List FileIndexEntry :=
  index.partitions.pairs.flatMap fun (partitionKey, partition) =>
    let rowsPerFile := partition.rowsPerFile
    partition.files.pairs.flatMap fun (filePath, fileIndex) =>
      fileIndex.columnValues.pairs.map fun (columnName, fstSet) =>
        { filePath, columnName, partitionKey, rowCount := rowsPerFile, fstData := encode fstSet }

/-- The strings of the entry fit their `u16` lengths. -/
def FileIndexEntry.Encodable (e : FileIndexEntry) : Prop :=
  e.filePath.utf8ByteSize ≤ u16Max ∧ e.columnName.utf8ByteSize ≤ u16Max ∧ e.partitionKey.utf8ByteSize ≤ u16Max

instance (e : FileIndexEntry) : Decidable e.Encodable := inferInstanceAs (Decidable (_ ∧ _))

def stringBytes (s : String) : Bytes := leBytes 2 s.utf8ByteSize ++ utf8Bytes s

def directoryEntry (fstOffset : Nat) (e : FileIndexEntry) : Bytes :=
  stringBytes e.filePath ++ (stringBytes e.columnName ++ (stringBytes e.partitionKey ++
    (leBytes 8 e.rowCount ++ (leBytes 8 fstOffset ++ leBytes 4 e.fstData.length))))

/-- The directory, with the running offset of the FST data. -/
def directory : Nat → List FileIndexEntry → Bytes
  | _, [] => []
  | fstOffset, e :: entries => directoryEntry fstOffset e ++ directory (fstOffset + e.fstData.length) entries

def directorySize (entries : List FileIndexEntry) : Nat :=
  (entries.map fun e =>
    2 + e.filePath.utf8ByteSize + 2 + e.columnName.utf8ByteSize + 2 + e.partitionKey.utf8ByteSize + 8 + 8 + 4).sum

def headerSize : Nat := 4 + 1 + 4

def fstSection (entries : List FileIndexEntry) : Bytes := entries.flatMap (·.fstData)

def totalSize (entries : List FileIndexEntry) : Nat :=
  headerSize + directorySize entries + (fstSection entries).length

/-- `none` is the panic of a buffer whose capacity exceeds `isize::MAX`. -/
def serializeEntries (entries : List FileIndexEntry) : Option Bytes :=
  if totalSize entries > isizeMax then none
  else some <| magic ++ (formatVersion :: (leBytes 4 entries.length ++
    (directory (headerSize + directorySize entries) entries ++ fstSection entries)))

def serializeTableIndex (encode : FstSet → Bytes) (index : HierarchicalSkipIndex) : Option Bytes :=
  serializeEntries ((rawEntries encode index).filter (·.Encodable))

/-! ### Reading -/

section Reading
variable (bytes : Bytes) (i : Nat)

/-- A length-prefixed string. The reason the standard library gives for bad UTF-8 is left out of the
    message. -/
def readStr (pos : Nat) : Except PersistenceError (String × Nat) :=
  if pos + 2 > bytes.length then
    .error (.invalidFormat s!"Unexpected EOF reading string length at entry {i}")
  else
    let len := ofLeBytes ((bytes.drop pos).take 2)
    let pos := pos + 2
    if pos + len > bytes.length then
      .error (.invalidFormat s!"Unexpected EOF reading string data at entry {i}")
    else
      match fromUtf8 ((bytes.drop pos).take len) with
      | none => .error (.invalidFormat s!"Invalid UTF-8 at entry {i}")
      | some s => .ok (s, pos + len)

/-- A little-endian integer of `width` bytes. -/
def readInt (width : Nat) (field : String) (pos : Nat) : Except PersistenceError (Nat × Nat) :=
  if pos + width > bytes.length then .error (.invalidFormat s!"Unexpected EOF reading {field} at entry {i}")
  else .ok (ofLeBytes ((bytes.drop pos).take width), pos + width)

def readEntry (pos : Nat) : Except PersistenceError (FileIndexEntry × Nat) := do
  let (filePath, pos) ← readStr bytes i pos
  let (columnName, pos) ← readStr bytes i pos
  let (partitionKey, pos) ← readStr bytes i pos
  let (rowCount, pos) ← readInt bytes i 8 "row_count" pos
  let (fstOffset, pos) ← readInt bytes i 8 "fst_offset" pos
  let (fstLength, pos) ← readInt bytes i 4 "fst_length" pos
  if fstOffset + fstLength > u64Max then
    .error (.invalidFormat
      s!"FST offset+length overflow at entry {i}: offset={fstOffset}, length={fstLength}")
  else if fstOffset + fstLength > bytes.length then
    .error (.invalidFormat
      s!"FST data out of bounds at entry {i}: offset={fstOffset}, length={fstLength}, blob_size={bytes.length}")
  else
    .ok ({ filePath, columnName, partitionKey, rowCount, fstData := (bytes.drop fstOffset).take fstLength }, pos)

/-- `n` entries, the first of them numbered `i`. -/
def readEntries : Nat → Nat → Nat → Except PersistenceError (List FileIndexEntry)
  | _, 0, _ => .ok []
  | i, n + 1, pos => do
    let (e, pos) ← readEntry bytes i pos
    let entries ← readEntries (i + 1) n pos
    .ok (e :: entries)

end Reading

def deserializeTableIndex (bytes : Bytes) : Except PersistenceError (List FileIndexEntry) :=
  if bytes.length < 9 then .error (.invalidFormat "Blob too short for header")
  else if bytes.take 4 ≠ magic then
    .error (.invalidFormat s!"Invalid magic bytes: expected FSKP, got {(bytes.take 4).map UInt8.toNat}")
  else
    let version := (bytes.drop 4).headD 0
    if version ≠ formatVersion then
      .error (.invalidFormat s!"Unsupported format version: {version.toNat} (expected {formatVersion.toNat})")
    else readEntries bytes 0 (ofLeBytes ((bytes.drop 5).take 4)) 9

/-! ### Assembly -/

inductive SkipIndexError where
  | memoryLimitExceeded (size limit : Nat)
  | fst

section Assembly
variable (decode : Bytes → Option FstSet)

/-- The check and the decoding of stored FST data. -/
def loadFst (fstData : Bytes) : Except SkipIndexError FstSet :=
  if fstData.length > maxSummaryMemoryBytes then
    .error (.memoryLimitExceeded fstData.length maxSummaryMemoryBytes)
  else
    match decode fstData with
    | none => .error .fst
    | some s => .ok s

namespace FileSkipIndex

def fromSerializedFst (filePath columnName : String) (fstData : Bytes) : Except SkipIndexError FileSkipIndex := do
  let fstSet ← loadFst decode fstData
  .ok { filePath, columnValues := (∅ : Dict String FstSet).insert columnName fstSet }

def addColumnFst (file : FileSkipIndex) (columnName : String) (fstData : Bytes) :
    Except SkipIndexError FileSkipIndex := do
  let fstSet ← loadFst decode fstData
  .ok { file with columnValues := file.columnValues.insert columnName fstSet }

end FileSkipIndex

/-- The files of the entries under partition key and path, with their row counts. -/
abbrev FileMap := Dict (String × String) (FileSkipIndex × Nat)

/-- A column that does not load is logged and left out. -/
def FileMap.addEntry (fileMap : FileMap) (e : FileIndexEntry) : FileMap :=
  let key := (e.partitionKey, e.filePath)
  match fileMap.lookup key with
  | some (file, rowCount) =>
    match file.addColumnFst decode e.columnName e.fstData with
    | .ok file => fileMap.insert key (file, rowCount)
    | .error _ => fileMap
  | none =>
    match FileSkipIndex.fromSerializedFst decode e.filePath e.columnName e.fstData with
    | .ok file => fileMap.insert key (file, e.rowCount)
    | .error _ => fileMap

def fileMapOf (entries : List FileIndexEntry) : FileMap := entries.foldl (FileMap.addEntry decode) ∅

end Assembly

/-- The files of the map go into a fresh index in the iteration order `order` of the map. -/
def assemble (order : List ((String × String) × (FileSkipIndex × Nat))) : HierarchicalSkipIndex :=
  order.foldl (fun index e => index.addFile e.1.1 e.2.1 e.2.2) .new

/-- The indexes that `build_hierarchical_from_entries` may return, over the iteration orders of the map. -/
def BuildsFromEntries (decode : Bytes → Option FstSet) (entries : List FileIndexEntry)
    (index : HierarchicalSkipIndex) : Prop :=
  ∃ order, order.Perm (fileMapOf decode entries).pairs ∧ index = assemble order

end Reiver.Pond
