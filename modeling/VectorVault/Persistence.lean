import VectorVault.Collection
import VectorVault.Crc64

/-! Snapshots: the image of a collection and its reading back.

`encode` lays a captured view out as bytes. `load` takes a file apart check by
check, in the order of the code, and rebuilds a collection whose vectors stay in
the mapping. -/

namespace VectorVault

open Snapshot Crc64

namespace Snapshot

def putMetadataValue : MetadataValue → Bytes
  | .string value => putU8 0 ++ putString value
  | .int64 value => putU8 1 ++ putI64 value
  | .double value => putU8 2 ++ putF64 value
  | .bool value => putU8 3 ++ putU8 (if value then 1 else 0)

def putMetadataEntry (entry : Bytes × MetadataValue) : Bytes :=
  putString entry.1 ++ putMetadataValue entry.2

/-- `write_metadata`; absence is told apart from an empty map by the first byte. -/
def putMetadata : Option Metadata → Bytes
  | none => putU8 0
  | some metadata =>
      putU8 1 ++ putU32 (UInt32.ofNat metadata.size) ++ metadata.entries.flatMap putMetadataEntry

def getMetadataValue (tag : UInt8) (reader : ByteReader) : Option (MetadataValue × ByteReader) :=
  if tag = 0 then
    let (value, reader) := reader.getString
    if reader.ok = false then none else some (.string value, reader)
  else if tag = 1 then
    let (value, reader) := reader.getI64
    if reader.ok = false then none else some (.int64 value, reader)
  else if tag = 2 then
    let (value, reader) := reader.getF64
    if reader.ok = false then none else some (.double value, reader)
  else if tag = 3 then
    let (value, reader) := reader.getU8
    if reader.ok = false then none else some (.bool (value != 0), reader)
  else none

def getMetadataEntries : Nat → Metadata → ByteReader → Option (Metadata × ByteReader)
  | 0, metadata, reader => some (metadata, reader)
  | count + 1, metadata, reader => do
      let (key, reader) := reader.getString
      let (tag, reader) := reader.getU8
      if reader.ok = false then none
      else
        let (value, reader) ← getMetadataValue tag reader
        getMetadataEntries count (metadata.emplace key value) reader

def getMetadata (reader : ByteReader) : Option (Option Metadata × ByteReader) :=
  let (present, reader) := reader.getU8
  if reader.ok = false then none
  else if present = 0 then some (none, reader)
  else
    let (count, reader) := reader.getU32
    if reader.ok = false then none
    else (getMetadataEntries count.toNat OrderedMap.empty reader).map
      (fun result => (some result.1, result.2))

@[ext]
structure Header where
  formatVersion : UInt32
  flags : UInt32
  dimensionality : UInt32
  metric : UInt8
  indexType : UInt8
  reserved0 : UInt8
  reserved1 : UInt8
  recordCount : UInt64
  nameLength : UInt32
  vectorRegionOff : UInt64
  vectorRegionLen : UInt64
  indexRegionOff : UInt64
  indexRegionLen : UInt64
  contentCrc64 : UInt64
  deriving DecidableEq

namespace Header

def put (header : Header) : Bytes :=
  putU32 header.formatVersion ++ putU32 header.flags ++ putU32 header.dimensionality ++
    putU8 header.metric ++ putU8 header.indexType ++ putU8 header.reserved0 ++
    putU8 header.reserved1 ++ putU64 header.recordCount ++ putU32 header.nameLength ++
    putU64 header.vectorRegionOff ++ putU64 header.vectorRegionLen ++
    putU64 header.indexRegionOff ++ putU64 header.indexRegionLen ++ putU64 header.contentCrc64

def get (reader : ByteReader) : Header × ByteReader :=
  let (formatVersion, reader) := reader.getU32
  let (flags, reader) := reader.getU32
  let (dimensionality, reader) := reader.getU32
  let (metric, reader) := reader.getU8
  let (indexType, reader) := reader.getU8
  let (reserved0, reader) := reader.getU8
  let (reserved1, reader) := reader.getU8
  let (recordCount, reader) := reader.getU64
  let (nameLength, reader) := reader.getU32
  let (vectorRegionOff, reader) := reader.getU64
  let (vectorRegionLen, reader) := reader.getU64
  let (indexRegionOff, reader) := reader.getU64
  let (indexRegionLen, reader) := reader.getU64
  let (contentCrc64, reader) := reader.getU64
  (⟨formatVersion, flags, dimensionality, metric, indexType, reserved0, reserved1, recordCount,
    nameLength, vectorRegionOff, vectorRegionLen, indexRegionOff, indexRegionLen, contentCrc64⟩,
    reader)

def stride (header : Header) : UInt64 := header.dimensionality.toUInt64 * 4

end Header

end Snapshot

namespace PersistenceManager

section Encode

def putDirectoryEntry (entry : SnapshotRecord × Nat) : Bytes :=
  putString entry.1.id ++ putU64 (UInt64.ofNat entry.2) ++
    putU32 (UInt32.ofNat (putMetadata entry.1.metadata).length) ++ putMetadata entry.1.metadata

def putDirectory (records : List SnapshotRecord) : Bytes :=
  records.zipIdx.flatMap putDirectoryEntry

/-- The zero bytes that bring a file position to the next multiple of 64. -/
def padding (position : Nat) : Bytes :=
  List.replicate ((Snapshot.alignment - position % Snapshot.alignment) % Snapshot.alignment) 0

def putComponents (dimensionality : UInt32) (vec : List F32) : Run Bytes := do
  let components ← (List.range dimensionality.toNat).mapM (access vec)
  return putVector components

def putVectors (dimensionality : UInt32) (records : List SnapshotRecord) : Run Bytes := do
  let vectors ← records.mapM (fun record => putComponents dimensionality record.vector)
  return vectors.flatten

def leading (data : CollectionSnapshotData) : Bytes :=
  let front := data.config.name ++ putDirectory data.records
  front ++ padding (headerSize + front.length)

def headerOf (data : CollectionSnapshotData) (vectors : Bytes) : Header :=
  let body := leading data ++ vectors ++ data.indexBlob
  { formatVersion := formatVersion
    flags := 0
    dimensionality := data.config.dimensionality
    metric := data.config.metric.toByte
    indexType := data.indexType.toByte
    reserved0 := 0
    reserved1 := 0
    recordCount := UInt64.ofNat data.records.length
    nameLength := UInt32.ofNat data.config.name.length
    vectorRegionOff := UInt64.ofNat (headerSize + (leading data).length)
    vectorRegionLen :=
      UInt64.ofNat data.records.length * data.config.dimensionality.toUInt64 * 4
    indexRegionOff := UInt64.ofNat (headerSize + (leading data ++ vectors).length)
    indexRegionLen := UInt64.ofNat data.indexBlob.length
    contentCrc64 := crc64Ecma body 0 }

def encode (data : CollectionSnapshotData) : Run Bytes := do
  let vectors ← putVectors data.config.dimensionality data.records
  return magic ++ (headerOf data vectors).put ++ leading data ++ vectors ++ data.indexBlob

end Encode

structure FileContent where
  bytes : Bytes
  sized : bytes.length < 2 ^ 63

inductive SnapshotFile where
  | missing
  | irregular
  | unmappable (size : Nat)
  | regular (content : FileContent)

section Load

variable (path : Bytes)

def require (holds : Prop) [Decidable holds] (error : Error) : Status :=
  if holds then .ok () else .error error

def notFound (before after : String) : Error :=
  ⟨.snapshotNotFound, text before ++ path ++ text after⟩

def corrupt (why : Bytes) : Error :=
  ⟨.corruption, text "snapshot '" ++ path ++ text "' is corrupt: " ++ why⟩

def openFile (file : SnapshotFile) : Result Bytes :=
  match file with
  | .missing => .error (notFound path "snapshot file '" "' does not exist")
  | .irregular => .error (notFound path "snapshot path '" "' is not a regular file")
  | .unmappable size =>
      if size < headerSize then
        .error (notFound path "file '" "' is too small to contain a snapshot header")
      else .error (notFound path "failed to memory-map snapshot '" "'")
  | .regular content =>
      if content.bytes.length < headerSize then
        .error (notFound path "file '" "' is too small to contain a snapshot header")
      else .ok content.bytes

def readHeader (bytes : Bytes) : Result Header :=
  let (found, reader) := (ByteReader.new bytes).getRaw magic.length
  if reader.ok = false ∨ found ≠ magic then
    .error (notFound path "file '" "' is not a Vector-Vault snapshot")
  else
    let (header, reader) := Header.get reader
    if reader.ok = false then .error (notFound path "snapshot '" "' has a malformed header")
    else .ok header

def unsupported (version : UInt32) : Error :=
  ⟨.unsupportedVersion,
    text "snapshot format version " ++ decimal version.toNat ++
      text " is not supported (this engine reads version " ++ decimal formatVersion.toNat ++
      text ")"⟩

def damaged : Error :=
  ⟨.corruption, text "snapshot '" ++ path ++ text "' failed its content integrity check"⟩

def readMetric (header : Header) : Result DistanceMetric :=
  match DistanceMetric.ofByte? header.metric with
  | some metric => .ok metric
  | none => .error (corrupt path (text "invalid metric tag " ++ decimal header.metric.toNat))

def readIndexType (header : Header) : Result IndexType :=
  match IndexType.ofByte? header.indexType with
  | some type => .ok type
  | none => .error (corrupt path (text "invalid index type tag " ++ decimal header.indexType.toNat))

/-- The offsets and lengths of the header against the file and each other. The
product of the record count and the stride is a 64-bit one. -/
def checkRegions (header : Header) (total : Nat) (type : IndexType) : Status := do
  require (header.recordCount.toNat ≤ total)
    (corrupt path (text "record count exceeds file size"))
  require (header.nameLength.toNat ≤ total - headerSize)
    (corrupt path (text "collection name length out of bounds"))
  require (headerSize ≤ header.vectorRegionOff.toNat ∧ header.vectorRegionOff.toNat ≤ total ∧
      header.vectorRegionLen.toNat ≤ total - header.vectorRegionOff.toNat)
    (corrupt path (text "vector region out of bounds"))
  require (header.vectorRegionLen = header.recordCount * header.stride)
    (corrupt path (text "vector region length inconsistent with record count"))
  require (header.indexRegionOff.toNat ≤ total ∧
      header.indexRegionLen.toNat ≤ total - header.indexRegionOff.toNat)
    (corrupt path (text "index region out of bounds"))
  require (type = .none ↔ header.indexRegionLen = 0)
    (corrupt path (text "index type and index region presence disagree"))

def readName (header : Header) (reader : ByteReader) : Result (Bytes × ByteReader) := do
  let (name, reader) := reader.getRaw header.nameLength.toNat
  require (header.nameLength = 0 ∨ reader.ok = true)
    (corrupt path (text "truncated collection name"))
  require (name ≠ [] ∧ name.length ≤ 255)
    (corrupt path (text "collection name must be 1 to 255 characters"))
  return (name, reader)

structure DirectoryEntry where
  id : RecordId
  vectorIndex : UInt64
  metadata : Option Metadata

def readEntry (header : Header) (reader : ByteReader) :
    Result (DirectoryEntry × ByteReader) := do
  let (id, reader) := reader.getString
  let (vectorIndex, reader) := reader.getU64
  let (metaLength, reader) := reader.getU32
  require (reader.ok = true) (corrupt path (text "truncated record directory"))
  let (blob, reader) := reader.sub metaLength.toNat
  require (reader.ok = true) (corrupt path (text "truncated record metadata blob"))
  match getMetadata blob with
  | none => .error (corrupt path (text "malformed record metadata"))
  | some (metadata, rest) => do
      require (rest.ok = true ∧ rest.remaining = 0)
        (corrupt path (text "malformed record metadata"))
      require (id ≠ []) (corrupt path (text "empty record identifier"))
      require (vectorIndex < header.recordCount)
        (corrupt path (text "record vector index out of range"))
      return (⟨id, vectorIndex, metadata⟩, reader)

/-- The slot of a directory entry points into the mapping. The position is a
64-bit sum; where it wraps to a block that is not in the mapping, the address
is not one the code may use. -/
def slotOf (header : Header) (total : Nat) (entry : DirectoryEntry) : Run RecordSlot :=
  let position := header.vectorRegionOff + entry.vectorIndex * header.stride
  if position.toNat + header.stride.toNat ≤ total then
    .ok ⟨⟨.mapped position.toNat, header.stride.toNat⟩, entry.metadata⟩
  else .error .outOfRange

def readDirectory (header : Header) (total : Nat) :
    Nat → ByteReader → OrderedMap RecordId RecordSlot →
      Run (Result (OrderedMap RecordId RecordSlot × ByteReader))
  | 0, reader, records => return .ok (records, reader)
  | remaining + 1, reader, records =>
      match readEntry path header reader with
      | .error error => return .error error
      | .ok (entry, reader) => do
          let slot ← slotOf header total entry
          if records.contains entry.id then
            return .error (corrupt path
              (text "duplicate record identifier '" ++ entry.id ++ text "'"))
          else readDirectory header total remaining reader (records.emplace entry.id slot)

/-- The vector of a loaded record, as the graph of its index is rebuilt with. -/
def vectorFor (allocator : MemoryAllocator) (collection : Collection) (id : RecordId) :
    Option (List F32) :=
  (collection.records.find? id).bind
    (fun slot => (collection.components allocator slot).toOption)

/-- Every record added in the order of the identifiers. -/
def rebuildIvf (allocator : MemoryAllocator) (collection : Collection) :
    List (RecordId × RecordSlot) → IvfIndex → Run (Result IvfIndex)
  | [], index => return .ok index
  | (id, slot) :: rest, index => do
      let components ← collection.components allocator slot
      let (added, next) ← index.add id components
      match added with
      | .error _ =>
          return .error (corrupt path (text "failed to rebuild IVF index membership"))
      | .ok _ => rebuildIvf allocator collection rest next

/-- The construction parameters of a persisted inverted-file index. -/
def readIvf (region : Bytes) : Result IndexParams := do
  let (nlist, reader) := (ByteReader.new region).getU32
  let (seed, reader) := reader.getU64
  require (reader.ok = true ∧ reader.remaining = 0)
    (corrupt path (text "malformed IVF index region"))
  return { nlist := nlist, seed := seed }

def readIndex (allocator : MemoryAllocator) (collection : Collection) (region : Bytes)
    (type : IndexType) : Run (Result (Option Index)) :=
  match type with
  | .none => return .ok none
  | .hnsw =>
      match HnswIndex.deserialize collection.config.dimensionality collection.config.metric region
        (vectorFor allocator collection) with
      | none => return .error (corrupt path (text "malformed HNSW index region"))
      | some index => return .ok (some (.hnsw index))
  | .ivf =>
      match readIvf path region with
      | .error error => return .error error
      | .ok params => do
          let rebuilt ← rebuildIvf path allocator collection collection.records.entries
            (IvfIndex.new collection.config.dimensionality collection.config.metric params)
          return rebuilt.map (fun index => some (.ivf index))

structure Preamble where
  bytes : Bytes
  header : Header
  metric : DistanceMetric
  type : IndexType
  name : Bytes
  reader : ByteReader

def readPreamble (file : SnapshotFile) : Result Preamble := do
  let bytes ← openFile path file
  let header ← readHeader path bytes
  require (header.formatVersion = formatVersion) (unsupported header.formatVersion)
  require (crc64Ecma (bytes.drop headerSize) 0 = header.contentCrc64) (damaged path)
  require (1 ≤ header.dimensionality.toNat ∧ header.dimensionality.toNat ≤ 65536)
    (corrupt path (text "invalid dimensionality " ++ decimal header.dimensionality.toNat))
  let metric ← readMetric path header
  let type ← readIndexType path header
  checkRegions path header bytes.length type
  let (name, reader) ← readName path header (ByteReader.new (bytes.drop headerSize))
  return ⟨bytes, header, metric, type, name, reader⟩

def Preamble.collection (preamble : Preamble) (tag : Nat)
    (records : OrderedMap RecordId RecordSlot) : Collection :=
  { Collection.new ⟨preamble.name, preamble.header.dimensionality, preamble.metric⟩ tag with
    records := records
    recordCount := records.size
    indexType := preamble.type
    mappedRegion := preamble.bytes }

def Preamble.indexRegion (preamble : Preamble) : Bytes :=
  (preamble.bytes.drop preamble.header.indexRegionOff.toNat).take
    preamble.header.indexRegionLen.toNat

def load (allocator : MemoryAllocator) (file : SnapshotFile) (tag : Nat) :
    Run (Result Collection) :=
  match readPreamble path file with
  | .error error => return .error error
  | .ok preamble => do
      let directory ← readDirectory path preamble.header preamble.bytes.length
        preamble.header.recordCount.toNat preamble.reader OrderedMap.empty
      match directory with
      | .error error => return .error error
      | .ok (records, reader) =>
          if reader.pos > preamble.header.vectorRegionOff.toNat - headerSize then
            return .error (corrupt path (text "record directory overruns the vector region"))
          else do
            let collection := preamble.collection tag records
            let index ← readIndex path allocator collection preamble.indexRegion preamble.type
            match index with
            | .error error => return .error error
            | .ok index => return .ok { collection with index := index }

end Load

section Save

/-- How far the writing and the renaming of a temporary file come. -/
inductive SaveOutcome where
  | published
  | writeFailed
  | renameFailed
  deriving DecidableEq, Repr

def notWritten (temp : Bytes) : Error :=
  ⟨.writeFailure, text "failed to write snapshot temp file '" ++ temp ++ text "'"⟩

def notRenamed (path : Bytes) : Error :=
  ⟨.writeFailure, text "failed to atomically rename snapshot into '" ++ path ++ text "'"⟩

def image (allocator : MemoryAllocator) (collection : Collection) : Run Bytes := do
  let data ← collection.snapshotData allocator
  encode data

/-- The status, and the content the target gets. An image no file can hold is
not written. -/
def save (allocator : MemoryAllocator) (collection : Collection) (path temp : Bytes)
    (outcome : SaveOutcome) : Run (Status × Option FileContent) := do
  let bytes ← image allocator collection
  match outcome with
  | .writeFailed => return (.error (notWritten temp), none)
  | .renameFailed => return (.error (notRenamed path), none)
  | .published =>
      if sized : bytes.length < 2 ^ 63 then return (.ok (), some ⟨bytes, sized⟩)
      else return (.error (notWritten temp), none)

end Save

end PersistenceManager

end VectorVault
