import VectorVault.CollectionMemory
import VectorVault.Persistence

/-! What a file must be like for `load` to accept it.

Every check of `load` that was passed is turned into a fact about the file. -/

namespace VectorVault.PersistenceManager

open Snapshot Crc64 ByteReader

theorem require_ok {holds : Prop} [Decidable holds] {error : Error} {done : Unit}
    (passed : require holds error = .ok done) : holds := by
  unfold require at passed
  split at passed
  · assumption
  · cases passed

variable {path : Bytes}

section Preamble

structure Preamble.Accepted (path : Bytes) (file : SnapshotFile) (preamble : Preamble) : Prop where
  content : ∃ content, file = .regular content ∧ content.bytes = preamble.bytes
  sized : headerSize ≤ preamble.bytes.length
  header : readHeader path preamble.bytes = .ok preamble.header
  version : preamble.header.formatVersion = formatVersion
  intact : crc64Ecma (preamble.bytes.drop headerSize) 0 = preamble.header.contentCrc64
  dimensionality : 1 ≤ preamble.header.dimensionality.toNat ∧
    preamble.header.dimensionality.toNat ≤ 65536
  metric : DistanceMetric.ofByte? preamble.header.metric = some preamble.metric
  type : IndexType.ofByte? preamble.header.indexType = some preamble.type
  recordCount : preamble.header.recordCount.toNat ≤ preamble.bytes.length
  nameLength : preamble.header.nameLength.toNat ≤ preamble.bytes.length - headerSize
  vectorRegion : headerSize ≤ preamble.header.vectorRegionOff.toNat ∧
    preamble.header.vectorRegionOff.toNat ≤ preamble.bytes.length ∧
    preamble.header.vectorRegionLen.toNat ≤
      preamble.bytes.length - preamble.header.vectorRegionOff.toNat
  consistent : preamble.header.vectorRegionLen =
    preamble.header.recordCount * preamble.header.stride
  indexRegion : preamble.header.indexRegionOff.toNat ≤ preamble.bytes.length ∧
    preamble.header.indexRegionLen.toNat ≤
      preamble.bytes.length - preamble.header.indexRegionOff.toNat
  presence : preamble.type = .none ↔ preamble.header.indexRegionLen = 0
  named : readName path preamble.header (ByteReader.new (preamble.bytes.drop headerSize)) =
    .ok (preamble.name, preamble.reader)

theorem openFile_ok {file : SnapshotFile} {bytes : Bytes} (opened : openFile path file = .ok bytes) :
    ∃ content, file = .regular content ∧ content.bytes = bytes ∧ headerSize ≤ bytes.length := by
  unfold openFile at opened
  cases file with
  | missing => cases opened
  | irregular => cases opened
  | unmappable size =>
      simp only at opened
      split at opened <;> cases opened
  | regular content =>
      simp only at opened
      split at opened
      · cases opened
      · next enough =>
          cases opened
          exact ⟨content, rfl, rfl, Nat.le_of_not_lt enough⟩

theorem readPreamble_ok {file : SnapshotFile} {preamble : Preamble}
    (parsed : readPreamble path file = .ok preamble) : preamble.Accepted path file := by
  obtain ⟨bytes, opened, parsed⟩ := bind_ok parsed
  obtain ⟨header, header_, parsed⟩ := bind_ok parsed
  obtain ⟨_, version, parsed⟩ := bind_ok parsed
  obtain ⟨_, intact, parsed⟩ := bind_ok parsed
  obtain ⟨_, dimensionality, parsed⟩ := bind_ok parsed
  obtain ⟨metric, metric_, parsed⟩ := bind_ok parsed
  obtain ⟨type, type_, parsed⟩ := bind_ok parsed
  obtain ⟨_, regions, parsed⟩ := bind_ok parsed
  obtain ⟨⟨name, reader⟩, named, parsed⟩ := bind_ok parsed
  obtain ⟨_, recordCount, regions⟩ := bind_ok regions
  obtain ⟨_, nameLength, regions⟩ := bind_ok regions
  obtain ⟨_, vectorRegion, regions⟩ := bind_ok regions
  obtain ⟨_, consistent, regions⟩ := bind_ok regions
  obtain ⟨_, indexRegion, presence⟩ := bind_ok regions
  obtain ⟨content, isFile, isContent, sized⟩ := openFile_ok opened
  have knownMetric : DistanceMetric.ofByte? header.metric = some metric := by
    unfold readMetric at metric_
    split at metric_
    · next found =>
        cases metric_
        exact found
    · cases metric_
  have knownType : IndexType.ofByte? header.indexType = some type := by
    unfold readIndexType at type_
    split at type_
    · next found =>
        cases type_
        exact found
    · cases type_
  cases parsed
  exact ⟨⟨content, isFile, isContent⟩, sized, header_, require_ok version, require_ok intact,
    require_ok dimensionality, knownMetric, knownType, require_ok recordCount, require_ok nameLength,
    require_ok vectorRegion, require_ok consistent, require_ok indexRegion, require_ok presence,
    named⟩

end Preamble

section Directory

variable {header : Header} {total : Nat}

theorem readEntry_ok {reader after : ByteReader} {entry : DirectoryEntry}
    (parsed : readEntry path header reader = .ok (entry, after)) :
    entry.id ≠ [] ∧ entry.vectorIndex < header.recordCount := by
  obtain ⟨_, _, parsed⟩ := bind_ok parsed
  obtain ⟨_, _, parsed⟩ := bind_ok parsed
  split at parsed
  · cases parsed
  · obtain ⟨_, _, parsed⟩ := bind_ok parsed
    obtain ⟨_, named, parsed⟩ := bind_ok parsed
    obtain ⟨_, indexed, parsed⟩ := bind_ok parsed
    cases parsed
    exact ⟨require_ok named, require_ok indexed⟩

theorem stride_toNat (header : Header) :
    header.stride.toNat = header.dimensionality.toNat * 4 := by
  have bound := header.dimensionality.toNat_lt
  rw [Header.stride, UInt64.toNat_mul, UInt32.toNat_toUInt64]
  apply Nat.mod_eq_of_lt
  change header.dimensionality.toNat * 4 < 2 ^ 64
  omega

/-- The position of the vector with a given number, as 64-bit words give it. -/
def position (header : Header) (vectorIndex : UInt64) : Nat :=
  (header.vectorRegionOff + vectorIndex * header.stride).toNat

/-- A slot whose block is one of the numbered vectors and lies in the file. -/
def Window (header : Header) (total : Nat) (slot : RecordSlot) : Prop :=
  ∃ vectorIndex < header.recordCount,
    slot.vectorBlock = ⟨.mapped (position header vectorIndex), header.stride.toNat⟩ ∧
      position header vectorIndex + header.stride.toNat ≤ total

theorem slotOf_ok {entry : DirectoryEntry} {slot : RecordSlot}
    (indexed : entry.vectorIndex < header.recordCount)
    (found : slotOf header total entry = .ok slot) :
    Window header total slot ∧ slot.metadata = entry.metadata := by
  unfold slotOf at found
  simp only at found
  split at found
  · next inside =>
      cases found
      exact ⟨⟨entry.vectorIndex, indexed, rfl, inside⟩, rfl⟩
  · cases found

structure Listed (header : Header) (total : Nat) (records : OrderedMap RecordId RecordSlot) :
    Prop where
  named : records.find? [] = none
  windows : ∀ id slot, records.find? id = some slot → Window header total slot

theorem listed_empty (header : Header) (total : Nat) : Listed header total OrderedMap.empty :=
  ⟨rfl, fun _ _ found => by cases found⟩

theorem readDirectory_ok {remaining : Nat} {reader after : ByteReader}
    {records final : OrderedMap RecordId RecordSlot} (listed : Listed header total records)
    (parsed : readDirectory path header total remaining reader records = .ok (.ok (final, after))) :
    Listed header total final ∧ final.size = records.size + remaining := by
  induction remaining generalizing reader records with
  | zero =>
      cases parsed
      exact ⟨listed, rfl⟩
  | succ remaining ih =>
      rw [readDirectory] at parsed
      cases entryRead : readEntry path header reader with
      | error error =>
          rw [entryRead] at parsed
          cases parsed
      | ok result =>
          obtain ⟨entry, next⟩ := result
          rw [entryRead] at parsed
          simp only at parsed
          obtain ⟨slot, isSlot, parsed⟩ := bind_ok parsed
          split at parsed
          · cases parsed
          · next fresh =>
              have absent := OrderedMap.absent_of_not_contains fresh
              obtain ⟨named, indexed⟩ := readEntry_ok entryRead
              obtain ⟨window, _⟩ := slotOf_ok indexed isSlot
              rw [OrderedMap.emplace_of_absent _ _ _ absent] at parsed
              have grown : Listed header total (records.insert entry.id slot) := by
                refine ⟨?_, ?_⟩
                · rw [OrderedMap.find_insert_of_ne _ _ (Ne.symm named)]
                  exact listed.named
                · intro id held found
                  rw [OrderedMap.find_insert] at found
                  split at found
                  · cases found
                    exact window
                  · exact listed.windows id held found
              obtain ⟨listedFinal, size⟩ := ih grown parsed
              rw [OrderedMap.size_insert_of_absent _ _ _ absent] at size
              exact ⟨listedFinal, by omega⟩

end Directory

section Load

variable {allocator : MemoryAllocator} {file : SnapshotFile} {tag : Nat} {collection : Collection}

structure Loaded (path : Bytes) (allocator : MemoryAllocator) (file : SnapshotFile) (tag : Nat)
    (collection : Collection) (preamble : Preamble) (records : OrderedMap RecordId RecordSlot)
    (reader : ByteReader) : Prop where
  parsed : readPreamble path file = .ok preamble
  accepted : preamble.Accepted path file
  directory : readDirectory path preamble.header preamble.bytes.length
    preamble.header.recordCount.toNat preamble.reader OrderedMap.empty = .ok (.ok (records, reader))
  listed : Listed preamble.header preamble.bytes.length records
  complete : records.size = preamble.header.recordCount.toNat
  within : reader.pos ≤ preamble.header.vectorRegionOff.toNat - headerSize
  index : readIndex path allocator (preamble.collection tag records) preamble.indexRegion
    preamble.type = .ok (.ok collection.index)
  result : collection = { preamble.collection tag records with index := collection.index }

theorem load_ok (loaded : load path allocator file tag = .ok (.ok collection)) :
    ∃ preamble records reader, Loaded path allocator file tag collection preamble records reader := by
  unfold load at loaded
  cases parsed : readPreamble path file with
  | error error =>
      rw [parsed] at loaded
      cases loaded
  | ok preamble =>
      rw [parsed] at loaded
      simp only at loaded
      obtain ⟨directory, read, loaded⟩ := bind_ok loaded
      cases directory with
      | error error => cases loaded
      | ok result =>
          obtain ⟨records, reader⟩ := result
          simp only at loaded
          split at loaded
          · cases loaded
          · next within =>
              obtain ⟨index, indexed, loaded⟩ := bind_ok loaded
              cases index with
              | error error => cases loaded
              | ok index =>
                  cases loaded
                  obtain ⟨listed, size⟩ :=
                    readDirectory_ok (listed_empty preamble.header preamble.bytes.length) read
                  rw [OrderedMap.size_empty, Nat.zero_add] at size
                  exact ⟨preamble, records, reader, parsed, readPreamble_ok parsed, read, listed, size,
                    Nat.le_of_not_lt within, indexed, rfl⟩

inductive IndexRead (path : Bytes) (allocator : MemoryAllocator) (collection : Collection)
    (region : Bytes) : IndexType → Option Index → Prop
  | none : IndexRead path allocator collection region .none none
  | hnsw {graph : HnswIndex} (read : HnswIndex.deserialize collection.config.dimensionality
      collection.config.metric region (vectorFor allocator collection) = some graph) :
      IndexRead path allocator collection region .hnsw (some (.hnsw graph))
  | ivf {params : IndexParams} {rebuilt : IvfIndex} (read : readIvf path region = .ok params)
      (done : rebuildIvf path allocator collection collection.records.entries
        (IvfIndex.new collection.config.dimensionality collection.config.metric params) =
          .ok (.ok rebuilt)) :
      IndexRead path allocator collection region .ivf (some (.ivf rebuilt))

theorem readIndex_ok {region : Bytes} {type : IndexType} {index : Option Index}
    (read : readIndex path allocator collection region type = .ok (.ok index)) :
    IndexRead path allocator collection region type index := by
  cases type with
  | none =>
      cases read
      exact .none
  | hnsw =>
      unfold readIndex at read
      simp only at read
      split at read
      · cases read
      · next graph parsed =>
          cases read
          exact .hnsw parsed
  | ivf =>
      unfold readIndex at read
      simp only at read
      split at read
      · cases read
      · next params parsed =>
          obtain ⟨outcome, done, result⟩ := bind_ok read
          cases outcome with
          | error error => cases result
          | ok rebuilt =>
              cases result
              exact .ivf parsed done

theorem rebuildIvf_unindexed (before : Collection) (held : Option Index)
    (entries : List (RecordId × RecordSlot)) (index : IvfIndex) :
    rebuildIvf path allocator { before with index := held } entries index =
      rebuildIvf path allocator before entries index := by
  induction entries generalizing index with
  | nil => rfl
  | cons entry rest ih =>
      simp only [rebuildIvf, ih]
      rfl

theorem readIndex_unindexed (before : Collection) (held : Option Index) (region : Bytes)
    (type : IndexType) : readIndex path allocator { before with index := held } region type =
      readIndex path allocator before region type := by
  cases type with
  | none => rfl
  | hnsw => rfl
  | ivf =>
      have same : rebuildIvf path allocator { before with index := held } =
          rebuildIvf path allocator before := by
        funext entries index
        exact rebuildIvf_unindexed before held entries index
      unfold readIndex
      dsimp only
      rw [same]

theorem Loaded.indexRead {preamble : Preamble} {records : OrderedMap RecordId RecordSlot}
    {reader : ByteReader}
    (loaded : Loaded path allocator file tag collection preamble records reader) :
    IndexRead path allocator collection preamble.indexRegion collection.indexType
      collection.index := by
  have type : collection.indexType = preamble.type := by
    rw [loaded.result]
    rfl
  apply readIndex_ok
  calc
    _ = readIndex path allocator { preamble.collection tag records with index := collection.index }
        preamble.indexRegion preamble.type := by rw [← loaded.result, type]
    _ = readIndex path allocator (preamble.collection tag records) preamble.indexRegion
        preamble.type := readIndex_unindexed _ _ _ _
    _ = .ok (.ok collection.index) := loaded.index

theorem Loaded.region_small {preamble : Preamble} {records : OrderedMap RecordId RecordSlot}
    {reader : ByteReader}
    (loaded : Loaded path allocator file tag collection preamble records reader) :
    preamble.indexRegion.length < word := by
  obtain ⟨content, isFile, isContent⟩ := loaded.accepted.content
  have sized := content.sized
  rw [isContent] at sized
  simp only [Preamble.indexRegion, List.length_take, List.length_drop, word]
  omega

theorem Loaded.stored {preamble : Preamble} {records : OrderedMap RecordId RecordSlot}
    {reader : ByteReader}
    (loaded : Loaded path allocator file tag collection preamble records reader)
    (unused : ∀ offset record, allocator.live.find? offset = some record → record.tag ≠ tag) :
    collection.Stored allocator [] := by
  have bytes : collection.vectorBytes = preamble.header.stride.toNat := by
    rw [loaded.result, stride_toNat]
    rfl
  have mapped : ∀ id slot, collection.records.find? id = some slot → slot.arenaOffset = none := by
    intro id slot found
    rw [loaded.result] at found
    obtain ⟨_, _, block, _⟩ := loaded.listed.windows id slot found
    simp only [RecordSlot.arenaOffset, block]
  have none : collection.arenaOffsets = [] := by
    rw [List.eq_nil_iff_forall_not_mem]
    intro offset member
    obtain ⟨id, slot, found, isOffset⟩ := (mem_offsetsOf _ _).mp member
    rw [mapped id slot found] at isOffset
    cases isOffset
  refine ⟨by rw [loaded.result]; rfl, by rw [loaded.result]; exact loaded.listed.named, ?_, ?_⟩
  · intro id slot found
    rw [loaded.result] at found
    obtain ⟨vectorIndex, _, block, inside⟩ := loaded.listed.windows id slot found
    right
    refine ⟨position preamble.header vectorIndex, ?_, ?_⟩
    · rw [bytes]
      exact block
    · rw [bytes, loaded.result]
      exact inside
  · rw [none]
    have isTag : collection.tag = tag := by
      rw [loaded.result]
      rfl
    rw [isTag]
    refine ⟨?_, ?_, List.nodup_nil⟩
    · intro offset
      apply iff_of_false (List.not_mem_nil)
      intro owned
      obtain ⟨record, held, isTag⟩ := owned
      exact unused offset record held isTag
    · intro offset record held isTag
      exact absurd isTag (unused offset record held)

end Load

end VectorVault.PersistenceManager
