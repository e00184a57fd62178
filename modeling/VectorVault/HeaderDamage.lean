import VectorVault.HeaderBytes
import VectorVault.SavedRuns

/-! An image with one byte of its header changed.

The checksum leaves the header out. Most of a header is held in place by the
checks of its fields against each other and the file; what is not is the metric,
the low byte of the length of the name, the start of the vectors, and the
dimensionality of a collection without records. -/

namespace VectorVault

open Snapshot Collection ByteReader LittleEndian

/-- What a collection loaded from an image with the given byte of its header
changed has in common with the one that was saved. -/
structure HeaderDamaged (number : Nat) (allocator : MemoryAllocator) (collection : Collection)
    (other : MemoryAllocator) (loaded : Collection) : Prop where
  indexType : loaded.indexType = collection.indexType
  count : loaded.count = collection.count
  metric : number ≠ 20 → loaded.config.metric = collection.config.metric
  dimensionality : number < 16 ∨ 18 ≤ number ∨ collection.count ≠ 0 →
    loaded.config.dimensionality = collection.config.dimensionality
  name : number ≠ 32 → loaded.config.name = collection.config.name
  ids : number ≠ 32 → loaded.records.keys = collection.records.keys
  metadata : number ≠ 32 → ∀ id, (loaded.records.find? id).map RecordSlot.metadata =
    (collection.records.find? id).map RecordSlot.metadata
  vectors : number ≠ 32 → number < 36 ∨ 42 ≤ number →
    ∀ id, loaded.get other id = collection.get allocator id

namespace PersistenceManager

variable {data : CollectionSnapshotData} {content : FileContent} {path : Bytes} {number : Nat}
  {preamble : Preamble}

section Fields

/-- The number of records of an altered header is the one written, and so is the
dimensionality unless there are none. -/
theorem altered_counts (encodable : data.Encodable)
    (small : headerSize + (bodyOf data).length < 2 ^ 46)
    (total : preamble.bytes.length = headerSize + (bodyOf data).length)
    (accepted : preamble.Accepted path (.regular content))
    (altered : Header.Altered number (writtenHeader data) preamble.header) :
    preamble.header.recordCount.toNat = data.records.length ∧
      (number < 16 ∨ 18 ≤ number ∨ data.records.length ≠ 0 →
        preamble.header.dimensionality = data.config.dimensionality) := by
  have exact_ := writtenHeader_exact encodable small
  have positive := encodable.config.positive
  have bounded := encodable.config.bounded
  have known := accepted.dimensionality
  -- The product of the two is the length of the vector region, in both headers.
  have product : preamble.header.vectorRegionLen.toNat =
      preamble.header.recordCount.toNat * (preamble.header.dimensionality.toNat * 4) := by
    rw [accepted.consistent, ← stride_toNat]
    exact (region_length_exact (by rw [total]; exact small) known.2 accepted.recordCount).2
  have written := exact_.vectorRegionLen
  have length : number < 44 ∨ 52 ≤ number → preamble.header.vectorRegionLen.toNat =
      (writtenHeader data).vectorRegionLen.toNat :=
    altered.field 10 rfl rfl 8 le_rfl (u64_below _) (u64_below _)
  have count : number < 24 ∨ 32 ≤ number → preamble.header.recordCount.toNat =
      (writtenHeader data).recordCount.toNat :=
    altered.field 7 rfl rfl 8 le_rfl (u64_below _) (u64_below _)
  have isDimensionality : (writtenHeader data).dimensionality = data.config.dimensionality := rfl
  -- From 1 to 65536 a number is determined by its two low bytes.
  have dimensionality : number < 16 ∨ 18 ≤ number → preamble.header.dimensionality.toNat =
      (writtenHeader data).dimensionality.toNat := by
    intro outside
    have low := altered.low 2 rfl rfl 2 (by decide) outside
    rw [isDimensionality] at low ⊢
    omega
  rw [exact_.recordCount] at count
  rw [isDimensionality] at dimensionality
  have counted : preamble.header.recordCount.toNat = data.records.length := by
    by_cases outside : number < 24 ∨ 32 ≤ number
    · exact count outside
    · have same := length (by omega)
      rw [product, written, dimensionality (by omega)] at same
      exact Nat.eq_of_mul_eq_mul_right (by omega) same
  refine ⟨counted, ?_⟩
  intro held
  apply UInt32.toNat_inj.mp
  by_cases outside : number < 16 ∨ 18 ≤ number
  · exact dimensionality outside
  · have same := length (by omega)
    rw [product, written, counted] at same
    have equal := Nat.eq_of_mul_eq_mul_left (by omega) same
    omega

theorem altered_metric (accepted : preamble.Accepted path (.regular content))
    (altered : Header.Altered number (writtenHeader data) preamble.header)
    (elsewhere : number ≠ 20) : preamble.metric = data.config.metric := by
  have same : preamble.header.metric.toNat = (writtenHeader data).metric.toNat :=
    altered.field 3 rfl rfl 1 le_rfl (u8_below _) (u8_below _) (show number < 20 ∨ 21 ≤ number by omega)
  have known := accepted.metric
  rw [UInt8.toNat_inj.mp same, show (writtenHeader data).metric = data.config.metric.toByte from rfl,
    DistanceMetric.ofByte_toByte] at known
  exact (Option.some.inj known).symm

theorem readName_short {header : Header} {reader next : ByteReader} {bytes name : Bytes}
    (left : reader.Left bytes) (named : readName path header reader = .ok (name, next)) :
    header.nameLength.toNat < 256 := by
  obtain ⟨_, truncated, checked⟩ := bind_ok named
  obtain ⟨_, nonempty, _⟩ := bind_ok checked
  have known : (reader.getRaw header.nameLength.toNat).1 ≠ [] ∧
      (reader.getRaw header.nameLength.toNat).1.length ≤ 255 := require_ok nonempty
  rcases require_ok truncated with zero | ok
  · rw [zero]
    decide
  · obtain ⟨part, _, _, size, isPart, _⟩ := getRaw_backward left
      (lt_trans header.nameLength.toNat_lt (by decide)) ok
    rw [isPart, size] at known
    omega

theorem altered_name (encodable : data.Encodable)
    (rest : preamble.bytes.drop headerSize = bodyOf data)
    (small : headerSize + (bodyOf data).length < 2 ^ 46)
    (accepted : preamble.Accepted path (.regular content))
    (altered : Header.Altered number (writtenHeader data) preamble.header)
    (elsewhere : number ≠ 32) :
    preamble.name = data.config.name ∧
      preamble.reader.Left (putDirectory data.records ++ behind data) := by
  have short := encodable.config.short
  have isLength : (writtenHeader data).nameLength = UInt32.ofNat data.config.name.length := rfl
  have left := left_new (bodyOf data) (by simp only [word]; omega)
  have named := accepted.named
  rw [rest] at named
  have bounded := readName_short left named
  have same : preamble.header.nameLength.toNat = (writtenHeader data).nameLength.toNat := by
    apply altered.field 8 rfl rfl 1 (by decide) _ bounded
      (show number < 32 ∨ 33 ≤ number by omega)
    rw [isLength, UInt32.toNat_ofNat_of_lt' (lt_of_le_of_lt short (by decide))]
    omega
  rw [bodyOf_eq] at named left
  obtain ⟨next, read, onward⟩ := @readName_forward preamble.header _ _ path data.config.name
    ((UInt32.toNat_inj.mp same).trans isLength) encodable.config.named encodable.config.short left
  rw [named, Except.ok.injEq, Prod.mk.injEq] at read
  exact ⟨read.1, by rw [read.2]; exact onward⟩

theorem altered_vectors (encodable : data.Encodable)
    (small : headerSize + (bodyOf data).length < 2 ^ 46)
    (total : preamble.bytes.length = headerSize + (bodyOf data).length)
    (accepted : preamble.Accepted path (.regular content))
    (altered : Header.Altered number (writtenHeader data) preamble.header)
    (elsewhere : number < 36 ∨ 42 ≤ number) :
    preamble.header.vectorRegionOff.toNat = headerSize + (leading data).length := by
  have off := (writtenHeader_exact encodable small).vectorRegionOff
  have body := length_bodyOf encodable
  have region := accepted.vectorRegion
  rw [← off]
  exact altered.field 9 rfl rfl 6 (by decide) (by omega) (by omega) elsewhere

end Fields

section Index

def RegionLength (type : IndexType) (length : Nat) : Prop :=
  match type with
  | .none => length = 0
  | .hnsw => 28 ≤ length
  | .ivf => length = 12

theorem regionLength_unique {first second : IndexType} {length : Nat}
    (isFirst : RegionLength first length) (isSecond : RegionLength second length) :
    first = second := by
  unfold RegionLength at isFirst isSecond
  cases first with
  | none =>
      cases second with
      | none => rfl
      | hnsw => exact absurd isSecond (by omega)
      | ivf => exact absurd isSecond (by omega)
  | hnsw =>
      cases second with
      | none => exact absurd isSecond (by omega)
      | hnsw => rfl
      | ivf => exact absurd isSecond (by omega)
  | ivf =>
      cases second with
      | none => exact absurd isSecond (by omega)
      | hnsw => exact absurd isSecond (by omega)
      | ivf => rfl

theorem length_region (region : HnswRegion) : 28 ≤ region.put.length := by
  simp only [HnswRegion.put, List.length_append, length_putU32, length_putU64]
  omega

theorem regionLength_captured {whole : Prop} {collection : Collection}
    {view : OrderedMap RecordId RecordView} (tracked : collection.Tracked whole view) :
    RegionLength collection.indexType collection.indexBlob.length := by
  have typed := tracked.typed
  unfold Collection.indexBlob
  cases held : collection.index with
  | none =>
      rw [held] at typed
      rw [typed]
      rfl
  | some index =>
      rw [held] at typed
      cases index with
      | hnsw graph =>
          rw [typed]
          exact length_region graph.canonicalForm
      | ivf file =>
          rw [typed]
          rfl

theorem readIvf_length {region : Bytes} {params : IndexParams} (small : region.length < word)
    (read : readIvf path region = .ok params) : region.length = 12 := by
  obtain ⟨_, passed, _⟩ := bind_ok read
  have checked : ((new region).getU32.2.getU64).2.ok = true ∧
      ((new region).getU32.2.getU64).2.remaining = 0 := require_ok passed
  obtain ⟨ok, nothing⟩ := checked
  have first := inverse_u64.sticky _ ok
  obtain ⟨_, tail, halves, next⟩ := inverse_u32.backward _ _ (left_new region small) first
  obtain ⟨_, rest, split, last⟩ := inverse_u64.backward _ _ next ok
  rw [last.remaining] at nothing
  rw [halves, split, List.length_append, List.length_append, length_putU32, length_putU64, nothing]

theorem readIndex_length {allocator : MemoryAllocator} {collection : Collection} {region : Bytes}
    {type : IndexType} {index : Option Index} (small : region.length < word)
    (nothing : type = .none → region.length = 0)
    (read : IndexRead path allocator collection region type index) :
    RegionLength type region.length := by
  cases read with
  | none => exact nothing rfl
  | hnsw found =>
      obtain ⟨fields, written, _⟩ := HnswIndex.deserialize_some small found
      rw [written]
      exact length_region fields
  | ivf found => exact readIvf_length small found

theorem altered_type {allocator : MemoryAllocator} {tag : Nat} {loaded : Collection}
    {records : OrderedMap RecordId RecordSlot} {reader : ByteReader} (encodable : data.Encodable)
    (sized : RegionLength data.indexType data.indexBlob.length)
    (small : headerSize + (bodyOf data).length < 2 ^ 46)
    (stages : Loaded path allocator (.regular content) tag loaded preamble records reader)
    (altered : Header.Altered number (writtenHeader data) preamble.header) :
    preamble.type = data.indexType := by
  have accepted := stages.accepted
  have exact_ := writtenHeader_exact encodable small
  by_cases elsewhere : number = 21
  · -- The length of the region is what it was, and tells the type.
    have len : preamble.header.indexRegionLen.toNat = (writtenHeader data).indexRegionLen.toNat :=
      altered.field 12 rfl rfl 8 le_rfl (u64_below _) (u64_below _)
        (show number < 60 ∨ 68 ≤ number by omega)
    have region := accepted.indexRegion
    have length : preamble.indexRegion.length = data.indexBlob.length := by
      rw [Preamble.indexRegion, List.length_take, List.length_drop, len, exact_.indexRegionLen]
      rw [len, exact_.indexRegionLen] at region
      omega
    have nothing : preamble.type = .none → preamble.indexRegion.length = 0 := by
      intro isNone
      have zero := accepted.presence.mp isNone
      rw [length, ← exact_.indexRegionLen, ← len, zero]
      rfl
    have fits := readIndex_length stages.region_small nothing (readIndex_ok stages.index)
    rw [length] at fits
    exact regionLength_unique fits sized
  · have same : preamble.header.indexType.toNat = (writtenHeader data).indexType.toNat :=
      altered.field 4 rfl rfl 1 le_rfl (u8_below _) (u8_below _)
        (show number < 21 ∨ 22 ≤ number by omega)
    have known := accepted.type
    rw [UInt8.toNat_inj.mp same, show (writtenHeader data).indexType = data.indexType.toByte from rfl,
      IndexType.ofByte_toByte] at known
    exact (Option.some.inj known).symm

end Index

section Records

variable {view : OrderedMap RecordId RecordView}

theorem recordsAt_metadata (header : Header) (id : RecordId) :
    ((recordsAt header (recordsOf view)).find? id).map RecordSlot.metadata =
      (view.find? id).map RecordView.metadata := by
  have distinct : ((recordsOf view).map SnapshotRecord.id).Nodup := by
    rw [recordsOf_ids]
    exact view.nodup_keys
  cases known : view.find? id with
  | some record =>
      obtain ⟨number, there⟩ := recordsOf_of_find view known
      rw [(recordsAt_find header distinct id _).mpr ⟨number, _, there, rfl, rfl⟩]
      rfl
  | none =>
      cases found : (recordsAt header (recordsOf view)).find? id with
      | none => rfl
      | some slot =>
          obtain ⟨number, record, there, named, _⟩ := (recordsAt_find header distinct id slot).mp found
          have same := recordsOf_get view there
          rw [named, known] at same
          cases same

theorem shows_metadata {allocator : MemoryAllocator} {collection : Collection}
    (shows_ : collection.Shows allocator view) (id : RecordId) :
    (collection.records.find? id).map RecordSlot.metadata =
      (view.find? id).map RecordView.metadata := by
  rw [shows_.eq, OrderedMap.find_mapValues, Option.map_map]
  rfl

end Records

section Load

variable {allocator other : MemoryAllocator} {collection loaded : Collection}
  {view : OrderedMap RecordId RecordView} {whole : Prop} {tag : Nat}

/-- A file that was written but for a byte of its header, and the stages it went through. -/
structure AlteredLoad (data : CollectionSnapshotData) (number : Nat) (path : Bytes)
    (other : MemoryAllocator) (content : FileContent) (tag : Nat) (loaded : Collection)
    (preamble : Preamble) (directory : OrderedMap RecordId RecordSlot) (reader : ByteReader) :
    Prop where
  encodable : data.Encodable
  small : headerSize + (bodyOf data).length < 2 ^ 46
  mapped : content.bytes = preamble.bytes
  total : preamble.bytes.length = headerSize + (bodyOf data).length
  body : preamble.bytes.drop headerSize = bodyOf data
  stages : Loaded path other (.regular content) tag loaded preamble directory reader
  altered : Header.Altered number (writtenHeader data) preamble.header

theorem load_alteredLoad {value : UInt8} (encodable : data.Encodable) (inside : number < headerSize)
    (changed : content.bytes = (fileOf (writtenHeader data) (bodyOf data)).set number value)
    (small : content.bytes.length < 2 ^ 46)
    (done : load path other (.regular content) tag = .ok (.ok loaded)) :
    ∃ preamble directory reader,
      AlteredLoad data number path other content tag loaded preamble directory reader := by
  obtain ⟨preamble, directory, reader, stages⟩ := load_ok done
  obtain ⟨_, isFile, isContent⟩ := stages.accepted.content
  cases isFile
  have header := stages.accepted.header
  rw [← isContent] at header
  obtain ⟨rest, altered⟩ := readHeader_altered (lt_trans small (by decide)) inside changed header
  have length : content.bytes.length = headerSize + (bodyOf data).length := by
    rw [changed, List.length_set, length_fileOf]
  rw [length] at small
  rw [isContent] at length rest
  exact ⟨preamble, directory, reader, encodable, small, isContent, length, rest, stages, altered⟩

section Altered

variable {directory : OrderedMap RecordId RecordSlot} {reader : ByteReader}
  (load_ : AlteredLoad data number path other content tag loaded preamble directory reader)

include load_

theorem AlteredLoad.counts : preamble.header.recordCount.toNat = data.records.length ∧
    (number < 16 ∨ 18 ≤ number ∨ data.records.length ≠ 0 →
      preamble.header.dimensionality = data.config.dimensionality) :=
  altered_counts load_.encodable load_.small load_.total load_.stages.accepted load_.altered

theorem AlteredLoad.position {vectorIndex : UInt64}
    (indexed : vectorIndex < preamble.header.recordCount) :
    position preamble.header vectorIndex = preamble.header.vectorRegionOff.toNat +
        vectorIndex.toNat * preamble.header.stride.toNat ∧
      position preamble.header vectorIndex + preamble.header.stride.toNat ≤
        content.bytes.length := by
  have small : content.bytes.length < 2 ^ 46 := by
    rw [load_.mapped, load_.total]
    exact load_.small
  exact load_.stages.accepted.position_exact small indexed

theorem AlteredLoad.records (elsewhere : number ≠ 32) :
    loaded.records = recordsAt preamble.header data.records := by
  obtain ⟨_, left⟩ := altered_name load_.encodable load_.body load_.small load_.stages.accepted
    load_.altered elsewhere
  obtain ⟨next, written, _⟩ := readDirectory_written path load_.encodable load_.counts.1
    (fun _ indexed => (load_.position indexed).2) left
  rw [load_.mapped, load_.stages.directory] at written
  cases written
  rw [load_.stages.result]
  rfl

theorem AlteredLoad.shows (isData : data.records = recordsOf view) (elsewhere : number ≠ 32)
    (beyond : number < 36 ∨ 42 ≤ number) : loaded.Shows other view := by
  have off := altered_vectors load_.encodable load_.small load_.total load_.stages.accepted
    load_.altered beyond
  have sized : data.records.length ≠ 0 →
      preamble.header.dimensionality = data.config.dimensionality :=
    fun some_ => load_.counts.2 (Or.inr (Or.inr some_))
  have mapping : loaded.mappedRegion = content.bytes := by
    rw [load_.stages.result]
    exact load_.mapped.symm
  apply written_shows load_.encodable isData (load_.records elsewhere) _ mapping
  · rw [load_.mapped]
    exact load_.body
  · intro slot less
    have isNumber : (UInt64.ofNat slot).toNat = slot := by
      have records := records_le_body data
      have small := load_.small
      exact UInt64.toNat_ofNat_of_lt' (show slot < 2 ^ 64 by omega)
    have indexed : UInt64.ofNat slot < preamble.header.recordCount := by
      rw [UInt64.lt_iff_toNat_lt, isNumber, load_.counts.1]
      exact less
    have place := (load_.position indexed).1
    rw [isNumber, off, stride_toNat, sized (by omega)] at place
    exact place
  · rw [load_.stages.result]
    exact sized

end Altered

theorem load_altered {value : UInt8} (valid : collection.config.Valid)
    (stored : collection.Stored allocator []) (shows_ : collection.Shows allocator view)
    (tracked : collection.Tracked whole view) (fits : collection.FieldsFit)
    (inside : number < headerSize) {image : Bytes}
    (encoded : encode (collection.captured view) = .ok image)
    (changed : content.bytes = image.set number value) (small : content.bytes.length < 2 ^ 46)
    (done : load path other (.regular content) tag = .ok (.ok loaded)) :
    HeaderDamaged number allocator collection other loaded := by
  have encodable := captured_encodable valid stored.named shows_ tracked fits
  have sized := regionLength_captured tracked
  have counted : collection.recordCount = (recordsOf view).length := by
    rw [stored.counted, length_recordsOf, shows_.size]
  obtain ⟨data, isData⟩ : ∃ data, data = collection.captured view := ⟨_, rfl⟩
  have config : data.config = collection.config := by rw [isData]; rfl
  have type : data.indexType = collection.indexType := by rw [isData]; rfl
  have records : data.records = recordsOf view := by rw [isData]; rfl
  have blob : data.indexBlob = collection.indexBlob := by rw [isData]; rfl
  rw [← isData] at encodable encoded
  rw [← type, ← blob] at sized
  rw [← records] at counted
  rw [written_image encodable encoded] at changed
  obtain ⟨preamble, directory, reader, load_⟩ :=
    load_alteredLoad encodable inside changed small done
  have accepted := load_.stages.accepted
  have metadata : number ≠ 32 → ∀ id, (loaded.records.find? id).map RecordSlot.metadata =
      (collection.records.find? id).map RecordSlot.metadata := by
    intro elsewhere id
    rw [load_.records elsewhere, records, recordsAt_metadata, shows_metadata shows_]
  constructor
  · rw [load_.stages.result, ← type]
    exact altered_type encodable sized load_.small load_.stages load_.altered
  · rw [Collection.count, Collection.count, counted, ← load_.counts.1, ← load_.stages.complete,
      load_.stages.result]
    rfl
  · intro elsewhere
    rw [load_.stages.result, ← config]
    exact altered_metric accepted load_.altered elsewhere
  · intro elsewhere
    rw [load_.stages.result, ← config]
    apply load_.counts.2
    rw [← counted]
    exact elsewhere
  · intro elsewhere
    rw [load_.stages.result, ← config]
    exact (altered_name encodable load_.body load_.small accepted load_.altered elsewhere).1
  · intro elsewhere
    have same : loaded.records.mapValues RecordSlot.metadata =
        collection.records.mapValues RecordSlot.metadata := by
      apply OrderedMap.ext_find
      intro id
      rw [OrderedMap.find_mapValues, OrderedMap.find_mapValues]
      exact metadata elsewhere id
    calc
      _ = (loaded.records.mapValues RecordSlot.metadata).keys :=
        (OrderedMap.keys_mapValues _ _).symm
      _ = (collection.records.mapValues RecordSlot.metadata).keys := by rw [same]
      _ = collection.records.keys := OrderedMap.keys_mapValues _ _
  · exact metadata
  · intro elsewhere beyond id
    have shown := load_.shows records elsewhere beyond
    rw [shown id, shows_ id]

end Load

end PersistenceManager

open PersistenceManager

namespace World

variable {D : Type} [FloatOrder D] {host : Host D} {world : World} {capacity : UInt64}
  {garbage : Nat → UInt8} {commands : List Command} {statuses : List Status} {name : Bytes}
  {collection : Collection}

/-- Any byte of the header of the image of any reachable collection. -/
theorem load_header_changed {bytes : Bytes} {content : FileContent} {number : Nat} {value : UInt8}
    (done : (new capacity garbage).run host commands = .ok (statuses, world))
    (found : world.engine.collections.find? name = some collection) (fits : collection.FieldsFit)
    (isImage : image world.engine.allocator collection = .ok bytes) (inside : number < headerSize)
    (changed : content.bytes = bytes.set number value) (small : content.bytes.length < 2 ^ 46)
    (path : Bytes) (other : MemoryAllocator) (tag : Nat) :
    ∃ outcome, load path other (.regular content) tag = .ok outcome ∧
      ∀ loaded, outcome = .ok loaded →
        HeaderDamaged number world.engine.allocator collection other loaded := by
  obtain ⟨owned, configured, each⟩ := run_tracked done
  obtain ⟨view, shows_, tracked⟩ := each name collection found
  rw [image_captured shows_] at isImage
  obtain ⟨outcome, read⟩ := load_total path other tag small
  refine ⟨outcome, read, ?_⟩
  intro loaded isLoaded
  rw [isLoaded] at read
  exact load_altered (configured name collection found).1 (owned.stored name collection found)
    shows_ tracked fits inside isImage changed small read

theorem load_header_changed_of_tombstone :
    ∃ (statuses : List Status) (world : World) (collection : Collection)
      (content changed : FileContent) (outcome : Result Collection),
      (new 4096 (fun _ => 0)).run (ExactLine.host []) tombstonedRun = .ok (statuses, world) ∧
        image world.engine.allocator collection = .ok content.bytes ∧
        changed.bytes = content.bytes.set 20 1 ∧
        load [] (MemoryAllocator.new 64 (fun _ => 0)) (.regular changed) 1 = .ok outcome ∧
        ∀ loaded, outcome = .ok loaded → HeaderDamaged 20 world.engine.allocator collection
          (MemoryAllocator.new 64 (fun _ => 0)) loaded := by
  obtain ⟨statuses, world, collection, content, done, found, fits, _, isImage, small⟩ :=
    saves_ok (show Saves tombstonedRun = true by decide +kernel)
  have sized : (content.bytes.set 20 1).length = content.bytes.length := List.length_set
  obtain ⟨outcome, read, damaged⟩ := @load_header_changed _ _ _ _ _ _ _ _ _ _ _
    ⟨content.bytes.set 20 1, by rw [sized]; exact content.sized⟩ 20 1 done found fits isImage
    (by decide) rfl (by rw [sized]; exact small) [] (MemoryAllocator.new 64 (fun _ => 0)) 1
  exact ⟨statuses, world, collection, content, _, outcome, done, isImage, rfl, read, damaged⟩

/-- A collection of the run is saved, a byte of the image changed, and the file loaded. -/
structure Slips (commands : List Command) (number : Nat) (value : UInt8) (allocator : MemoryAllocator)
    (collection loaded : Collection) : Prop where
  reached : ∃ statuses world name, (new 4096 (fun _ => 0)).run (ExactLine.host []) commands =
    .ok (statuses, world) ∧ world.engine.allocator = allocator ∧
      world.engine.collections.find? name = some collection
  inside : number < headerSize
  loads : ∃ (bytes : Bytes) (content : FileContent), image allocator collection = .ok bytes ∧
    bytes[number]? ≠ some value ∧ content.bytes = bytes.set number value ∧
    load [] allocator (.regular content) 9 = .ok (.ok loaded)

/-- The collection saved and the one loaded from the changed image. -/
def slipped (commands : List Command) (name : Bytes) (number : Nat) (value : UInt8) :
    Option (MemoryAllocator × Collection × Collection) :=
  match (new 4096 (fun _ => 0)).run (ExactLine.host []) commands with
  | .error _ => none
  | .ok (_, world) =>
      match world.engine.collections.find? name with
      | none => none
      | some collection =>
          match image world.engine.allocator collection with
          | .error _ => none
          | .ok bytes =>
              if sized : (bytes.set number value).length < 2 ^ 63 then
                match load [] world.engine.allocator (.regular ⟨bytes.set number value, sized⟩) 9 with
                | .ok (.ok loaded) =>
                    if number < headerSize ∧ bytes[number]? ≠ some value
                    then some (world.engine.allocator, collection, loaded) else none
                | _ => none
              else none

theorem slips_of_slipped {commands : List Command} {name : Bytes} {number : Nat} {value : UInt8}
    {allocator : MemoryAllocator} {collection loaded : Collection}
    (isSlip : slipped commands name number value = some (allocator, collection, loaded)) :
    Slips commands number value allocator collection loaded := by
  unfold slipped at isSlip
  split at isSlip
  · cases isSlip
  · next statuses world done =>
      split at isSlip
      · cases isSlip
      · next held found =>
          split at isSlip
          · cases isSlip
          · next bytes encoded =>
              split at isSlip
              · next sized =>
                  split at isSlip
                  · next read =>
                      split at isSlip
                      · next really =>
                          cases isSlip
                          exact ⟨⟨statuses, world, name, done, rfl, found⟩, really.1,
                            ⟨bytes, ⟨_, sized⟩, encoded, really.2, rfl, read⟩⟩
                      · cases isSlip
                  · cases isSlip
              · cases isSlip

/-- A run that slips so that the collections tell. -/
theorem slips_of_differs (commands : List Command) (name : Bytes) (number : Nat) (value : UInt8)
    (differs : MemoryAllocator → Collection → Collection → Bool)
    (told : ((slipped commands name number value).any
      (fun slip => differs slip.1 slip.2.1 slip.2.2)) = true) :
    ∃ allocator collection loaded, Slips commands number value allocator collection loaded ∧
      differs allocator collection loaded = true := by
  obtain ⟨⟨allocator, collection, loaded⟩, isSlip, told⟩ := (Option.any_eq_true _ _).mp told
  exact ⟨allocator, collection, loaded, slips_of_slipped isSlip, told⟩

/-- One record in a collection whose name ends in a directory entry of its own. -/
def namedLikeAnEntry : Bytes := [99] ++ putDirectoryEntry (⟨[120], [], none⟩, 0)

def readsAs (allocator : MemoryAllocator) (collection : Collection) (id : RecordId)
    (vector : List F32) : Bool :=
  match collection.get allocator id with
  | .ok (.ok record) => decide (record.vector = vector)
  | _ => false

/-- A changed metric, an empty collection of another dimensionality, a name cut
short with the directory that follows it, and a vector read from elsewhere. -/
theorem header_bytes_slip :
    (∃ allocator collection loaded,
      Slips [.createCollection [99] 1 0] 20 1 allocator collection loaded ∧
        loaded.config.metric ≠ collection.config.metric) ∧
    (∃ allocator collection loaded,
      Slips [.createCollection [99] 1 0] 16 2 allocator collection loaded ∧
        loaded.config.dimensionality ≠ collection.config.dimensionality) ∧
    (∃ allocator collection loaded,
      Slips [.createCollection namedLikeAnEntry 1 0,
        .insert namedLikeAnEntry [97] [0x3F800000] none] 32 1 allocator collection loaded ∧
        loaded.config.name ≠ collection.config.name ∧
        loaded.records.keys ≠ collection.records.keys) ∧
    ∃ allocator collection loaded,
      Slips [.createCollection [99] 1 0, .insert [99] [97] [0x3F800000] none] 36 124 allocator
        collection loaded ∧
        readsAs allocator loaded [97] [0] = true ∧
        readsAs allocator collection [97] [0x3F800000] = true := by
  refine ⟨?_, ?_, ?_, ?_⟩
  · obtain ⟨allocator, collection, loaded, slips, told⟩ :=
      slips_of_differs [.createCollection [99] 1 0] [99] 20 1
        (fun _ saved loaded => decide (loaded.config.metric ≠ saved.config.metric))
        (by decide +kernel)
    exact ⟨allocator, collection, loaded, slips, of_decide_eq_true told⟩
  · obtain ⟨allocator, collection, loaded, slips, told⟩ :=
      slips_of_differs [.createCollection [99] 1 0] [99] 16 2
        (fun _ saved loaded => decide (loaded.config.dimensionality ≠ saved.config.dimensionality))
        (by decide +kernel)
    exact ⟨allocator, collection, loaded, slips, of_decide_eq_true told⟩
  · obtain ⟨allocator, collection, loaded, slips, told⟩ :=
      slips_of_differs [.createCollection namedLikeAnEntry 1 0,
          .insert namedLikeAnEntry [97] [0x3F800000] none] namedLikeAnEntry 32 1
        (fun _ saved loaded => decide (loaded.config.name ≠ saved.config.name ∧
          loaded.records.keys ≠ saved.records.keys))
        (by decide +kernel)
    exact ⟨allocator, collection, loaded, slips, of_decide_eq_true told⟩
  · obtain ⟨allocator, collection, loaded, slips, told⟩ :=
      slips_of_differs [.createCollection [99] 1 0, .insert [99] [97] [0x3F800000] none] [99] 36 124
        (fun allocator saved loaded => readsAs allocator loaded [97] [0] &&
          readsAs allocator saved [97] [0x3F800000])
        (by decide +kernel)
    exact ⟨allocator, collection, loaded, slips, (Bool.and_eq_true _ _).mp told⟩

end World

end VectorVault
