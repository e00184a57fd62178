import VectorVault.LoadSafety
import VectorVault.LoadedTracked
import VectorVault.SnapshotCapture

/-! A collection written as an image and read back. -/

namespace VectorVault

open Snapshot ByteReader Crc64 Collection

namespace PersistenceManager

section Written

variable {data : CollectionSnapshotData}

def bodyOf (data : CollectionSnapshotData) : Bytes :=
  leading data ++ vectorsOf data.records ++ data.indexBlob

def writtenHeader (data : CollectionSnapshotData) : Header := headerOf data (vectorsOf data.records)

theorem encode_written (encodable : data.Encodable) :
    encode data = .ok (fileOf (writtenHeader data) (bodyOf data)) := by
  simp only [encode, putVectors_eq encodable.sized, bind, Except.bind, fileOf, bodyOf,
    writtenHeader]
  simp only [List.append_assoc]
  rfl

theorem written_image {bytes : Bytes} (encodable : data.Encodable)
    (encoded : encode data = .ok bytes) : bytes = fileOf (writtenHeader data) (bodyOf data) := by
  rw [encode_written encodable, Except.ok.injEq] at encoded
  exact encoded.symm

theorem length_putDirectory (records : List SnapshotRecord) :
    records.length ≤ (putDirectory records).length := by
  have each : ∀ entries : List (SnapshotRecord × Nat),
      entries.length ≤ (entries.flatMap putDirectoryEntry).length := by
    intro entries
    induction entries with
    | nil => exact Nat.le_refl 0
    | cons entry tail ih =>
        rw [List.flatMap_cons, List.length_append, List.length_cons, putDirectoryEntry, putString]
        simp only [List.length_append, length_putU32]
        omega
  have all := each records.zipIdx
  rw [List.length_zipIdx] at all
  exact all

structure Exact (header : Header) (data : CollectionSnapshotData) : Prop where
  recordCount : header.recordCount.toNat = data.records.length
  stride : header.stride.toNat = data.config.dimensionality.toNat * 4
  vectorRegionOff : header.vectorRegionOff.toNat = headerSize + (leading data).length
  vectorRegionLen : header.vectorRegionLen.toNat =
    data.records.length * (data.config.dimensionality.toNat * 4)
  consistent : header.vectorRegionLen = header.recordCount * header.stride
  indexRegionOff : header.indexRegionOff.toNat =
    headerSize + (leading data ++ vectorsOf data.records).length
  indexRegionLen : header.indexRegionLen.toNat = data.indexBlob.length

theorem length_bodyOf (encodable : data.Encodable) :
    (bodyOf data).length = (leading data).length +
      data.records.length * (data.config.dimensionality.toNat * 4) + data.indexBlob.length := by
  rw [bodyOf, List.length_append, List.length_append, length_vectorsOf encodable.sized]

theorem records_le_body (data : CollectionSnapshotData) :
    data.records.length ≤ (bodyOf data).length := by
  have directory := length_putDirectory data.records
  simp only [bodyOf, leading, List.length_append]
  omega

theorem writtenHeader_exact (encodable : data.Encodable)
    (small : headerSize + (bodyOf data).length < 2 ^ 46) : Exact (writtenHeader data) data := by
  have body := length_bodyOf encodable
  have records := records_le_body data
  have count : (writtenHeader data).recordCount.toNat = data.records.length :=
    UInt64.toNat_ofNat_of_lt' (show data.records.length < 2 ^ 64 by omega)
  have stride : (writtenHeader data).stride.toNat = data.config.dimensionality.toNat * 4 :=
    stride_toNat _
  have consistent : (writtenHeader data).vectorRegionLen =
      (writtenHeader data).recordCount * (writtenHeader data).stride :=
    UInt64.mul_assoc _ _ _
  have product := (region_length_exact small encodable.config.bounded
    (show (writtenHeader data).recordCount.toNat ≤ _ by rw [count]; omega)).2
  obtain ⟨off, len⟩ := @headerOf_index data (vectorsOf data.records)
    (lt_trans small (by decide))
  constructor
  · exact count
  · exact stride
  · exact UInt64.toNat_ofNat_of_lt' (show _ < 2 ^ 64 by omega)
  · rw [consistent, product, count, stride]
  · exact consistent
  · exact off
  · exact len

theorem Exact.position {header : Header} (exact_ : Exact header data)
    (small : headerSize + (bodyOf data).length < 2 ^ 46) (encodable : data.Encodable)
    {number : Nat} (inside : number < data.records.length) :
    UInt64.ofNat number < header.recordCount ∧
      position header (UInt64.ofNat number) = headerSize + (leading data).length +
        number * (data.config.dimensionality.toNat * 4) := by
  have body := length_bodyOf encodable
  have records := records_le_body data
  have isNumber : (UInt64.ofNat number).toNat = number :=
    UInt64.toNat_ofNat_of_lt' (show number < 2 ^ 64 by omega)
  have indexed : UInt64.ofNat number < header.recordCount := by
    rw [UInt64.lt_iff_toNat_lt, isNumber, exact_.recordCount]
    exact inside
  have product : (header.recordCount * header.stride).toNat =
      header.recordCount.toNat * header.stride.toNat := by
    rw [← exact_.consistent, exact_.vectorRegionLen, exact_.recordCount, exact_.stride]
  have within : header.vectorRegionOff.toNat + header.vectorRegionLen.toNat < word := by
    rw [exact_.vectorRegionOff, exact_.vectorRegionLen]
    simp only [word]
    omega
  have place := (position_exact product exact_.consistent within indexed).1
  rw [isNumber, exact_.vectorRegionOff, exact_.stride] at place
  exact ⟨indexed, place⟩

theorem written_windows {header : Header} (exact_ : Exact header data)
    (small : headerSize + (bodyOf data).length < 2 ^ 46) (encodable : data.Encodable) :
    ∀ vectorIndex < header.recordCount, position header vectorIndex + header.stride.toNat ≤
      headerSize + (bodyOf data).length := by
  intro vectorIndex indexed
  have less : vectorIndex.toNat < data.records.length := by
    rw [UInt64.lt_iff_toNat_lt, exact_.recordCount] at indexed
    exact indexed
  have body := length_bodyOf encodable
  have place := (exact_.position small encodable less).2
  have room : vectorIndex.toNat * (data.config.dimensionality.toNat * 4) +
      data.config.dimensionality.toNat * 4 ≤
      data.records.length * (data.config.dimensionality.toNat * 4) := by
    rw [← Nat.succ_mul]
    exact Nat.mul_le_mul_right _ less
  rw [UInt64.ofNat_toNat] at place
  rw [place, exact_.stride]
  omega

end Written

section Read

variable {data : CollectionSnapshotData} {content : FileContent}

def behind (data : CollectionSnapshotData) : Bytes :=
  padding (headerSize + (data.config.name ++ putDirectory data.records).length) ++
    (vectorsOf data.records ++ data.indexBlob)

theorem bodyOf_eq (data : CollectionSnapshotData) :
    bodyOf data = data.config.name ++ (putDirectory data.records ++ behind data) := by
  simp only [bodyOf, leading, behind, List.append_assoc]

theorem checkRegions_written (path : Bytes) (encodable : data.Encodable)
    (small : headerSize + (bodyOf data).length < 2 ^ 46) :
    checkRegions path (writtenHeader data) (headerSize + (bodyOf data).length) data.indexType =
      .ok () := by
  have exact_ := writtenHeader_exact encodable small
  have records := records_le_body data
  have body := length_bodyOf encodable
  have vectors := length_vectorsOf encodable.sized
  have off := exact_.vectorRegionOff
  have len := exact_.vectorRegionLen
  have indexOff := exact_.indexRegionOff
  have indexLen := exact_.indexRegionLen
  rw [List.length_append] at indexOff
  have name : (writtenHeader data).nameLength.toNat = data.config.name.length := by
    have short := encodable.config.short
    exact UInt32.toNat_ofNat_of_lt' (show data.config.name.length < 2 ^ 32 by omega)
  have nameFits : data.config.name.length ≤ (bodyOf data).length := by
    rw [bodyOf_eq, List.length_append]
    omega
  have presence : data.indexType = .none ↔ (writtenHeader data).indexRegionLen = 0 := by
    rw [encodable.presence, ← List.length_eq_zero_iff, ← indexLen]
    exact ⟨fun zero => UInt64.toNat_inj.mp zero, fun zero => by rw [zero]; rfl⟩
  rw [checkRegions, require_passed _ (by rw [exact_.recordCount]; omega),
    require_passed _ (by rw [name]; omega),
    require_passed _ (by rw [off, len]; omega), require_passed _ exact_.consistent,
    require_passed _ (by rw [indexOff, indexLen]; omega), require_passed _ presence]
  rfl

theorem data_closed (bytes : Bytes) : ReadClosed (fun reader => reader.data = bytes) :=
  fun reader length _ same => (getRaw_data reader length).trans same

theorem readPreamble_written (path : Bytes) (encodable : data.Encodable)
    (isImage : content.bytes = fileOf (writtenHeader data) (bodyOf data))
    (small : content.bytes.length < 2 ^ 46) :
    ∃ reader, readPreamble path (.regular content) =
        .ok ⟨content.bytes, writtenHeader data, data.config.metric, data.indexType,
          data.config.name, reader⟩ ∧
      reader.Left (putDirectory data.records ++ behind data) ∧ reader.data = bodyOf data := by
  have total : content.bytes.length = headerSize + (bodyOf data).length := by
    rw [isImage, length_fileOf]
  have opened : openFile path (.regular content) = .ok content.bytes := by
    rw [openFile, if_neg (by omega)]
  have header : readHeader path content.bytes = .ok (writtenHeader data) := by
    rw [isImage]
    apply readHeader_fileOf
    rw [← isImage]
    exact lt_trans small (by decide)
  have rest : content.bytes.drop headerSize = bodyOf data := by
    rw [isImage, fileOf_drop]
  have intact : crc64Ecma (bodyOf data) 0 = (writtenHeader data).contentCrc64 := rfl
  have metric : readMetric path (writtenHeader data) = .ok data.config.metric := by
    simp only [readMetric, show (writtenHeader data).metric = data.config.metric.toByte from rfl,
      DistanceMetric.ofByte_toByte]
  have type : readIndexType path (writtenHeader data) = .ok data.indexType := by
    simp only [readIndexType, show (writtenHeader data).indexType = data.indexType.toByte from rfl,
      IndexType.ofByte_toByte]
  have left := left_new (bodyOf data) (by simp only [word]; omega)
  rw [bodyOf_eq] at left
  obtain ⟨reader, name, next⟩ := @readName_forward (writtenHeader data) _ _ path data.config.name
    rfl encodable.config.named encodable.config.short left
  rw [← bodyOf_eq] at name
  rw [total] at small
  refine ⟨reader, ?_, next, (data_closed (bodyOf data)).name name rfl⟩
  simp only [readPreamble, opened, header, rest, metric, type, total, bind, Except.bind, name,
    checkRegions_written path encodable small]
  rw [require_passed _ (show (writtenHeader data).formatVersion = formatVersion from rfl),
    require_passed _ intact, require_passed _ ⟨encodable.config.positive, encodable.config.bounded⟩]
  rfl

end Read

section Records

variable {data : CollectionSnapshotData} {header : Header} {content : FileContent}
  {allocator : MemoryAllocator} {view : OrderedMap RecordId RecordView}

theorem readDirectory_written (path : Bytes) (encodable : data.Encodable) {total : Nat}
    (count : header.recordCount.toNat = data.records.length)
    (inside : ∀ vectorIndex < header.recordCount,
      position header vectorIndex + header.stride.toNat ≤ total)
    {reader : ByteReader} {rest : Bytes}
    (left : reader.Left (putDirectory data.records ++ rest)) :
    ∃ next, readDirectory path header total header.recordCount.toNat reader OrderedMap.empty =
        .ok (.ok (recordsAt header data.records, next)) ∧ next.Left rest := by
  have entries : ∀ entry ∈ data.records.zipIdx, data.records[entry.2]? = some entry.1 :=
    fun entry member => List.mem_zipIdx_iff_getElem?.mp member
  have fits : ∀ entry ∈ data.records.zipIdx, entry.1.Fits := fun entry member =>
    encodable.fits entry.1 (List.mem_of_getElem? (entries entry member))
  have indexed : ∀ entry ∈ data.records.zipIdx,
      UInt64.ofNat entry.2 < header.recordCount := by
    intro entry member
    have less := (List.getElem?_eq_some_iff.mp (entries entry member)).1
    have bound := header.recordCount.toNat_lt
    rw [UInt64.lt_iff_toNat_lt,
      UInt64.toNat_ofNat_of_lt' (show entry.2 < 2 ^ 64 by omega), count]
    exact less
  have distinct : (data.records.zipIdx.map (fun entry => entry.1.id)).Nodup := by
    have ids : data.records.zipIdx.map (fun entry => entry.1.id) =
        data.records.map SnapshotRecord.id := by
      calc data.records.zipIdx.map (fun entry => entry.1.id)
          = (data.records.zipIdx.map Prod.fst).map SnapshotRecord.id := by
            rw [List.map_map]
            rfl
        _ = data.records.map SnapshotRecord.id := by rw [List.zipIdx_map_fst]
    rw [ids]
    exact encodable.distinct
  have read := readDirectory_forward path data.records.zipIdx fits indexed inside distinct
    (fun _ _ => OrderedMap.find_empty _) left
  rw [List.length_zipIdx, ← count] at read
  exact read

theorem load_written (path : Bytes) (encodable : data.Encodable)
    (isImage : content.bytes = fileOf (writtenHeader data) (bodyOf data))
    (small : content.bytes.length < 2 ^ 46) :
    ∃ reader next, readPreamble path (.regular content) =
        .ok ⟨content.bytes, writtenHeader data, data.config.metric, data.indexType,
          data.config.name, reader⟩ ∧
      readDirectory path (writtenHeader data) content.bytes.length
        (writtenHeader data).recordCount.toNat reader OrderedMap.empty =
          .ok (.ok (recordsAt (writtenHeader data) data.records, next)) ∧
      ¬ next.pos > (writtenHeader data).vectorRegionOff.toNat - headerSize := by
  have total : content.bytes.length = headerSize + (bodyOf data).length := by
    rw [isImage, length_fileOf]
  have fits := small
  rw [total] at fits
  have exact_ := writtenHeader_exact encodable fits
  rcases readPreamble_written path encodable isImage small with ⟨reader, preamble, left, within⟩
  have inside := written_windows exact_ fits encodable
  rw [← total] at inside
  rcases readDirectory_written path encodable exact_.recordCount inside left with
    ⟨next, directory, done⟩
  refine ⟨reader, next, preamble, directory, ?_⟩
  have position := done.position
  rw [(data_closed (bodyOf data)).directory directory within] at position
  have lengths := congrArg List.length (bodyOf_eq data)
  rw [exact_.vectorRegionOff]
  simp only [List.length_append, bodyOf, leading, behind] at lengths position ⊢
  omega

theorem indexRegion_written (encodable : data.Encodable)
    (isImage : content.bytes = fileOf (writtenHeader data) (bodyOf data))
    (small : content.bytes.length < 2 ^ 46) (reader : ByteReader) :
    Preamble.indexRegion ⟨content.bytes, writtenHeader data, data.config.metric, data.indexType,
      data.config.name, reader⟩ = data.indexBlob := by
  have fits := small
  rw [isImage, length_fileOf] at fits
  have exact_ := writtenHeader_exact encodable fits
  simp only [Preamble.indexRegion, exact_.indexRegionOff, exact_.indexRegionLen]
  rw [isImage, ← List.drop_drop, fileOf_drop, bodyOf, List.drop_left, List.take_length]

theorem components_written (encodable : data.Encodable)
    (isImage : content.bytes.drop headerSize = bodyOf data) {collection : Collection}
    (dimensionality : collection.config.dimensionality = data.config.dimensionality)
    (mapped : collection.mappedRegion = content.bytes) {number : Nat} {record : SnapshotRecord}
    (found : data.records[number]? = some record)
    (place : position header (UInt64.ofNat number) = headerSize + (leading data).length +
      number * (data.config.dimensionality.toNat * 4)) :
    collection.components allocator (slotAt header (record, number)) = .ok record.vector := by
  have bytes : collection.vectorBytes = data.config.dimensionality.toNat * 4 := by
    rw [vectorBytes, dimensionality]
  have less := (List.getElem?_eq_some_iff.mp found).1
  have vectors := length_vectorsOf encodable.sized
  have body := length_bodyOf encodable
  have within : number * (data.config.dimensionality.toNat * 4) +
      data.config.dimensionality.toNat * 4 ≤ (vectorsOf data.records).length := by
    rw [vectors, ← Nat.succ_mul]
    exact Nat.mul_le_mul_right _ less
  have total : content.bytes.length - headerSize = (bodyOf data).length := by
    rw [← isImage, List.length_drop]
  have inside : position header (UInt64.ofNat number) + data.config.dimensionality.toNat * 4 ≤
      content.bytes.length := by
    have positive := encodable.config.positive
    rw [place]
    omega
  have window : (content.bytes.drop (position header (UInt64.ofNat number))).take
      (data.config.dimensionality.toNat * 4) = putVector record.vector := by
    rw [place, Nat.add_assoc, ← List.drop_drop, isImage, bodyOf, List.append_assoc,
      List.drop_length_add_append, List.drop_append_of_le_length (by omega),
      List.take_append_of_le_length (by rw [List.length_drop]; omega)]
    exact vectorsOf_at encodable.sized found
  have block : readBlock allocator collection.mappedRegion
      (slotAt header (record, number)).vectorBlock collection.vectorBytes =
        .ok (putVector record.vector) := by
    rw [mapped, bytes]
    simp only [readBlock, slotAt]
    rw [if_pos inside, window]
  simp only [Collection.components, block, bind, Except.bind, pure, Except.pure,
    getVector_putVector]

theorem recordsAt_shows {collection : Collection}
    (records : collection.records = recordsAt header (recordsOf view))
    (reads : ∀ (number : Nat) (record : SnapshotRecord),
      (recordsOf view)[number]? = some record →
        collection.components allocator (slotAt header (record, number)) = .ok record.vector) :
    collection.Shows allocator view := by
  have distinct : ((recordsOf view).map SnapshotRecord.id).Nodup := by
    rw [recordsOf_ids]
    exact view.nodup_keys
  apply shows_of
  · intro id slot found
    rw [records, recordsAt_find header distinct] at found
    obtain ⟨number, record, there, named, isSlot⟩ := found
    refine ⟨record.vector, by rw [isSlot]; exact reads number record there, ?_⟩
    rw [← named, recordsOf_get view there, isSlot]
    rfl
  · intro id missing
    cases known : view.find? id with
    | none => rfl
    | some record =>
        obtain ⟨number, there⟩ := recordsOf_of_find view known
        have found := (recordsAt_find header distinct id _).mpr ⟨number, _, there, rfl, rfl⟩
        rw [records, found] at missing
        cases missing

/-- A collection over the records read shows the view, when its mapping has the
body that was written and its vectors are where they were put. -/
theorem written_shows (encodable : data.Encodable) (isData : data.records = recordsOf view)
    {collection : Collection} (records : collection.records = recordsAt header data.records)
    (dimensionality : data.records.length ≠ 0 →
      collection.config.dimensionality = data.config.dimensionality)
    (mapped : collection.mappedRegion = content.bytes)
    (body : content.bytes.drop headerSize = bodyOf data)
    (places : ∀ number < data.records.length, position header (UInt64.ofNat number) =
      headerSize + (leading data).length + number * (data.config.dimensionality.toNat * 4)) :
    collection.Shows allocator view := by
  rw [isData] at records
  apply recordsAt_shows records
  intro number record found
  rw [← isData] at found
  have less := (List.getElem?_eq_some_iff.mp found).1
  have sized := dimensionality (Nat.ne_of_gt (Nat.zero_lt_of_lt less))
  exact components_written encodable body sized mapped found (places number less)

end Records

end PersistenceManager

end VectorVault
